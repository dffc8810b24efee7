import TinyLang.Workspace.History
import TinyLang.Proofs.Workspace.Growth

/-!
# Keeping a history

What can be staged, and whether a history has been started, is a matter of the workspace: doing it
again to a site with the same workspace succeeds again. Only a commit adds to the commits.

* `History.isClean_iff`: when there is nothing to commit.
* `Site.openHistory_again`: a history that was opened is found again.
* `Site.stage_spec`: what staging does, and when it can be done.
* `Site.commitsAt_commit`: when a commit is added.
-/

namespace TinyLang

/-! ## Tables -/

theorem Table.mem_names {α : Type} {t : Table α} {name : Text} (h : (t.find? name).isSome = true) :
    name ∈ t.map Prod.fst := by
  induction t with
  | nil => cases h
  | cons e t ih =>
    rw [Table.find?] at h
    split at h
    · rename_i heq
      exact heq ▸ List.mem_cons_self
    · exact List.mem_cons_of_mem _ (ih h)

theorem Table.isSome_foldl {α : Type} {t : Table α} {entries : List (Text × α)} {name : Text}
    (h : (t.find? name).isSome = true ∨ name ∈ entries.map Prod.fst) :
    ((entries.foldl (fun t (name, v) => Table.insert t name v) t).find? name).isSome = true := by
  induction entries generalizing t with
  | nil => simpa using h
  | cons e entries ih =>
    refine ih ?_
    by_cases hname : name = e.1
    · left
      rw [hname, Table.find?_insert_self]
      rfl
    · rw [Table.find?_insert_of_ne _ _ hname]
      refine h.imp_right fun hmem => ?_
      rw [List.map_cons, List.mem_cons] at hmem
      exact hmem.resolve_left hname

namespace History

theorem mem_names_of_find? {α : Type} {t t' : Table α} {name : Text}
    (h : t.find? name ≠ t'.find? name) : name ∈ (Table.ofEntries (t ++ t')).map Prod.fst := by
  refine Table.mem_names (Table.isSome_foldl (.inr ?_))
  rw [List.map_append, List.mem_append]
  cases hname : t.find? name with
  | some v => exact .inl (Table.mem_names (by rw [hname]; rfl))
  | none =>
    rw [hname] at h
    exact .inr (Table.mem_names (Option.isSome_iff_ne_none.mpr h.symm))

/-- Everything is committed as it stands in the directory, but for what is ignored. -/
structure Settled (h : History) (files : Table Text) (rules : List IgnoreRule) : Prop where
  staged : h.tracked = h.last
  present : ∀ path, h.tracked.find? path = files.find? path ∨
    overlooks rules path ((h.tracked.find? path).isSome && (files.find? path).isSome) = true

/-- There is nothing to commit. -/
theorem isClean_iff (h : History) (files : Table Text) (rules : List IgnoreRule) :
    h.isClean files rules = true ↔ h.Settled files rules := by
  rw [isClean, Bool.and_eq_true, beq_iff_eq, List.isEmpty_iff]
  refine ⟨fun ⟨hstaged, hchanges⟩ => ⟨hstaged, fun path => ?_⟩,
    fun hsettled => ⟨hsettled.staged, ?_⟩⟩
  · by_cases hdiff : h.tracked.find? path = files.find? path
    · exact .inl hdiff
    · have hkept := List.filter_eq_nil_iff.mp hchanges path (mem_names_of_find? hdiff)
      right
      simpa [hdiff] using hkept
  · rw [changes, List.filter_eq_nil_iff]
    intro path hpath
    rcases hsettled.present path with heq | hover
    · simp [heq]
    · simp [hover]

/-! ## Staging leaves the commits -/

theorem commits_stage (h : History) (path content : Text) (rules : List IgnoreRule) :
    (h.stage path content rules).commits = h.commits := by
  rw [stage]
  split <;> rfl

theorem commits_stageBelow (h : History) (path : Text) (files : Table Text)
    (rules : List IgnoreRule) : (h.stageBelow path files rules).commits = h.commits := by
  rw [stageBelow]
  generalize ((h.changes files rules).filter _) = names
  induction names generalizing h with
  | nil => rfl
  | cons name names ih =>
    rw [List.foldl_cons, ih]
    split <;> rfl

end History

namespace Site

variable {s s' t : Site} {p q : Place} {dir path : Text}

theorem history?_setHistory (s : Site) (p q : Place) (h : History) :
    (s.setHistory p h).history? q = if q = p then some h else s.history? q := by
  rw [history?, setHistory, Workspace.find?_replaced, history?]
  split <;> rfl

/-- The commits of a directory, newest first. -/
def commitsAt (s : Site) (p : Place) : List Commit := ((s.history? p).map History.commits).getD []

theorem commitsAt_setHistory (s : Site) (p q : Place) (h : History) :
    (s.setHistory p h).commitsAt q = if q = p then h.commits else s.commitsAt q := by
  rw [commitsAt, history?_setHistory]
  split <;> rfl

theorem commits_getD (s : Site) (p : Place) : ((s.history? p).getD {}).commits = s.commitsAt p := by
  rw [commitsAt]
  cases s.history? p <;> rfl

/-- A site with the same workspace, all whose histories are kept on. -/
structure KeepsOn (s s' : Site) : Prop where
  workspace : s'.workspace = s.workspace
  kept : ∀ p, (s.history? p).isSome = true → (s'.history? p).isSome = true

theorem KeepsOn.refl (s : Site) : s.KeepsOn s := ⟨rfl, fun _ h => h⟩

theorem KeepsOn.trans {s'' : Site} (h : s.KeepsOn s') (h' : s'.KeepsOn s'') : s.KeepsOn s'' :=
  ⟨h'.workspace.trans h.workspace, fun p hp => h'.kept p (h.kept p hp)⟩

theorem keepsOn_setHistory (s : Site) (p : Place) (h : History) : s.KeepsOn (s.setHistory p h) := by
  refine ⟨rfl, fun q hq => ?_⟩
  rw [history?_setHistory]
  split
  · rfl
  · exact hq

/-! ## Opening a history -/

/-- The directory of a history can be made in a workspace, which is then `w`, where the history is
that of a place. -/
structure Opens (s : Site) (dir : Text) (w : Workspace) (p : Place) : Prop where
  info : s.workspace.locate (Path.join (Path.join dir Workspace.historyName) "objects/info") ≠
    .error .notDirectory
  made : s.workspace.ensureDirectory (Path.join dir Workspace.historyName) = .ok w
  place : ∃ e, w.locate dir = .ok (p, e)

/-- Starting a history fails for the directory of the history or for the place. -/
theorem startHistory_eq (s : Site) (dir : Text) : s.startHistory dir =
    if s.workspace.locate (Path.join (Path.join dir Workspace.historyName) "objects/info") =
        .error .notDirectory then
      .error (.file ⟨"stat", Path.join (Path.join dir Workspace.historyName) "objects/info",
        .notDirectory⟩)
    else
      match s.workspace.ensureDirectory (Path.join dir Workspace.historyName) with
      | .error e => .error (.file e)
      | .ok w =>
        match w.locate dir with
        | .error fault => .error (.file ⟨"stat", dir, fault⟩)
        | .ok (p, _) =>
          if (s.history? p).isSome then .error .alreadyKept
          else .ok ({ s with workspace := w }.setHistory p {}, p) := by
  unfold startHistory
  dsimp only
  split
  · rename_i hinfo
    rw [if_pos hinfo]
    rfl
  · rename_i hinfo
    rw [if_neg hinfo]
    cases s.workspace.ensureDirectory (Path.join dir Workspace.historyName) with
    | error e => rfl
    | ok w =>
      change (match w.locate dir with
        | .error fault => _
        | .ok (p, _) => _) = _
      dsimp only
      split
      · rfl
      · split <;> rfl

theorem Opens.startHistory {w : Workspace} (h : s.Opens dir w p) : s.startHistory dir =
    if (s.history? p).isSome then .error .alreadyKept
    else .ok ({ s with workspace := w }.setHistory p {}, p) := by
  obtain ⟨e, hplace⟩ := h.place
  rw [startHistory_eq, if_neg h.info, h.made]
  dsimp only
  rw [hplace]

theorem opens_of_startHistory (h : (∃ r, s.startHistory dir = .ok r) ∨
    s.startHistory dir = .error .alreadyKept) : ∃ w p, s.Opens dir w p := by
  rw [startHistory_eq] at h
  split at h
  · simp at h
  rename_i hinfo
  split at h
  · simp at h
  rename_i w hmade
  split at h
  · simp at h
  rename_i p e hplace
  exact ⟨w, p, hinfo, hmade, e, hplace⟩

theorem Opens.openHistory {w : Workspace} (h : s.Opens dir w p) (hkept : (s.history? p).isSome = true)
    {e : Entry} (hplace : s.workspace.locate dir = .ok (q, e)) : s.openHistory dir = .ok (s, q) := by
  rw [Site.openHistory, h.startHistory, if_pos hkept]
  dsimp only
  rw [hplace]

/-- Opening a history makes directories at most. -/
theorem builds_of_openHistory (hw : s.workspace.WellFormed) (h : s.openHistory dir = .ok (s', p)) :
    s.workspace.Builds s'.workspace := by
  rw [Site.openHistory] at h
  split at h
  · split at h <;> cases h
    exact .refl _
  · obtain ⟨w, q, hopens⟩ := opens_of_startHistory (.inl ⟨_, h⟩)
    rw [hopens.startHistory] at h
    split at h <;> cases h
    exact (Workspace.ensureDirectory_spec hw hopens.made).1

/-- **A history that was opened is found again.** -/
theorem openHistory_again (hw : s.workspace.WellFormed) (h : s.openHistory dir = .ok (s', p))
    (ht : s'.KeepsOn t) : t.openHistory dir = .ok (t, p) := by
  rw [Site.openHistory] at h
  split at h
  · -- It was kept before, so that the site is the same.
    rename_i hstart
    obtain ⟨w, q, hopens⟩ := opens_of_startHistory (.inr hstart)
    have hkept : (s.history? q).isSome = true := by
      rw [hopens.startHistory] at hstart
      split at hstart
      · assumption
      · cases hstart
    split at h
    · rename_i hplace
      cases h
      have hopens' : t.Opens dir w q :=
        ⟨by rw [ht.workspace]; exact hopens.info, by rw [ht.workspace]; exact hopens.made,
          hopens.place⟩
      exact hopens'.openHistory (ht.kept q hkept) (by rw [ht.workspace]; exact hplace)
    · cases h
  · -- It was started, so that its directory has been made.
    obtain ⟨w, q, hopens⟩ := opens_of_startHistory (.inl ⟨_, h⟩)
    rw [hopens.startHistory] at h
    split at h
    · cases h
    cases h
    obtain ⟨hbuilds, -, q', hleads⟩ := Workspace.ensureDirectory_spec hw hopens.made
    obtain ⟨e, hplace⟩ := hopens.place
    have hworkspace : t.workspace = w := ht.workspace
    have hopens' : t.Opens dir w p := by
      refine ⟨fun hinfo => hopens.info ?_, ?_, hopens.place⟩
      · rw [hworkspace] at hinfo
        rw [hbuilds.locate_back hw (Path.descends_join _ _) (.inr hinfo), hinfo]
      · rw [hworkspace]
        exact Workspace.ensureDirectory_of_leads hleads
    refine hopens'.openHistory (ht.kept p ?_) (by rw [hworkspace]; exact hplace)
    rw [history?_setHistory, if_pos rfl]
    rfl

/-! ## Staging and committing -/

theorem stage_spec (h : s.stage dir p path = .ok s') :
    s.KeepsOn s' ∧ ∀ q, s'.commitsAt q = s.commitsAt q := by
  have hset : ∀ h : History, h.commits = ((s.history? p).getD {}).commits →
      s.KeepsOn (s.setHistory p h) ∧ ∀ q, (s.setHistory p h).commitsAt q = s.commitsAt q := by
    intro h hcommits
    refine ⟨s.keepsOn_setHistory p h, fun q => ?_⟩
    rw [commitsAt_setHistory]
    split
    · rename_i hq
      rw [hcommits, commits_getD, hq]
    · rfl
  rw [stage] at h
  split at h
  · cases h
  split at h
  · cases h
    exact hset _ (History.commits_stage ..)
  · cases h
    exact hset _ (History.commits_stageBelow ..)
  · cases h
  · cases h

/-- What can be staged can be staged again. -/
theorem stage_again (h : s.stage dir p path = .ok s') (ht : t.workspace = s.workspace) :
    ∃ t', t.stage dir p path = .ok t' := by
  rw [stage] at h
  rw [stage, ht]
  split at h
  · cases h
  rename_i houtside
  rw [if_neg houtside]
  split at h
  · exact ⟨_, rfl⟩
  · exact ⟨_, rfl⟩
  · cases h
  · cases h

theorem keepsOn_commit (s : Site) (p : Place) (author message : Text) :
    s.KeepsOn (s.commit p author message) := by
  rw [commit]
  split
  · exact .refl s
  · exact s.keepsOn_setHistory p _

/-- There is nothing to commit in a directory. -/
def Settled (s : Site) (p : Place) : Prop :=
  ((s.history? p).getD {}).Settled (s.filesOf p) (s.workspace.ignoreRules p)

/-- **A commit is added** unless there is nothing to commit. -/
theorem commitsAt_commit (s : Site) (p : Place) (author message : Text) :
    (∀ q, (s.commit p author message).commitsAt q = s.commitsAt q) ↔ s.Settled p := by
  rw [Settled, ← History.isClean_iff, commit]
  split
  · rename_i hclean
    exact iff_of_true (fun q => rfl) hclean
  · rename_i hclean
    refine iff_of_false (fun hsame => ?_) hclean
    have hp := hsame p
    rw [commitsAt_setHistory, if_pos rfl, ← commits_getD] at hp
    exact absurd (congrArg List.length hp) (Nat.succ_ne_self _)

end Site

end TinyLang
