import TinyLang.Workspace.Basic

/-!
# What changing a workspace leaves

Commands only add entries to a workspace and replace the content of files. Paths that lead somewhere
keep leading there, and a path that was written leads to what was written.

* `Workspace.WellFormed`: every entry stands in a directory, and so does the user.
* `Workspace.Grows`: no entry is lost, and none changes its kind.
* `Workspace.Leads`: what a path leads to.
* `Workspace.write_spec`: what writing a file does.
-/

namespace TinyLang.Workspace

variable {w w' : Workspace} {p q : Place}

/-! ## Entries -/

theorem entry?_nil (w : Workspace) : w.entry? [] = some .directory := rfl

theorem find?_replaced {α : Type} (entries : List (Place × α)) (p q : Place) (e : α) :
    ((entries.filter fun old => old.1 != p) ++ [(p, e)]).find? (fun old => old.1 == q) =
      if q = p then some (p, e) else entries.find? fun old => old.1 == q := by
  induction entries with
  | nil =>
    by_cases hqp : q = p
    · simp [hqp]
    · simp [hqp, Ne.symm hqp]
  | cons old entries ih =>
    by_cases hold : old.1 = p
    · rw [List.filter_cons_of_neg (by simp [hold]), ih]
      by_cases hqp : q = p
      · rw [if_pos hqp, if_pos hqp]
      · rw [if_neg hqp, if_neg hqp, List.find?_cons_of_neg (by simp [hold, Ne.symm hqp])]
    · rw [List.filter_cons_of_pos (by simp [hold]), List.cons_append]
      by_cases hq : old.1 = q
      · have hqp : q ≠ p := fun h => hold (hq.trans h)
        rw [if_neg hqp, List.find?_cons_of_pos (by simp [hq]), List.find?_cons_of_pos (by simp [hq])]
      · rw [List.find?_cons_of_neg (by simp [hq]), List.find?_cons_of_neg (by simp [hq]), ih]

theorem entry?_put (w : Workspace) (hp : p ≠ []) (e : Entry) (q : Place) :
    entry? (w.put p e) q = if q = p then some e else w.entry? q := by
  cases q with
  | nil => rw [if_neg (Ne.symm hp)]; rfl
  | cons name q =>
    have hfind : entry? (w.put p e) (name :: q) =
        (((w.entries.filter fun old => old.1 != p) ++ [(p, e)]).find?
          fun old => old.1 == name :: q).map Prod.snd := rfl
    rw [hfind, find?_replaced]
    split <;> rfl

/-- Every entry stands in a directory, and so does the user. -/
structure WellFormed (w : Workspace) : Prop where
  current : w.entry? w.current = some .directory
  above : ∀ p e, w.entry? p = some e → w.entry? p.dropLast = some .directory

theorem entry?_empty (current p : Place) :
    entry? (empty current) p = if p <+: current then some .directory else none := by
  cases p with
  | nil => rw [if_pos List.nil_prefix]; rfl
  | cons name p =>
    have hentry : entry? (empty current) (name :: p) = (((List.range current.length).map fun n =>
        (current.take (n + 1), Entry.directory)).find? fun e => e.1 == name :: p).map Prod.snd := rfl
    rw [hentry]
    split
    · rename_i hprefix
      have hlength := hprefix.length_le
      have hmem : (current.take (p.length + 1), Entry.directory) ∈
          (List.range current.length).map fun n => (current.take (n + 1), Entry.directory) :=
        List.mem_map.mpr ⟨p.length, List.mem_range.mpr hlength, rfl⟩
      have htake : current.take (p.length + 1) = name :: p :=
          (List.prefix_iff_eq_take.mp hprefix).symm
      cases hfind : (((List.range current.length).map fun n =>
          (current.take (n + 1), Entry.directory)).find? fun e => e.1 == name :: p) with
      | none =>
        have := List.find?_eq_none.mp hfind _ hmem
        simp [htake] at this
      | some e =>
        obtain ⟨n, -, rfl⟩ := List.mem_map.mp (List.mem_of_find?_eq_some hfind)
        rfl
    · rename_i hprefix
      rw [Option.map_eq_none_iff, List.find?_eq_none]
      intro e he heq
      obtain ⟨n, -, rfl⟩ := List.mem_map.mp he
      rw [beq_iff_eq] at heq
      exact hprefix (heq ▸ List.take_prefix (n + 1) current)

theorem wellFormed_empty (current : Place) : (empty current).WellFormed where
  current := by rw [entry?_empty]; exact if_pos List.prefix_rfl
  above p e h := by
    rw [entry?_empty] at h ⊢
    split at h
    · rename_i hprefix
      exact if_pos ((List.dropLast_prefix p).trans hprefix)
    · cases h

/-- No entry is lost, and none changes its kind. -/
structure Grows (w w' : Workspace) : Prop where
  current : w'.current = w.current
  directory : ∀ p, w.entry? p = some .directory → w'.entry? p = some .directory
  file : ∀ p content, w.entry? p = some (.file content) → ∃ content',
    w'.entry? p = some (.file content')

namespace Grows

theorem refl (w : Workspace) : w.Grows w := ⟨rfl, fun _ h => h, fun _ content h => ⟨content, h⟩⟩

theorem isSome (h : w.Grows w') (hp : (w.entry? p).isSome = true) : (w'.entry? p).isSome = true := by
  obtain ⟨e, he⟩ := Option.isSome_iff_exists.mp hp
  cases e with
  | directory => simp [h.directory p he]
  | file content =>
    obtain ⟨content', he'⟩ := h.file p content he
    simp [he']

end Grows

/-! ## Following paths -/

theorem walk_append (w : Workspace) (p : Place) (names names' : List Text) :
    w.walk p (names ++ names') = (w.walk p names).bind fun q => w.walk q names' := by
  induction names generalizing p with
  | nil => rfl
  | cons name names ih =>
    rw [List.cons_append, walk, walk]
    split
    · split
      · exact ih p
      split
      · exact ih p.dropLast
      split
      · rfl
      split
      · exact ih (p ++ [name])
      · rfl
    · rfl
    · rfl

/-- A path that leads somewhere still leads there. -/
theorem Grows.walk (h : w.Grows w') {names : List Text} (hwalk : w.walk p names = .ok q) :
    w'.walk p names = .ok q := by
  induction names generalizing p with
  | nil => exact hwalk
  | cons name names ih =>
    rw [Workspace.walk] at hwalk ⊢
    split at hwalk
    · rename_i hp
      rw [h.directory p hp]
      dsimp only
      split at hwalk
      · rename_i hname
        rw [if_pos hname]
        exact ih hwalk
      rename_i hname
      rw [if_neg hname]
      split at hwalk
      · rename_i hup
        rw [if_pos hup]
        exact ih hwalk
      rename_i hup
      rw [if_neg hup]
      split at hwalk
      · cases hwalk
      rename_i hlong
      rw [if_neg hlong]
      split at hwalk
      · rename_i hsome
        rw [if_pos (h.isSome hsome)]
        exact ih hwalk
      · cases hwalk
    · cases hwalk
    · cases hwalk

theorem WellFormed.origin (h : w.WellFormed) (path : Text) :
    w.entry? (w.origin path) = some .directory := by
  rw [Workspace.origin]
  split
  · exact w.entry?_nil
  · exact h.current

/-- Where a path leads, something stands. -/
theorem WellFormed.entry?_walk (h : w.WellFormed) {names : List Text}
    (hp : (w.entry? p).isSome = true) (hwalk : w.walk p names = .ok q) :
    (w.entry? q).isSome = true := by
  induction names generalizing p with
  | nil => cases hwalk; exact hp
  | cons name names ih =>
    rw [Workspace.walk] at hwalk
    split at hwalk
    · rename_i hdir
      split at hwalk
      · exact ih hp hwalk
      split at hwalk
      · exact ih (by simp [h.above p _ hdir]) hwalk
      split at hwalk
      · cases hwalk
      split at hwalk
      · rename_i hsome
        exact ih hsome hwalk
      · cases hwalk
    · cases hwalk
    · cases hwalk

/-! ## Putting an entry -/

/-- An entry that can be put at a place: a new one in a directory, or a file instead of a file. -/
inductive Fits (w : Workspace) : Place → Entry → Prop
  | new {p : Place} {name : Text} (habove : w.entry? p = some .directory)
      (hfree : w.entry? (p ++ [name]) = none) (e : Entry) : Fits w (p ++ [name]) e
  | file {p : Place} {old : Text} (h : w.entry? p = some (.file old)) (content : Text) :
      Fits w p (.file content)

namespace Fits

variable {e : Entry}

theorem ne_nil (h : w.Fits p e) : p ≠ [] := by
  cases h with
  | new habove hfree e => simp
  | file h content =>
    rintro rfl
    cases h

theorem entry?_self (h : w.Fits p e) : entry? (w.put p e) p = some e := by
  rw [w.entry?_put h.ne_nil, if_pos rfl]

theorem entry?_of_ne (h : w.Fits p e) (hq : q ≠ p) : entry? (w.put p e) q = w.entry? q := by
  rw [w.entry?_put h.ne_nil, if_neg hq]

theorem grows (h : w.Fits p e) : w.Grows (w.put p e) where
  current := rfl
  directory q hq := by
    have hne : q ≠ p := by
      rintro rfl
      cases h with
      | new habove hfree e => simp [hq] at hfree
      | file h content => simp [hq] at h
    rw [h.entry?_of_ne hne, hq]
  file q old hq := by
    by_cases hne : q = p
    · subst hne
      cases h with
      | new habove hfree e => simp [hq] at hfree
      | file h' content => exact ⟨content, (Fits.file h' content).entry?_self⟩
    · exact ⟨old, by rw [h.entry?_of_ne hne, hq]⟩

theorem wellFormed (h : w.Fits p e) (hw : w.WellFormed) : (w.put p e).WellFormed where
  current := h.grows.directory _ hw.current
  above q e' hq := by
    apply h.grows.directory
    by_cases hne : q = p
    · subst hne
      cases h with
      | new habove hfree e => simpa using habove
      | file h' content => exact hw.above q _ h'
    · rw [h.entry?_of_ne hne] at hq
      exact hw.above q e' hq

end Fits

/-! ## Where a path leads -/

/-- A path that can be followed at all. -/
structure IsUsable (path : Text) : Prop where
  noNull : path.contains 0 = false
  nonempty : path.isEmpty = false
  short : path.length < pathLimit

/-- A path leads to an entry at a place. -/
structure Leads (w : Workspace) (path : Text) (p : Place) (e : Entry) : Prop where
  usable : IsUsable path
  walk : w.walk (w.origin path) (Path.parts path) = .ok p
  entry : w.entry? p = some e
  /-- Only a directory has a path with a slash at its end. -/
  slash : e = .directory ∨ Path.endsInSlash path = false

variable {path : Text} {e : Entry}

theorem locate_of_usable (h : IsUsable path) : w.locate path =
    match w.walk (w.origin path) (Path.parts path) with
    | .error fault => .error fault
    | .ok p =>
      match w.entry? p with
      | none => .error .notFound
      | some .directory => .ok (p, .directory)
      | some (.file content) =>
        if Path.endsInSlash path then .error .notDirectory else .ok (p, .file content) := by
  have hnull : ¬ path.contains 0 = true := by rw [h.noNull]; exact Bool.false_ne_true
  have hempty : ¬ path.isEmpty = true := by rw [h.nonempty]; exact Bool.false_ne_true
  exact (if_neg hnull).trans ((if_neg hempty).trans (if_neg (Nat.not_le.mpr h.short)))

/-- A path that cannot be followed fails everywhere, and is missing only if it is empty. -/
theorem locate_of_not_usable (h : ¬ IsUsable path) : ∃ fault,
    (∀ w : Workspace, w.locate path = .error fault) ∧ (fault = .notFound → path = []) := by
  by_cases hnull : path.contains 0 = true
  · exact ⟨.badPath, fun w => by rw [locate, if_pos hnull], nofun⟩
  by_cases hempty : path.isEmpty = true
  · exact ⟨.notFound, fun w => by rw [locate, if_neg hnull, if_pos hempty], fun _ =>
      List.isEmpty_iff.mp hempty⟩
  by_cases hlong : pathLimit ≤ path.length
  · exact ⟨.nameTooLong, fun w => by rw [locate, if_neg hnull, if_neg hempty, if_pos hlong], nofun⟩
  · exact absurd ⟨by simpa using hnull, by simpa using hempty, Nat.not_le.mp hlong⟩ h

theorem Leads.locate (h : w.Leads path p e) : w.locate path = .ok (p, e) := by
  rw [locate_of_usable h.usable, h.walk]
  dsimp only
  rw [h.entry]
  cases e with
  | directory => rfl
  | file content =>
    rcases h.slash with hslash | hslash
    · cases hslash
    · simp [hslash]

theorem leads_of_locate (h : w.locate path = .ok (p, e)) : w.Leads path p e := by
  have husable : IsUsable path := by
    refine Classical.byContradiction fun hnot => ?_
    obtain ⟨fault, hfault, -⟩ := locate_of_not_usable hnot
    rw [hfault] at h
    cases h
  rw [locate_of_usable husable] at h
  split at h
  · cases h
  rename_i q hwalk
  split at h
  · cases h
  · rename_i hentry
    cases h
    exact ⟨husable, hwalk, hentry, .inl rfl⟩
  · rename_i hentry
    split at h
    · cases h
    rename_i hslash
    cases h
    exact ⟨husable, hwalk, hentry, .inr (by simpa using hslash)⟩

theorem Grows.origin (h : w.Grows w') (path : Text) : w'.origin path = w.origin path := by
  rw [Workspace.origin, Workspace.origin, h.current]

/-- A path leads to the same place, where something else of the same kind may stand. -/
theorem Leads.grows {e' : Entry} (h : w.Leads path p e) (hgrows : w.Grows w')
    (hentry : w'.entry? p = some e') (hkind : e = .directory → e' = .directory) :
    w'.Leads path p e' where
  usable := h.usable
  walk := by rw [hgrows.origin]; exact hgrows.walk h.walk
  entry := hentry
  slash := h.slash.imp_left hkind

theorem Leads.directory (h : w.Leads path p .directory) (hgrows : w.Grows w') :
    w'.Leads path p .directory :=
  h.grows hgrows (hgrows.directory p h.entry) id

/-- A path that leads nowhere but has a free place. -/
structure Free (w : Workspace) (path : Text) (p : Place) : Prop where
  usable : IsUsable path
  fits : ∀ e, w.Fits p e
  /-- The path leads to the place once something stands there. -/
  walk : ∀ {w' : Workspace}, w.Grows w' → (w'.entry? p).isSome = true →
    w'.walk (w'.origin path) (Path.parts path) = .ok p

theorem freePlace_eq_ok (h : w.freePlace path = .ok p) : ∃ before name q,
    Path.parts path = before ++ [name] ∧ w.walk (w.origin path) before = .ok q ∧
      p = q ++ [name] := by
  rw [freePlace] at h
  cases hwalk : w.walk (w.origin path) (Path.parts path).dropLast with
  | error fault =>
    rw [hwalk] at h
    cases h
  | ok q =>
    rw [hwalk] at h
    cases hlast : (Path.parts path).getLast? with
    | none =>
      simp only [hlast] at h
      cases h
    | some name =>
      simp only [hlast] at h
      cases h
      obtain ⟨before, hparts⟩ := List.getLast?_eq_some_iff.mp hlast
      rw [hparts, List.dropLast_concat] at hwalk
      exact ⟨before, name, q, hparts, hwalk, rfl⟩

/-- Following one name to an entry that is missing, from a place where something stands. -/
theorem walk_name_missing {name : Text} (hp : (w.entry? p).isSome = true)
    (h : w.walk p [name] = .error .notFound) : w.entry? p = some .directory ∧
      w.entry? (p ++ [name]) = none ∧ ∀ {w' : Workspace}, w.Grows w' →
        (w'.entry? (p ++ [name])).isSome = true → w'.walk p [name] = .ok (p ++ [name]) := by
  rw [Workspace.walk] at h
  split at h
  · rename_i hdir
    split at h
    · cases h
    rename_i hdot
    split at h
    · cases h
    rename_i hup
    split at h
    · cases h
    rename_i hlong
    split at h
    · cases h
    rename_i hnone
    refine ⟨hdir, by simpa using hnone, fun hgrows hsome => ?_⟩
    rw [Workspace.walk, hgrows.directory p hdir]
    dsimp only
    rw [if_neg hdot, if_neg hup, if_neg hlong, if_pos hsome]
    rfl
  · cases h
  · rename_i hnone
    simp [hnone] at hp

theorem usable_of_missing (hmissing : w.locate path = .error .notFound)
    (hparts : Path.parts path ≠ []) : IsUsable path := by
  refine Classical.byContradiction fun hnot => ?_
  obtain ⟨fault, hfault, hempty⟩ := locate_of_not_usable hnot
  rw [hfault] at hmissing
  cases hmissing
  exact hparts (by rw [hempty rfl]; rfl)

theorem free_of_missing (hw : w.WellFormed) (hmissing : w.locate path = .error .notFound)
    (hfree : w.freePlace path = .ok p) : w.Free path p := by
  obtain ⟨before, name, q, hparts, hbefore, rfl⟩ := freePlace_eq_ok hfree
  have husable : IsUsable path := usable_of_missing hmissing (by simp [hparts])
  have hq : (w.entry? q).isSome = true :=
    hw.entry?_walk (by rw [hw.origin path]; rfl) hbefore
  have hname : w.walk q [name] = .error .notFound := by
    rw [locate_of_usable husable, hparts, walk_append, hbefore, Except.bind] at hmissing
    split at hmissing
    · rename_i fault hwalk
      cases hmissing
      exact hwalk
    · rename_i p hwalk
      have hsome := hw.entry?_walk hq hwalk
      split at hmissing
      · rename_i hnone
        simp [hnone] at hsome
      · cases hmissing
      · split at hmissing <;> cases hmissing
  obtain ⟨hdir, hnone, hlast⟩ := walk_name_missing hq hname
  refine ⟨husable, .new hdir hnone, fun hgrows hsome => ?_⟩
  rw [hparts, walk_append, hgrows.origin, hgrows.walk hbefore]
  exact hlast hgrows hsome

/-- Something that is put at the free place of a path is where the path leads. -/
theorem Free.leads (h : w.Free path p) (hslash : e = .directory ∨ Path.endsInSlash path = false) :
    (w.put p e).Leads path p e where
  usable := h.usable
  walk := h.walk (h.fits e).grows (by rw [(h.fits e).entry?_self]; rfl)
  entry := (h.fits e).entry?_self
  slash := hslash

/-! ## Writing files -/

/-- A file can be written to a path: it leads to one, or to none but has a free place for it. -/
inductive CanWrite (w : Workspace) (path : Text) : Prop
  | replace {p : Place} {old : Text} (h : w.locate path = .ok (p, .file old))
  | make {p : Place} (hmissing : w.locate path = .error .notFound)
      (hfree : w.freePlace path = .ok p) (hslash : Path.endsInSlash path = false)

theorem write_eq_ok_iff_canWrite (w : Workspace) (path content : Text) :
    (∃ w', w.write path content = .ok w') ↔ w.CanWrite path := by
  constructor
  · rintro ⟨w', h⟩
    rw [write] at h
    split at h
    · rename_i hloc
      exact .replace hloc
    · cases h
    · rename_i hmissing
      split at h
      · rename_i hfree
        split at h
        · cases h
        rename_i hslash
        exact .make hmissing hfree (by simpa using hslash)
      · cases h
    · cases h
  · intro h
    cases h with
    | @replace p old h => exact ⟨w.put p (.file content), by rw [write, h]⟩
    | @make p hmissing hfree hslash =>
      exact ⟨w.put p (.file content), by rw [write, hmissing]; simp [hfree, hslash]⟩

/-- **Writing a file** puts it where its path leads from then on, and nothing else changes. -/
theorem write_spec (hw : w.WellFormed) {content : Text} (h : w.write path content = .ok w') :
    ∃ p, w.Fits p (.file content) ∧ w' = w.put p (.file content) ∧
      w'.Leads path p (.file content) := by
  rw [write] at h
  split at h
  · rename_i p old hloc
    cases h
    have hleads := leads_of_locate hloc
    have hfits : w.Fits p (.file content) := .file hleads.entry content
    exact ⟨p, hfits, rfl, hleads.grows hfits.grows hfits.entry?_self nofun⟩
  · cases h
  · rename_i hmissing
    split at h
    · rename_i p hplace
      split at h
      · cases h
      rename_i hslash
      cases h
      have hfree := free_of_missing hw hmissing hplace
      exact ⟨p, hfree.fits _, rfl, hfree.leads (.inr (by simpa using hslash))⟩
    · cases h
  · cases h

end TinyLang.Workspace
