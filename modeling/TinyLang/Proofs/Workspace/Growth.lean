import TinyLang.Proofs.Except
import TinyLang.Proofs.Path
import TinyLang.Proofs.Workspace.Basic

/-!
# Making directories and new files

Making something that is missing leaves every entry as it is. A path that leads somewhere, or that
fails for another reason than a missing entry, is not affected. One that is missing something may lead
on, but if it is in its shortest form, it leads to no file and through no file that stood there
before.

* `Workspace.Extends`: no entry has changed; `Workspace.Builds`: and only directories are new.
* `Workspace.Extends.locate`, `Workspace.Builds.locate_back`: what this means for paths.
* `Workspace.ensureDirectory_spec`: what making a directory with all those above it does.
-/

namespace TinyLang.Workspace

variable {w w' w'' : Workspace} {p q : Place} {path : Text}

/-- No entry has changed. -/
structure Extends (w w' : Workspace) : Prop where
  current : w'.current = w.current
  entry : ∀ p e, w.entry? p = some e → w'.entry? p = some e

/-- No entry has changed, and only directories are new. -/
structure Builds (w w' : Workspace) : Prop extends w.Extends w' where
  file : ∀ p content, w'.entry? p = some (.file content) → w.entry? p = some (.file content)

namespace Extends

theorem refl (w : Workspace) : w.Extends w := ⟨rfl, fun _ _ h => h⟩

theorem trans (h : w.Extends w') (h' : w'.Extends w'') : w.Extends w'' :=
  ⟨h'.current.trans h.current, fun p e hp => h'.entry p e (h.entry p e hp)⟩

theorem grows (h : w.Extends w') : w.Grows w' :=
  ⟨h.current, fun p hp => h.entry p _ hp, fun p content hp => ⟨content, h.entry p _ hp⟩⟩

theorem walk (h : w.Extends w') {names : List Text} (hwalk : w.walk p names ≠ .error .notFound) :
    w'.walk p names = w.walk p names := by
  induction names generalizing p with
  | nil => rfl
  | cons name names ih =>
    rw [Workspace.walk] at hwalk ⊢
    rw [Workspace.walk]
    cases hp : w.entry? p with
    | none => simp [hp] at hwalk
    | some e =>
      rw [h.entry p e hp]
      rw [hp] at hwalk
      cases e with
      | file content => rfl
      | directory =>
        dsimp only at hwalk ⊢
        by_cases hdot : name = "."
        · rw [if_pos hdot] at hwalk ⊢
          rw [if_pos hdot, ih hwalk]
        rw [if_neg hdot] at hwalk ⊢
        rw [if_neg hdot]
        by_cases hup : name = ".."
        · rw [if_pos hup] at hwalk ⊢
          rw [if_pos hup, ih hwalk]
        rw [if_neg hup] at hwalk ⊢
        rw [if_neg hup]
        by_cases hlong : longestName < name.length
        · rw [if_pos hlong, if_pos hlong]
        rw [if_neg hlong] at hwalk ⊢
        rw [if_neg hlong]
        by_cases hsome : (w.entry? (p ++ [name])).isSome = true
        · rw [if_pos hsome] at hwalk ⊢
          rw [if_pos (h.grows.isSome hsome), ih hwalk]
        · simp [hsome] at hwalk

/-- A path that is missing nothing is not affected. -/
theorem locate (h : w.Extends w') (hloc : w.locate path ≠ .error .notFound) :
    w'.locate path = w.locate path := by
  rw [Workspace.locate] at hloc ⊢
  rw [Workspace.locate]
  split
  · rfl
  split
  · rfl
  split
  · rfl
  rename_i hnull hempty hlong
  rw [if_neg hnull, if_neg hempty, if_neg hlong] at hloc
  have hwalk : w.walk (w.origin path) (Path.parts path) ≠ .error .notFound := by
    intro hwalk
    rw [hwalk] at hloc
    exact hloc rfl
  rw [h.grows.origin, h.walk hwalk]
  cases hq : w.walk (w.origin path) (Path.parts path) with
  | error fault => rfl
  | ok q =>
    rw [hq] at hloc
    dsimp only at hloc ⊢
    cases hentry : w.entry? q with
    | none =>
      rw [hentry] at hloc
      exact absurd rfl hloc
    | some e => rw [h.entry q e hentry]

end Extends

namespace Builds

theorem refl (w : Workspace) : w.Builds w := ⟨.refl w, fun _ _ h => h⟩

theorem trans (h : w.Builds w') (h' : w'.Builds w'') : w.Builds w'' :=
  ⟨h.toExtends.trans h'.toExtends, fun p content hp => h.file p content (h'.file p content hp)⟩

end Builds

/-! ## Paths in their shortest form -/

/-- A way that leads to an entry, or to a file that it would have to go through. -/
def Arrives (w : Workspace) (r : Except FileFault Place) : Prop :=
  r = .error .notDirectory ∨ ∃ q, r = .ok q ∧ (w.entry? q).isSome = true

theorem Arrives.isSome {names : List Text} (h : w.Arrives (w.walk p names)) :
    (w.entry? p).isSome = true := by
  cases names with
  | nil =>
    rcases h with h | ⟨q, hq, hsome⟩
    · cases h
    · cases hq
      exact hsome
  | cons name names =>
    cases hp : w.entry? p with
    | some e => rfl
    | none =>
      rw [walk, hp] at h
      rcases h with h | ⟨q, hq, -⟩
      · cases h
      · cases hq

/-- The way down to something old was there before. -/
theorem Builds.walk_back (h : w.Builds w') (hw : w.WellFormed) {names : List Text}
    (hnames : ∀ name ∈ names, name ≠ "." ∧ name ≠ "..") (hr : w.Arrives (w'.walk p names)) :
    w.walk p names = w'.walk p names := by
  induction names generalizing p with
  | nil => rfl
  | cons name names ih =>
    obtain ⟨⟨hdot, hup⟩, hnames⟩ := List.forall_mem_cons.mp hnames
    rw [walk] at hr ⊢
    rw [walk]
    cases hp : w'.entry? p with
    | none =>
      rw [hp] at hr
      rcases hr with hr | ⟨q, hq, -⟩
      · cases hr
      · cases hq
    | some e =>
      rw [hp] at hr
      cases e with
      | file content => rw [h.file p content hp]
      | directory =>
        dsimp only at hr ⊢
        rw [if_neg hdot, if_neg hup] at hr ⊢
        split at hr
        · rcases hr with hr | ⟨q, hq, -⟩
          · cases hr
          · cases hq
        rename_i hlong
        split at hr
        · rename_i hsome
          have hback := ih hnames hr
          have hchild : (w.entry? (p ++ [name])).isSome = true := Arrives.isSome (hback ▸ hr)
          obtain ⟨e, he⟩ := Option.isSome_iff_exists.mp hchild
          have hdir : w.entry? p = some .directory := by simpa using hw.above _ e he
          rw [hdir]
          dsimp only
          rw [if_neg hdot, if_neg hup, if_neg hlong, if_neg hlong, if_pos hchild, if_pos hsome, hback]
        · rcases hr with hr | ⟨q, hq, -⟩
          · cases hr
          · cases hq

/-- Going up from a directory leads to a directory. -/
theorem WellFormed.walk_up (hw : w.WellFormed) {ups : List Text}
    (hups : ∀ name ∈ ups, name = "." ∨ name = "..") (hp : w.entry? p = some .directory) :
    ∃ q, w.walk p ups = .ok q := by
  induction ups generalizing p with
  | nil => exact ⟨p, rfl⟩
  | cons name ups ih =>
    obtain ⟨hname, hups⟩ := List.forall_mem_cons.mp hups
    rw [walk, hp]
    dsimp only
    split
    · exact ih hups hp
    rename_i hdot
    rw [if_pos (hname.resolve_left hdot)]
    exact ih hups (hw.above p _ hp)

theorem Builds.walk_origin_back (h : w.Builds w') (hw : w.WellFormed)
    (hpath : Path.Descends (Path.parts path))
    (hr : w.Arrives (w'.walk (w'.origin path) (Path.parts path))) :
    w.walk (w.origin path) (Path.parts path) = w'.walk (w'.origin path) (Path.parts path) := by
  obtain ⟨ups, downs, hparts, hups, hdowns⟩ := hpath
  obtain ⟨q, hq⟩ := hw.walk_up hups (hw.origin path)
  have hq' : w'.walk (w'.origin path) ups = .ok q := by
    rw [h.grows.origin]
    exact h.grows.walk hq
  rw [hparts, walk_append, hq'] at hr
  rw [hparts, walk_append, walk_append, hq, hq']
  exact h.walk_back hw hdowns hr

/-- A path that leads to a file, or cannot go through one, did so before. -/
theorem Builds.locate_back (h : w.Builds w') (hw : w.WellFormed)
    (hpath : Path.Descends (Path.parts path))
    (hloc : (∃ p content, w'.locate path = .ok (p, .file content)) ∨
      w'.locate path = .error .notDirectory) : w.locate path = w'.locate path := by
  by_cases husable : IsUsable path
  · rw [locate_of_usable husable] at hloc ⊢
    rw [locate_of_usable husable]
    cases hwalk : w'.walk (w'.origin path) (Path.parts path) with
    | error fault =>
      rw [hwalk] at hloc
      rcases hloc with ⟨p, content, hloc⟩ | hloc
      · cases hloc
      · cases hloc
        rw [h.walk_origin_back hw hpath (by rw [hwalk]; exact .inl rfl), hwalk]
    | ok q =>
      rw [hwalk] at hloc
      dsimp only at hloc ⊢
      cases hentry : w'.entry? q with
      | none => simp [hentry] at hloc
      | some e =>
        cases e with
        | directory => simp [hentry] at hloc
        | file content =>
          have hback : w.walk (w.origin path) (Path.parts path) = .ok q := by
            rw [h.walk_origin_back hw hpath, hwalk]
            rw [hwalk]
            exact .inr ⟨q, rfl, by rw [h.file q content hentry]; rfl⟩
          rw [hback]
          dsimp only
          rw [h.file q content hentry]
  · obtain ⟨fault, hfault, -⟩ := locate_of_not_usable husable
    rw [hfault w, hfault w']

/-! ## Making directories -/

theorem Free.entry?_eq_none (h : w.Free path p) : w.entry? p = none := by
  cases h.fits .directory with
  | new habove hfree e => exact hfree

theorem Free.extends_put (h : w.Free path p) (e : Entry) : w.Extends (w.put p e) := by
  refine ⟨rfl, fun q e' hq => ?_⟩
  have hne : q ≠ p := by
    rintro rfl
    rw [h.entry?_eq_none] at hq
    cases hq
  rw [(h.fits e).entry?_of_ne hne, hq]

theorem Free.builds (h : w.Free path p) : w.Builds (w.put p .directory) := by
  refine ⟨h.extends_put _, fun q content hq => ?_⟩
  have hne : q ≠ p := by
    rintro rfl
    rw [(h.fits .directory).entry?_self] at hq
    cases hq
  rw [← hq, (h.fits .directory).entry?_of_ne hne]

theorem makeDirectory_spec (hw : w.WellFormed) (h : w.makeDirectory path = .ok w') :
    ∃ p, w.Free path p ∧ w' = w.put p .directory := by
  rw [makeDirectory] at h
  split at h
  · cases h
  · rename_i hmissing
    split at h
    · rename_i p hplace
      cases h
      exact ⟨p, free_of_missing hw hmissing hplace, rfl⟩
    · cases h
  · cases h

theorem length_parentPath (path : Text) : (parentPath path).length ≤ path.length - 1 := by
  have hbody : (path.reverse.dropWhile (· == Path.slash)).length ≤ path.length := by
    simpa using (List.dropWhile_suffix (l := path.reverse) (· == Path.slash)).length_le
  have hrest := (List.dropWhile_suffix (l := path.reverse.dropWhile (· == Path.slash))
    (· != Path.slash)).length_le
  rw [parentPath, List.length_reverse, List.length_drop]
  omega

theorem makeDirectories_spec {fuel : Nat} (hw : w.WellFormed) (hfuel : path.length < fuel)
    (h : makeDirectories fuel w path = .ok w') :
    w.Builds w' ∧ w'.WellFormed ∧ ∃ p, w'.Leads path p .directory := by
  induction fuel generalizing w w' path with
  | zero => omega
  | succ fuel ih =>
    rw [makeDirectories] at h
    split at h
    · rename_i p hloc
      cases h
      exact ⟨.refl w, hw, p, leads_of_locate hloc⟩
    · cases h
    · have habove : ∃ w₁, (w.Builds w₁ ∧ w₁.WellFormed) ∧
          (w₁.makeDirectory path = .ok w' ∨
            (∃ p, w₁.locate path = .ok (p, .directory)) ∧ w₁ = w') := by
        dsimp only at h
        split at h
        · obtain ⟨w₁, ⟨⟩, h⟩ := bind_eq_ok.mp h
          refine ⟨w, ⟨.refl w, hw⟩, ?_⟩
          split at h <;> cases h
          · exact .inl ‹_›
          · exact .inr ⟨⟨_, ‹_›⟩, rfl⟩
        · rename_i hne
          have hpos : 0 < (parentPath path).length := by
            rw [List.length_pos_iff]
            simpa using hne
          have hlength := length_parentPath path
          obtain ⟨w₁, habove, h⟩ := bind_eq_ok.mp h
          obtain ⟨hbuilds, hw₁, -⟩ := ih hw (by omega) habove
          refine ⟨w₁, ⟨hbuilds, hw₁⟩, ?_⟩
          split at h <;> cases h
          · exact .inl ‹_›
          · exact .inr ⟨⟨_, ‹_›⟩, rfl⟩
      obtain ⟨w₁, ⟨hbuilds, hw₁⟩, hmake | ⟨⟨p, hloc⟩, rfl⟩⟩ := habove
      · obtain ⟨p, hfree, rfl⟩ := makeDirectory_spec hw₁ hmake
        exact ⟨hbuilds.trans hfree.builds, (hfree.fits _).wellFormed hw₁, p, hfree.leads (.inl rfl)⟩
      · exact ⟨hbuilds, hw₁, p, leads_of_locate hloc⟩

/-- **Making a directory with all those above it.** -/
theorem ensureDirectory_spec (hw : w.WellFormed) (h : w.ensureDirectory path = .ok w') :
    w.Builds w' ∧ w'.WellFormed ∧ ∃ p, w'.Leads path p .directory :=
  makeDirectories_spec hw (Nat.lt_succ_self _) h

/-- A directory that exists is not made. -/
theorem ensureDirectory_of_leads (h : w.Leads path p .directory) :
    w.ensureDirectory path = .ok w := by
  rw [ensureDirectory, makeDirectories, h.locate]

/-- Writing a new file leaves every entry as it is. -/
theorem extends_of_write {content : Text} (hw : w.WellFormed) (h : w.write path content = .ok w')
    (hnew : ∀ p old, w.locate path ≠ .ok (p, .file old)) : w.Extends w' := by
  rw [write] at h
  split at h
  · rename_i p old hloc
    exact absurd hloc (hnew p old)
  · cases h
  · rename_i hmissing
    split at h
    · rename_i p hplace
      split at h
      · cases h
      · cases h
        exact (free_of_missing hw hmissing hplace).extends_put _
    · cases h
  · cases h

end TinyLang.Workspace
