import TinyLang.Config.Store
import TinyLang.Proofs.Config.ReadBack
import TinyLang.Proofs.Workspace.Basic

/-!
# Saved configurations

A configuration that was saved is found again, the same in every field, by its path and by the
directory of its project.

* `Config.LoadsAt`: the ways in which a configuration is found.
* `Config.saved_config_loads_back`: when a configuration is saved, and that it is found again.
-/

namespace TinyLang.Config

variable {w w' : Workspace} {path : Text} {c : Config}

/-- A configuration is found by a path, and by every directory that its file is in. -/
structure LoadsAt (c : Config) (w : Workspace) (path : Text) : Prop where
  byFile : loadFile w path = .ok c
  byPath : ∀ dir, find w dir path = .ok (some c)
  byDirectory : ∀ dir, Path.join dir fileName = path → find w dir [] = .ok (some c)

theorem loadsAt_of_leads {p : Place} {content : Text} (h : w.Leads path p (.file content))
    (hc : ofYaml content = .ok c) : c.LoadsAt w path := by
  have hfile : loadFile w path = .ok c := by
    rw [loadFile, h.locate]
    dsimp only
    rw [hc]
    rfl
  refine ⟨hfile, fun dir => ?_, fun dir hdir => ?_⟩
  · rw [find, if_neg (by rw [h.usable.nonempty]; exact Bool.false_ne_true), hfile]
    rfl
  · simp only [find, List.isEmpty_nil, if_true, load, hdir, hfile]

/-- An existing file may be replaced: there is none, or it was agreed to. -/
def MayReplace (w : Workspace) (path : Text) (overwrite : Bool) (confirm : Option Bool) : Prop :=
  isTaken w path = false ∨ overwrite = true ∨ confirm = some true

/-- What saving with care comes to: it is refused, or it is what saving comes to. -/
theorem saveCarefully_cases (c : Config) (w : Workspace) (path : Text) (overwrite : Bool)
    (confirm : Option Bool) : ∃ asked,
    (¬ MayReplace w path overwrite confirm ∧
      c.saveCarefully w path overwrite confirm = ⟨w, false, asked, none⟩) ∨
    (MayReplace w path overwrite confirm ∧
      c.saveCarefully w path overwrite confirm =
        match c.save w path with
        | .ok w => ⟨w, true, asked, none⟩
        | .error e => ⟨w, false, asked, some e⟩) := by
  by_cases hmay : MayReplace w path overwrite confirm
  · have hask : ¬ (isTaken w path && !overwrite && confirm != some true) = true := by
      rcases hmay with h | h | h <;> simp [h]
    exact ⟨_, .inr ⟨hmay, if_neg hask⟩⟩
  · have hask : (isTaken w path && !overwrite && confirm != some true) = true := by
      simpa [MayReplace, and_assoc] using hmay
    exact ⟨_, .inl ⟨hmay, if_pos hask⟩⟩

/-- **A saved configuration loads back.** It is saved exactly if a file can be written to the path
and none is replaced unasked. Then it is found there, the same in every field, and only its file has
changed; otherwise nothing has. -/
theorem saved_config_loads_back (hw : w.WellFormed) (hc : c.Writable) (path : Text)
    (overwrite : Bool) (confirm : Option Bool) :
    let s := c.saveCarefully w path overwrite confirm
    (s.saved = true ↔ w.CanWrite path ∧ MayReplace w path overwrite confirm) ∧
      (s.saved = true → s.error = none ∧ c.LoadsAt s.workspace path ∧
        ∃ p, ∀ q, q ≠ p → s.workspace.entry? q = w.entry? q) ∧
      (s.saved = false → s.workspace = w) := by
  obtain ⟨asked, ⟨hmay, hs⟩ | ⟨hmay, hs⟩⟩ := saveCarefully_cases c w path overwrite confirm
  · simp [hs, hmay]
  cases hsave : c.save w path with
  | error e =>
    have hcannot : ¬ w.CanWrite path := by
      intro hcan
      obtain ⟨w', hwrite⟩ := (w.write_eq_ok_iff_canWrite path c.toYaml).mpr hcan
      rw [save, hwrite] at hsave
      cases hsave
    simp [hs, hsave, hcannot]
  | ok w' =>
    have hcan : w.CanWrite path := (w.write_eq_ok_iff_canWrite path c.toYaml).mp ⟨w', hsave⟩
    obtain ⟨p, hfits, rfl, hleads⟩ := Workspace.write_spec hw hsave
    have hloads := loadsAt_of_leads hleads (ofYaml_toYaml hc)
    simp only [hs, hsave, true_iff, forall_const, Bool.true_eq_false, false_implies, and_true]
    exact ⟨⟨hcan, hmay⟩, trivial, hloads, p, fun q hq => hfits.entry?_of_ne hq⟩

/-- Texts that look like something else, in a directory without a file. -/
theorem saved_config_loads_back_odd_texts :
    let w := Workspace.empty ["home"]
    let c : Config := { name := "true", version := "1.0", main := " # no comment ",
                        author := "it's: \"b\"", run := ⟨true, -0x8000000000000000, "~"⟩ }
    (w.WellFormed ∧ c.Writable) ∧ (c.saveCarefully w "tliconf.yaml" false none).saved = true ∧
      c.LoadsAt (c.saveCarefully w "tliconf.yaml" false none).workspace "tliconf.yaml" := by
  intro w c
  have hw : w.WellFormed := Workspace.wellFormed_empty _
  have hc : c.Writable :=
    ⟨by decide +kernel, by decide +kernel, by decide +kernel, by decide +kernel, by decide +kernel,
      by decide +kernel, by decide, by decide⟩
  have h := saved_config_loads_back hw hc "tliconf.yaml" false none
  have hsaved := h.1.mpr
      ⟨.make (p := ["home", "tliconf.yaml"]) (by decide) (by decide) (by decide), .inl (by decide)⟩
  exact ⟨⟨hw, hc⟩, hsaved, (h.2.1 hsaved).2.1⟩

end TinyLang.Config
