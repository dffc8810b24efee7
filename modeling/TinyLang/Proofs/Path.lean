import TinyLang.Path
import TinyLang.Proofs.Text.Words

/-!
# The shortest form of a path

A path in its shortest form goes up first, if at all, and down from there.

* `Path.descends_clean`, `Path.descends_join`: this, for what `clean` and `join` give.
-/

namespace TinyLang.Path

/-- The names of a path that goes up first, if at all, and down from there. -/
def Descends (names : List Text) : Prop :=
  ∃ ups downs, names = ups ++ downs ∧ (∀ name ∈ ups, name = "." ∨ name = "..") ∧
    ∀ name ∈ downs, name ≠ "." ∧ name ≠ ".."

/-- What stands between the slashes of a path. -/
def IsPart (name : Text) : Prop := name ≠ [] ∧ slash ∉ name

theorem isPart_of_mem_parts {p name : Text} (h : name ∈ parts p) : IsPart name := by
  obtain ⟨hmem, hne⟩ := List.mem_filter.mp h
  exact ⟨by simpa using hne, (Text.mem_pieces hmem).1⟩

theorem parts_textJoin {names : List Text} (h : ∀ name ∈ names, IsPart name) :
    parts (Text.join "/" names) = names := by
  by_cases hnil : names = []
  · subst hnil
    rfl
  · have hpieces : (Text.join "/" names).pieces slash = names :=
      Text.pieces_join hnil fun name hname => (h name hname).2
    rw [parts, hpieces, List.filter_eq_self]
    intro name hname
    simpa using (h name hname).1

theorem parts_slash_cons (p : Text) : parts (slash :: p) = parts p := by
  rw [parts, Text.pieces, if_pos rfl]
  rfl

/-! ## Putting parts on parts -/

/-- The names that `push` has put on each other, the nearest first. -/
structure Stacked (before : List Text) : Prop where
  parts : ∀ name ∈ before, IsPart name
  split : ∃ downs ups, before = downs ++ ups ∧ (∀ name ∈ ups, name = "..") ∧
    ∀ name ∈ downs, name ≠ "." ∧ name ≠ ".."

theorem Stacked.push {before : List Text} (h : Stacked before) (absolute : Bool) {part : Text}
    (hpart : IsPart part) : Stacked (push absolute before part) := by
  obtain ⟨hparts, downs, ups, rfl, hups, hdowns⟩ := h
  unfold Path.push
  split
  · exact ⟨hparts, downs, ups, rfl, hups, hdowns⟩
  rename_i hdot
  split
  · rename_i hup
    subst hup
    cases downs with
    | cons last downs =>
      rw [List.forall_mem_cons] at hdowns
      rw [List.cons_append] at hparts ⊢
      dsimp only
      rw [if_neg hdowns.1.2]
      exact ⟨(List.forall_mem_cons.mp hparts).2, downs, ups, rfl, hups, hdowns.2⟩
    | nil =>
      rw [List.nil_append] at hparts ⊢
      have hstacked : Stacked ((".." : Text) :: ups) :=
        ⟨List.forall_mem_cons.mpr ⟨hpart, hparts⟩, [], _, rfl,
          List.forall_mem_cons.mpr ⟨rfl, hups⟩, by simp⟩
      cases ups with
      | nil =>
        dsimp only
        split
        · exact ⟨by simp, [], [], rfl, by simp, by simp⟩
        · exact hstacked
      | cons last ups =>
        dsimp only
        rw [if_pos (List.forall_mem_cons.mp hups).1]
        exact hstacked
  · rename_i hup
    exact ⟨List.forall_mem_cons.mpr ⟨hpart, hparts⟩, part :: downs, ups, rfl, hups,
      List.forall_mem_cons.mpr ⟨⟨hdot, hup⟩, hdowns⟩⟩

theorem Stacked.foldl {before : List Text} (h : Stacked before) (absolute : Bool)
    {names : List Text} (hnames : ∀ name ∈ names, IsPart name) :
    Stacked (names.foldl (Path.push absolute) before) := by
  induction names generalizing before with
  | nil => exact h
  | cons name names ih =>
    rw [List.forall_mem_cons] at hnames
    exact ih (h.push absolute hnames.1) hnames.2

theorem Stacked.descends {before : List Text} (h : Stacked before) : Descends before.reverse := by
  obtain ⟨downs, ups, rfl, hups, hdowns⟩ := h.split
  exact ⟨ups.reverse, downs.reverse, List.reverse_append, fun name hname =>
    .inr (hups name (List.mem_reverse.mp hname)), fun name hname =>
      hdowns name (List.mem_reverse.mp hname)⟩

/-- **The shortest form** of a path goes up first and down from there. -/
theorem descends_clean (p : Text) : Descends (parts (clean p)) := by
  have hstacked : Stacked ((parts p).foldl (push (isAbsolute p)) []) :=
    Stacked.foldl ⟨by simp, [], [], rfl, by simp, by simp⟩ _ fun name => isPart_of_mem_parts
  have hbody := parts_textJoin fun name hname => hstacked.parts name (List.mem_reverse.mp hname)
  rw [clean]
  split
  · rw [parts_slash_cons, hbody]
    exact hstacked.descends
  split
  · exact ⟨["."], [], by decide, by simp, by simp⟩
  · rw [hbody]
    exact hstacked.descends

theorem descends_join (p q : Text) : Descends (parts (join p q)) := by
  rw [join]
  split
  · exact ⟨[], [], rfl, by simp, by simp⟩
  · exact descends_clean _
  · exact descends_clean _
  · exact descends_clean _

end TinyLang.Path
