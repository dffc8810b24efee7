import Mathlib.Data.List.Induction
import Mathlib.Order.Bounds.Basic
import TinyLang.Proofs.Program.Loaded
import TinyLang.Proofs.Table

/-!
# Tables of labels

What the tables that a program derives from its labels hold, in terms of the lines that carry a label
(`Program.carriers`).

* `Program.labels_find?`: a label means the last line that carries it.
* `Program.redefined_find?`: a label is redefined if two lines carry it, and its lines are listed.
* `Program.Coherent`: the tables agree with the lines, as they do in a program that has been loaded
  (`Program.coherent_of_load`).
-/

namespace TinyLang

/-- The last of numbers that increase is the greatest of them. -/
theorem getLast?_eq_some_iff_isGreatest {ns : List Nat} (h : ns.Pairwise (· < ·)) {n : Nat} :
    ns.getLast? = some n ↔ IsGreatest {k | k ∈ ns} n := by
  cases ns using List.reverseRecOn with
  | nil => exact ⟨nofun, fun h => absurd h.1 List.not_mem_nil⟩
  | append_singleton ks last =>
    have hlast : ∀ k ∈ ks ++ [last], k ≤ last := by
      intro k hk
      rcases List.mem_append.mp hk with hk | hk
      · exact Nat.le_of_lt ((List.pairwise_append.mp h).2.2 k hk last List.mem_cons_self)
      · exact Nat.le_of_eq (List.mem_singleton.mp hk)
    have hmem : last ∈ ks ++ [last] := by simp
    rw [List.getLast?_concat, Option.some.injEq]
    constructor
    · rintro rfl
      exact ⟨hmem, hlast⟩
    · rintro ⟨hn, hle⟩
      exact Nat.le_antisymm (hle hmem) (hlast n hn)

namespace Program

variable {p : Program} {label : Text}

/-- The lines that carry a label. -/
def carriers (p : Program) (label : Text) : Set Nat := {n | p.label? n = some label}

/-! ## Definitions -/

theorem mem_definitions {n : Nat} : (label, n) ∈ p.definitions ↔ n ∈ p.carriers label := by
  unfold definitions
  show _ ↔ p.label? n = some label
  rw [List.mem_filterMap, label?_eq_some]
  constructor
  · rintro ⟨⟨slot, k⟩, hmem, hslot⟩
    obtain ⟨l, hl, ⟨⟩⟩ := Option.map_eq_some_iff.mp hslot
    obtain ⟨hn, hget⟩ := mem_zipIdx.mp hmem
    exact ⟨by omega, slot, hget, hl⟩
  · rintro ⟨hn, slot, hslot, hl⟩
    exact ⟨(slot, n), mem_zipIdx.mpr ⟨by omega, hslot⟩, Option.map_eq_some_iff.mpr ⟨label, hl, rfl⟩⟩

/-- The lines that carry a label, in order. -/
def carrierLines (p : Program) (label : Text) : List Nat := Table.valuesOf p.definitions label

theorem mem_carrierLines {n : Nat} : n ∈ p.carrierLines label ↔ n ∈ p.carriers label :=
  Table.mem_valuesOf.trans mem_definitions

theorem pairwise_carrierLines (p : Program) (label : Text) :
    (p.carrierLines label).Pairwise (· < ·) := by
  have hdefinitions : p.definitions.Pairwise fun a b => a.2 < b.2 := by
    refine List.pairwise_filterMap.mpr (p.pairwise_zipIdx.imp fun hlt => ?_)
    intro a ha b hb
    obtain ⟨_, -, rfl⟩ := Option.map_eq_some_iff.mp ha
    obtain ⟨_, -, rfl⟩ := Option.map_eq_some_iff.mp hb
    exact hlt
  exact List.pairwise_map.mpr (hdefinitions.filter _)

/-! ## The tables -/

/-- **A label means the last line that carries it.** -/
theorem labels_find? {n : Nat} :
    p.labels.find? label = some n ↔ IsGreatest (p.carriers label) n := by
  have hlines : {k | k ∈ p.carrierLines label} = p.carriers label :=
    Set.ext fun _ => mem_carrierLines
  unfold labels
  rw [Table.find?_ofEntries, ← hlines]
  exact getLast?_eq_some_iff_isGreatest (p.pairwise_carrierLines label)

theorem labels_find?_eq_none : p.labels.find? label = none ↔ p.carriers label = ∅ := by
  unfold labels
  rw [Table.find?_ofEntries, List.getLast?_eq_none_iff, List.eq_nil_iff_forall_not_mem,
    Set.eq_empty_iff_forall_notMem]
  exact forall_congr' fun _ => not_congr mem_carrierLines

theorem ordered_redefined (p : Program) : p.redefined.Ordered :=
  (Table.ordered_gather p.definitions).filter _

theorem mem_redefined {lines : List Nat} :
    (label, lines) ∈ p.redefined ↔ lines = p.carrierLines label ∧ 1 < lines.length := by
  unfold redefined
  rw [List.mem_filter, Table.mem_gather, decide_eq_true_eq]
  constructor
  · rintro ⟨⟨rfl, -⟩, hlength⟩
    exact ⟨rfl, hlength⟩
  · rintro ⟨rfl, hlength⟩
    exact ⟨⟨rfl, List.ne_nil_of_length_pos (Nat.lt_of_succ_lt hlength)⟩, hlength⟩

/-- **A label is redefined if more than one line carries it**, and then its lines are listed. -/
theorem redefined_find? {lines : List Nat} :
    p.redefined.find? label = some lines ↔ lines = p.carrierLines label ∧ 1 < lines.length := by
  rw [p.ordered_redefined.find?_eq_some]
  exact mem_redefined

theorem one_lt_length_carrierLines :
    1 < (p.carrierLines label).length ↔ ∃ n ∈ p.carriers label, ∃ k ∈ p.carriers label, n < k := by
  simp only [← mem_carrierLines]
  have hsorted := p.pairwise_carrierLines label
  constructor
  · intro hlength
    have hlt := List.pairwise_iff_getElem.mp hsorted 0 1 (by omega) hlength Nat.zero_lt_one
    exact ⟨_, List.getElem_mem _, _, List.getElem_mem _, hlt⟩
  · rintro ⟨n, hn, k, hk, hlt⟩
    rcases hlines : p.carrierLines label with _ | ⟨a, _ | ⟨b, rest⟩⟩ <;> rw [hlines] at hn hk
    · cases hn
    · rw [List.mem_singleton] at hn hk
      omega
    · exact Nat.succ_lt_succ (Nat.succ_pos _)

/-! ## Coherence -/

/-- The tables of labels agree with the lines, and the lines with themselves. -/
structure Coherent (p : Program) : Prop where
  defined : ∀ label, p.labels.has label = true ↔ ∃ n : Int, p.label? n = some label
  last : ∀ label n, p.labels.find? label = some n ↔ IsGreatest (p.carriers label) n
  redefined : ∀ label, p.redefined.has label = true ↔
    ∃ n ∈ p.carriers label, ∃ k ∈ p.carriers label, n < k
  listed : ∀ label lines, p.redefined.find? label = some lines →
    lines.Pairwise (· < ·) ∧ ∀ n, n ∈ lines ↔ n ∈ p.carriers label
  labelled : ∀ n label, p.label? n = some label → label ≠ [] ∧ ∃ s, p.stmt? n = some s
  line : ∀ n s, p.stmt? n = some s → s.line = n

/-- A label that means no line stands on no line. -/
theorem label?_ne (h : p.labels.find? label = none) (line : Int) : p.label? line ≠ some label := by
  intro hlabel
  have hline : ((line.toNat : Nat) : Int) = line := by
    have := (label?_eq_some.mp hlabel).1
    omega
  have hmem : line.toNat ∈ p.carriers label := by
    show p.label? (line.toNat : Nat) = some label
    rwa [hline]
  rw [labels_find?_eq_none.mp h] at hmem
  exact hmem

/-- A label means a line of the program. -/
theorem labels_bounds {line : Nat} (h : p.labels.find? label = some line) :
    1 ≤ line ∧ line ≤ p.size := by
  obtain ⟨h1, slot, hslot, -⟩ := label?_eq_some.mp (labels_find?.mp h).1
  have := (Array.getElem?_eq_some_iff.mp hslot).1
  unfold size
  omega

/-- **The tables of a loaded program are coherent.** -/
theorem coherent_of_load {name src : Text} (h : load name src = .ok p) : p.Coherent where
  defined label := by
    rw [Table.has, Option.isSome_iff_exists]
    constructor
    · rintro ⟨n, hn⟩
      exact ⟨n, (labels_find?.mp hn).1⟩
    · rintro ⟨n, hn⟩
      rw [← Option.ne_none_iff_exists']
      exact fun hnone => label?_ne hnone n hn
  last _ _ := labels_find?
  redefined label := by
    rw [Table.has, Option.isSome_iff_exists, ← one_lt_length_carrierLines]
    simp only [redefined_find?]
    constructor
    · rintro ⟨_, rfl, hlength⟩
      exact hlength
    · exact fun hlength => ⟨_, rfl, hlength⟩
  listed label lines hlines := by
    obtain ⟨rfl, -⟩ := redefined_find?.mp hlines
    exact ⟨p.pairwise_carrierLines label, fun n => mem_carrierLines⟩
  labelled n label hlabel := by
    obtain ⟨hn, slot, hslot, hl⟩ := label?_eq_some.mp hlabel
    obtain ⟨l, -, -, hread⟩ := load_slot h hslot
    obtain ⟨hne, s, hs⟩ := Slot.ofWords_label hread hl
    exact ⟨hne, s, stmt?_eq_some.mpr ⟨hn, slot, hslot, hs⟩⟩
  line n s hs := (load_stmt? h hs).1

end Program

end TinyLang
