import TinyLang.Machine.Run
import TinyLang.Proofs.Program.Loaded

/-!
# The next statement

From any line, `Program.next?` finds the first statement on that line or after it. `Program.Next`
says what that is without counting lines from the end of the program.
-/

namespace TinyLang

/-- The first statement on a line or after it, with its line, if there is one. -/
inductive Program.Next (p : Program) (line : Int) : Option (Nat × Stmt) → Prop
  | absent (h : ∀ n, line ≤ n → p.stmt? n = none) : Next p line none
  | found {n : Nat} {s : Stmt} (hle : line ≤ n) (hs : p.stmt? n = some s)
      (hfirst : ∀ k, line ≤ k → k < n → p.stmt? k = none) : Next p line (some (n, s))

namespace Program

variable {p : Program} {line : Int} {next : Option (Nat × Stmt)}

/-- Lines without a statement may stand before. -/
theorem Next.before {line' : Int} (h : p.Next line' next) (hle : line ≤ line')
    (hnone : ∀ n, line ≤ n → n < line' → p.stmt? n = none) : p.Next line next := by
  cases h with
  | absent h =>
    refine .absent fun n hn => ?_
    by_cases hlt : n < line'
    · exact hnone n hn hlt
    · exact h n (by omega)
  | found hle' hs hfirst =>
    refine .found (by omega) hs fun n hn hlt => ?_
    by_cases hlt' : n < line'
    · exact hnone n hn hlt'
    · exact hfirst n (by omega) hlt

/-- There is one next statement only. -/
theorem Next.unique {next' : Option (Nat × Stmt)} (h : p.Next line next) (h' : p.Next line next') :
    next = next' := by
  cases h with
  | absent h =>
    cases h' with
    | absent h' => rfl
    | found hle hs hfirst => simp [h _ hle] at hs
  | @found n s hle hs hfirst =>
    cases h' with
    | absent h' => simp [h' _ hle] at hs
    | @found n' s' hle' hs' hfirst' =>
      have hn : n = n' := by
        rcases Nat.lt_trichotomy n n' with hlt | heq | hlt
        · simp [hfirst' n hle (by omega)] at hs
        · exact heq
        · simp [hfirst n' hle' (by omega)] at hs'
      subst hn
      rw [hs] at hs'
      cases hs'
      rfl

theorem stmt?_eq_none {n : Int} (h : n < 1 ∨ p.size < n) : p.stmt? n = none := by
  rw [Option.eq_none_iff_forall_ne_some]
  intro s hs
  have := stmt?_le_size hs
  omega

theorem firstOfLast_next {left : Nat} (hleft : left ≤ p.size) :
    p.Next (p.size + 1 - left) (p.firstOfLast left) := by
  induction left with
  | zero => exact .absent fun n hn => stmt?_eq_none (by omega)
  | succ left ih =>
    have hidx : p.size - (left + 1) < p.slots.size := by
      unfold Program.size at *
      omega
    have hstmt : p.stmt? (p.size - left : Nat) = p.slots[p.size - (left + 1)].stmt? := by
      have hline : ((p.size - left : Nat) : Int).toNat - 1 = p.size - (left + 1) := by omega
      rw [stmt?, slot?, if_neg (by omega), hline, Array.getElem?_eq_getElem hidx, Option.bind_some]
    rw [firstOfLast, Array.getElem?_eq_getElem hidx]
    rcases hslot : p.slots[p.size - (left + 1)] with ⟨label, _ | s⟩ <;> rw [hslot] at hstmt
    · refine (ih (by omega)).before (by omega) fun n hn hlt => ?_
      have hline : n = (p.size - left : Nat) := by omega
      rw [hline, hstmt]
    · exact .found (by omega) hstmt fun k hk hlt => by omega

/-- **`next?` finds the next statement.** -/
theorem next?_next (p : Program) (line : Int) : p.Next line (p.next? line) := by
  unfold next?
  by_cases hpast : p.size < (max line 1).toNat
  · rw [show p.size + 1 - (max line 1).toNat = 0 by omega]
    exact .absent fun n hn => stmt?_eq_none (by omega)
  · exact (firstOfLast_next (by omega)).before (by omega) fun n hn hlt => stmt?_eq_none (by omega)

theorem stmt?_of_next? {n : Nat} {s : Stmt} (h : p.next? line = some (n, s)) :
    p.stmt? n = some s := by
  have hnext := p.next?_next line
  rw [h] at hnext
  cases hnext with
  | found hle hs hfirst => exact hs

/-- On the line of a statement, the next statement is that one. -/
theorem next?_of_stmt? {n : Nat} {s : Stmt} (h : p.stmt? n = some s) :
    p.next? n = some (n, s) :=
  (p.next?_next n).unique (.found (Int.le_refl _) h fun k hk hlt => by omega)

/-- A program with a statement has a first one. -/
theorem exists_first {s : Stmt} (h : p.stmt? line = some s) :
    ∃ (n : Nat) (first : Stmt), p.stmt? n = some first ∧ ∀ k : Int, k < n → p.stmt? k = none := by
  have hline := (stmt?_le_size h).1
  have hnext := p.next?_next 1
  cases hnone : p.next? 1 with
  | none =>
    rw [hnone] at hnext
    cases hnext with
    | absent hnext =>
      have := hnext line.toNat (by omega)
      rw [Int.toNat_of_nonneg (by omega), h] at this
      cases this
  | some found =>
    obtain ⟨n, first⟩ := found
    rw [hnone] at hnext
    cases hnext with
    | found hle hs hfirst =>
      refine ⟨n, first, hs, fun k hk => ?_⟩
      by_cases hlow : k < 1
      · exact stmt?_eq_none (.inl hlow)
      · have := hfirst k.toNat (by omega) (by omega)
        rwa [Int.toNat_of_nonneg (by omega)] at this

end Program

end TinyLang
