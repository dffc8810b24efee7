import TinyLang.Text.Integer
import TinyLang.Proofs.Except
import TinyLang.Proofs.Number.Printer

/-!
# Integers read back

The decimal numeral of a 64-bit integer is read as that integer.

* `Text.scanNatural_digits`: digits are taken for their value, if that is below two to the power of
  64.
* `Text.readInt64_ofInt`: the headline, for every 64-bit integer.
* `Text.readInt64_nonneg`: without a minus sign no number below zero is read.
-/

namespace TinyLang.Text

theorem baseDigit?_of_isDigit {b : UInt8} (h : isDigit b) : baseDigit? b = some (digitValue b) := by
  simp [baseDigit?, h]

theorem le_foldl_digits (n : Nat) (ds : Text) :
    n ≤ ds.foldl (fun n d => n * 10 + digitValue d) n := by
  induction ds generalizing n with
  | nil => exact Nat.le_refl n
  | cons d ds ih =>
    have := ih (n * 10 + digitValue d)
    rw [List.foldl_cons]
    omega

/-- How a decimal numeral is scanned behind a byte, by the digit that the byte is. -/
def scanBehind (n : Nat) (r : Text) : Option Nat → Except IntegerFault Nat
  | none => .error .malformed
  | some d =>
    if 10 ≤ d then .error .malformed
    else if 2 ^ 64 ≤ n * 10 + d then .error .outOfRange
    else scanNatural 10 false (n * 10 + d) r

theorem scanNatural_cons (n : Nat) (b : UInt8) (r : Text) :
    scanNatural 10 false n (b :: r) = scanBehind n r (baseDigit? b) := rfl

/-- **Digits are taken for their value**, if that is below two to the power of 64. -/
theorem scanNatural_digits {ds : Text} (hds : ∀ b ∈ ds, isDigit b) {n : Nat}
    (h : ds.foldl (fun n d => n * 10 + digitValue d) n < 2 ^ 64) :
    scanNatural 10 false n ds = .ok (ds.foldl (fun n d => n * 10 + digitValue d) n) := by
  induction ds generalizing n with
  | nil => rfl
  | cons d ds ih =>
    obtain ⟨hd, hds⟩ := List.forall_mem_cons.mp hds
    rw [List.foldl_cons] at h ⊢
    -- what is read so far is at most what is read in the end
    have hsofar : ¬ 2 ^ 64 ≤ n * 10 + digitValue d :=
      Nat.not_le_of_lt (Nat.lt_of_le_of_lt (le_foldl_digits _ ds) h)
    have hdigit : ¬ 10 ≤ digitValue d := Nat.not_le_of_lt (digitValue_lt hd)
    rw [scanNatural_cons, baseDigit?_of_isDigit hd, scanBehind, if_neg hdigit, if_neg hsofar]
    exact ih hds h

theorem mem_ofInt {n : Int} {b : UInt8} (h : b ∈ ofInt n) : isDigit b ∨ b = byte '-' ∧ n < 0 := by
  unfold ofInt at h
  split at h
  next hn =>
    rcases List.mem_cons.mp h with rfl | h
    · exact .inr ⟨rfl, hn⟩
    · exact .inl (isDigit_ofNat b h)
  · exact .inl (isDigit_ofNat b h)

theorem takeMinus_ofInt (n : Int) : takeMinus (ofInt n) = (decide (n < 0), ofNat n.natAbs) := by
  unfold ofInt
  split
  next h => simp [takeMinus, h]
  next h =>
    obtain ⟨b, ds, heq⟩ := List.exists_cons_of_ne_nil (ofNat_ne_nil n.natAbs)
    have hb : isDigit b := isDigit_ofNat b (by rw [heq]; exact List.mem_cons_self)
    have hminus : b ≠ byte '-' := by
      rintro rfl
      exact absurd hb (by decide)
    have hplus : b ≠ byte '+' := by
      rintro rfl
      exact absurd hb (by decide)
    simp [heq, takeMinus, hminus, hplus, h]

/-- What a number with or without a minus sign is. -/
def signed (negative : Bool) (n : Nat) : Int := if negative then -n else n

/-- The 64-bit integer that an integer is, if it is in range. -/
def fitting (i : Int) : Except IntegerFault Int64 :=
  if i < Int64.minValue.toInt || Int64.maxValue.toInt < i then .error .outOfRange
  else .ok (Int64.ofInt i)

theorem fitting_eq_ok {i : Int} {n : Int64} : fitting i = .ok n ↔ n.toInt = i := by
  unfold fitting
  simp only [Int64.toInt_minValue, Int64.toInt_maxValue, Bool.or_eq_true, decide_eq_true_eq]
  split
  next hrange =>
    refine ⟨nofun, ?_⟩
    rintro rfl
    have hlow := n.le_toInt
    have hhigh := n.toInt_lt
    omega
  next hrange =>
    rw [Except.ok.injEq]
    constructor
    · rintro rfl
      exact Int64.toInt_ofInt_of_le (by omega) (by omega)
    · rintro rfl
      exact n.ofInt_toInt

theorem readInt64_eq (t : Text) :
    readInt64 false t =
      if (takeMinus t).2 = [] then .error .malformed
      else scanNatural 10 false 0 (takeMinus t).2 >>= fun k => fitting (signed (takeMinus t).1 k) := by
  unfold readInt64 fitting signed
  obtain ⟨negative, body⟩ := takeMinus t
  cases body with
  | nil => rfl
  | cons b body =>
    simp only [List.isEmpty_cons, Bool.false_eq_true, if_false, Bool.false_and, reduceCtorEq]
    cases scanNatural 10 false 0 (b :: body) with
    | error e => rfl
    | ok k =>
      show (if _ then _ else _) = (if _ then _ else _)
      split <;> rfl

/-- **What integers are read**: those that digits stand for, with the sign in front of them. -/
theorem readInt64_eq_ok {t : Text} {n : Int64} :
    readInt64 false t = .ok n ↔
      (takeMinus t).2 ≠ [] ∧ ∃ k, scanNatural 10 false 0 (takeMinus t).2 = .ok k ∧
        n.toInt = signed (takeMinus t).1 k := by
  rw [readInt64_eq]
  split
  next hnil => simp [hnil]
  next hne => simp only [bind_eq_ok, fitting_eq_ok, ne_eq, hne, not_false_eq_true, true_and]

/-- **A 64-bit integer is read back** from its numeral. -/
theorem readInt64_ofInt (n : Int64) : readInt64 false (ofInt n.toInt) = .ok n := by
  have hlow := n.le_toInt
  have hhigh := n.toInt_lt
  have hdigits : (ofNat n.toInt.natAbs).foldl (fun n d => n * 10 + digitValue d) 0 = n.toInt.natAbs :=
    digitsValue_ofNat _
  rw [readInt64_eq_ok, takeMinus_ofInt]
  refine ⟨ofNat_ne_nil _, n.toInt.natAbs, ?_, ?_⟩
  · rw [scanNatural_digits isDigit_ofNat (by omega), hdigits]
  · simp only [signed, decide_eq_true_eq]
    split <;> omega

theorem takeMinus_of_notMem {t : Text} (h : byte '-' ∉ t) : (takeMinus t).1 = false := by
  cases t with
  | nil => rfl
  | cons b t =>
    have hb : b ≠ byte '-' := fun heq => h (by rw [heq]; exact List.mem_cons_self)
    rw [takeMinus, if_neg hb]
    split <;> rfl

/-- Without a minus sign no number below zero is read. -/
theorem readInt64_nonneg {t : Text} {n : Int64} (h : readInt64 false t = .ok n)
    (hminus : byte '-' ∉ t) : 0 ≤ n := by
  obtain ⟨-, k, -, hn⟩ := readInt64_eq_ok.mp h
  rw [takeMinus_of_notMem hminus] at hn
  rw [Int64.le_iff_toInt_le, hn]
  exact Int.natCast_nonneg k

end TinyLang.Text
