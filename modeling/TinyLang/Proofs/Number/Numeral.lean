import TinyLang.Number.Reader
import TinyLang.Proofs.Number.Nearest

/-!
# Numerals and the numbers they stand for

A numeral at the head of a text is the same whatever follows it, as long as that does not go on with
the numeral (`take?_append`). Its value is read from the first nineteen digits, and where these do
not settle it from a buffer; `ofNumeral_eq` says that this finds the nearest double of the numeral
as it is written, if the digits before the point fit into the buffer.

* `digitsValue_append`, `digitsValue_lt`: the value of a sequence of digits.
* `take?_append`, `take?_leaves`, `take?_digits`: what is split off.
* `ofNumeral_eq`: the headline.
-/

namespace TinyLang

/-! ## The value of digits -/

namespace Text

theorem foldl_digits (n : Nat) (t : Text) :
    t.foldl (fun n d => n * 10 + digitValue d) n = n * 10 ^ t.length + digitsValue t := by
  induction t generalizing n with
  | nil => simp [digitsValue]
  | cons d t ih =>
    unfold digitsValue
    rw [List.foldl_cons, List.foldl_cons, ih, ih (0 * 10 + digitValue d), List.length_cons]
    ring

theorem digitsValue_append (s t : Text) :
    digitsValue (s ++ t) = digitsValue s * 10 ^ t.length + digitsValue t := by
  conv_lhs => unfold digitsValue
  rw [List.foldl_append, foldl_digits]
  rfl

theorem digitsValue_cons (d : UInt8) (t : Text) :
    digitsValue (d :: t) = digitValue d * 10 ^ t.length + digitsValue t := by
  have h := digitsValue_append [d] t
  simpa [digitsValue] using h

theorem digitValue_lt {d : UInt8} (hd : isDigit d) : digitValue d < 10 := by
  have h : d.toNat ≤ 57 := by
    have := (Bool.and_eq_true _ _ ▸ hd : _ ∧ _).2
    simpa [byte, UInt8.le_iff_toNat_le] using this
  unfold digitValue
  omega

theorem digitsValue_lt {t : Text} (ht : ∀ b ∈ t, isDigit b) : digitsValue t < 10 ^ t.length := by
  induction t with
  | nil => simp [digitsValue]
  | cons d t ih =>
    rw [List.forall_mem_cons] at ht
    have hd := digitValue_lt ht.1
    have hrest := ih ht.2
    rw [digitsValue_cons, List.length_cons, pow_succ]
    calc digitValue d * 10 ^ t.length + digitsValue t
        < digitValue d * 10 ^ t.length + 10 ^ t.length := by omega
      _ = (digitValue d + 1) * 10 ^ t.length := by ring
      _ ≤ 10 * 10 ^ t.length := Nat.mul_le_mul_right _ hd
      _ = 10 ^ t.length * 10 := Nat.mul_comm _ _

theorem digitsValue_zeros {t : Text} (ht : t.all Number.isZeroDigit) : digitsValue t = 0 := by
  induction t with
  | nil => rfl
  | cons d t ih =>
    rw [List.all_cons, Bool.and_eq_true] at ht
    have hd : d = byte '0' := of_decide_eq_true ht.1
    rw [digitsValue_cons, ih ht.2, hd]
    simp [digitValue, byte]

/-- Leading zeros count for nothing. -/
theorem digitsValue_dropWhile (t : Text) :
    digitsValue (t.dropWhile Number.isZeroDigit) = digitsValue t := by
  conv_rhs => rw [← List.takeWhile_append_dropWhile (p := Number.isZeroDigit) (l := t)]
  rw [digitsValue_append, digitsValue_zeros (List.all_takeWhile), Nat.zero_mul, Nat.zero_add]

end Text

/-! ## A numeral and what follows it -/

namespace Numeral

open Text (byte)

/-- Whether a text does not go on with a numeral in front of it. -/
def Stops (t : Text) : Prop :=
  ∀ b ∈ t.head?, ¬ Text.isDigit b ∧ b ≠ byte '.' ∧ Text.lowerAscii b ≠ byte 'e' ∧
    b ≠ byte '-' ∧ b ≠ byte '+'

theorem takeDigits_append {tail : Text} (htail : Stops tail) (t : Text) :
    takeDigits (t ++ tail) = ((takeDigits t).1, (takeDigits t).2 ++ tail) := by
  unfold takeDigits
  induction t with
  | nil =>
    cases tail with
    | nil => rfl
    | cons b tail =>
      have hb := (htail b rfl).1
      simp [hb]
  | cons b t ih =>
    rw [Prod.mk.injEq] at ih
    by_cases hb : Text.isDigit b
    · simp [hb, ih.1, ih.2]
    · simp [hb]

theorem takeSign_append {tail : Text} (htail : Stops tail) (t : Text) :
    takeSign (t ++ tail) = ((takeSign t).1, (takeSign t).2 ++ tail) := by
  cases t with
  | nil =>
    cases tail with
    | nil => rfl
    | cons b tail =>
      obtain ⟨-, -, -, hminus, hplus⟩ := htail b rfl
      simp [takeSign, hminus, hplus]
  | cons b t =>
    simp only [List.cons_append, takeSign]
    split_ifs <;> rfl

theorem takeFraction_append {tail : Text} (htail : Stops tail) (t : Text) :
    takeFraction (t ++ tail) = ((takeFraction t).1, (takeFraction t).2 ++ tail) := by
  cases t with
  | nil =>
    cases tail with
    | nil => rfl
    | cons b tail =>
      have hpoint := (htail b rfl).2.1
      simp [takeFraction, hpoint]
  | cons b t =>
    simp only [List.cons_append, takeFraction]
    split_ifs
    · exact takeDigits_append htail t
    · rfl

theorem takeExponent_append {tail : Text} (htail : Stops tail) (t : Text) :
    takeExponent (t ++ tail) = ((takeExponent t).1, (takeExponent t).2 ++ tail) := by
  cases t with
  | nil =>
    cases tail with
    | nil => rfl
    | cons b tail =>
      have hmark := (htail b rfl).2.2.1
      simp [takeExponent, hmark]
  | cons b t =>
    simp only [List.cons_append, takeExponent, takeSign_append htail, takeDigits_append htail]
    split_ifs <;> rfl

/-- **What follows a numeral does not matter**, as long as it does not go on with it. -/
theorem take?_append {tail : Text} (htail : Stops tail) (t : Text) :
    take? (t ++ tail) = (take? t).map fun p => (p.1, p.2 ++ tail) := by
  simp only [take?, takeDigits_append htail, takeFraction_append htail, takeExponent_append htail]
  split_ifs <;> rfl

theorem takeDigits_digits (t : Text) : ∀ b ∈ (takeDigits t).1, Text.isDigit b :=
  List.all_eq_true.1 List.all_takeWhile

/-! ### What a numeral is made of -/

/-- The bytes that signed numerals are made of. -/
def isNumeralByte (b : UInt8) : Bool :=
  Text.isDigit b || b == byte '.' || Text.lowerAscii b == byte 'e' || b == byte '-' || b == byte '+'

/-- What is left of a text when bytes of a numeral are taken off its head. -/
def Leaves (t r : Text) : Prop := ∃ p, p ++ r = t ∧ ∀ b ∈ p, isNumeralByte b

theorem Leaves.refl (t : Text) : Leaves t t := ⟨[], rfl, List.forall_mem_nil _⟩

theorem Leaves.cons {b : UInt8} {t r : Text} (hb : isNumeralByte b) (h : Leaves t r) :
    Leaves (b :: t) r := by
  obtain ⟨p, rfl, hp⟩ := h
  exact ⟨b :: p, rfl, List.forall_mem_cons.2 ⟨hb, hp⟩⟩

theorem Leaves.trans {t u r : Text} (h : Leaves t u) (h' : Leaves u r) : Leaves t r := by
  obtain ⟨p, rfl, hp⟩ := h
  obtain ⟨q, rfl, hq⟩ := h'
  exact ⟨p ++ q, List.append_assoc _ _ _, List.forall_mem_append.2 ⟨hp, hq⟩⟩

theorem Leaves.suffix {t r : Text} (h : Leaves t r) : r <:+ t := ⟨h.choose, h.choose_spec.1⟩

theorem takeDigits_leaves (t : Text) : Leaves t (takeDigits t).2 := by
  refine ⟨(takeDigits t).1, List.takeWhile_append_dropWhile, fun b hb => ?_⟩
  have hdigit : Text.isDigit b := takeDigits_digits t b hb
  simp [isNumeralByte, hdigit]

theorem takeSign_leaves (t : Text) : Leaves t (takeSign t).2 := by
  cases t with
  | nil => exact .refl _
  | cons b t =>
    unfold takeSign
    dsimp only
    split_ifs with hminus hplus
    · exact .cons (by simp [isNumeralByte, hminus]) (.refl t)
    · exact .cons (by simp [isNumeralByte, hplus]) (.refl t)
    · exact .refl _

theorem takeFraction_leaves (t : Text) : Leaves t (takeFraction t).2 := by
  cases t with
  | nil => exact .refl _
  | cons b t =>
    unfold takeFraction
    dsimp only
    split_ifs with hpoint
    · exact .cons (by simp [isNumeralByte, hpoint]) (takeDigits_leaves t)
    · exact .refl _

theorem takeExponent_leaves (t : Text) : Leaves t (takeExponent t).2 := by
  cases t with
  | nil => exact .refl _
  | cons b t =>
    unfold takeExponent
    dsimp only
    split
    next hmark =>
      split
      · exact .refl _
      · exact .cons (by simp [isNumeralByte, hmark])
          ((takeSign_leaves t).trans (takeDigits_leaves _))
    · exact .refl _

/-- The parts of a numeral that is split off. -/
theorem take?_eq_some {t r : Text} {n : Numeral} (h : take? t = some (n, r)) :
    n.whole = (takeDigits t).1 ∧ n.fraction = (takeFraction (takeDigits t).2).1 ∧
      r = (takeExponent (takeFraction (takeDigits t).2).2).2 := by
  simp only [take?] at h
  split_ifs at h
  simp only [Option.some.injEq, Prod.mk.injEq] at h
  obtain ⟨rfl, rfl⟩ := h
  exact ⟨rfl, rfl, rfl⟩

theorem take?_leaves {t r : Text} {n : Numeral} (h : take? t = some (n, r)) : Leaves t r := by
  obtain ⟨-, -, rfl⟩ := take?_eq_some h
  exact ((takeDigits_leaves t).trans (takeFraction_leaves _)).trans (takeExponent_leaves _)

theorem takeFraction_digits (t : Text) : ∀ b ∈ (takeFraction t).1, Text.isDigit b := by
  unfold takeFraction
  cases t with
  | nil => exact List.forall_mem_nil _
  | cons b t =>
    dsimp only
    split_ifs
    · exact takeDigits_digits t
    · exact List.forall_mem_nil _

theorem take?_digits {t r : Text} {n : Numeral} (h : take? t = some (n, r)) :
    ∀ b ∈ n.whole ++ n.fraction, Text.isDigit b := by
  obtain ⟨hwhole, hfraction, -⟩ := take?_eq_some h
  rw [hwhole, hfraction, List.forall_mem_append]
  exact ⟨takeDigits_digits t, takeFraction_digits _⟩

end Numeral

/-! ## The number of a numeral -/

namespace Number

/-- The first digits of a numeral bound its value from both sides. -/
theorem leading_bounds {ds : Text} (hds : ∀ b ∈ ds, Text.isDigit b) (k : Nat) (e : ℤ) :
    (Text.digitsValue (ds.take k) : ℚ) * 10 ^ (e + (ds.drop k).length) ≤
        Text.digitsValue ds * 10 ^ e ∧
      (Text.digitsValue ds : ℚ) * 10 ^ e ≤
        (Text.digitsValue (ds.take k) + 1 : Nat) * 10 ^ (e + (ds.drop k).length) := by
  have hsplit := Text.digitsValue_append (ds.take k) (ds.drop k)
  rw [List.take_append_drop] at hsplit
  have hrest : Text.digitsValue (ds.drop k) < 10 ^ (ds.drop k).length :=
    Text.digitsValue_lt fun b hb => hds b (List.mem_of_mem_drop hb)
  have hpos : (0 : ℚ) < 10 ^ e := by positivity
  have hexp : (10 : ℚ) ^ (e + (ds.drop k).length) = 10 ^ (ds.drop k).length * 10 ^ e := by
    rw [zpow_add₀ (by norm_num), zpow_natCast, mul_comm]
  rw [hexp, ← mul_assoc, ← mul_assoc]
  constructor
  · refine mul_le_mul_of_nonneg_right ?_ hpos.le
    have h : Text.digitsValue (ds.take k) * 10 ^ (ds.drop k).length ≤ Text.digitsValue ds := by
      omega
    exact_mod_cast h
  · refine mul_le_mul_of_nonneg_right ?_ hpos.le
    have h : Text.digitsValue ds ≤
        (Text.digitsValue (ds.take k) + 1) * 10 ^ (ds.drop k).length := by
      rw [Nat.add_mul, Nat.one_mul]
      omega
    exact_mod_cast h

/-- A numeral stands for the nearest double of the decimal that it writes, or goes through the
buffer. -/
theorem ofNumeral_cases {n : Numeral} (negative : Bool)
    (hdigits : ∀ b ∈ n.whole ++ n.fraction, Text.isDigit b) :
    ofNumeral negative n = (n.toDecimal negative).toNumber ∨
      ofNumeral negative n = (buffered negative n).toNumber := by
  have hds : ∀ b ∈ (n.whole ++ n.fraction).dropWhile isZeroDigit, Text.isDigit b :=
    fun b hb => hdigits b ((List.dropWhile_sublist _).subset hb)
  have hvalue : (n.toDecimal negative).value =
      Text.digitsValue ((n.whole ++ n.fraction).dropWhile isZeroDigit) *
        10 ^ (n.exponent - n.fraction.length) := by
    rw [Text.digitsValue_dropWhile]
    rfl
  simp only [ofNumeral]
  generalize (n.whole ++ n.fraction).dropWhile isZeroDigit = ds at hds hvalue ⊢
  obtain ⟨hlow, hhigh⟩ := leading_bounds hds leadingDigits (n.exponent - n.fraction.length)
  split_ifs with hzeros hsame
  · -- nothing but zeros is left out
    refine .inl (Decimal.toNumber_congr rfl ?_)
    have hsplit := Text.digitsValue_append (ds.take leadingDigits) (ds.drop leadingDigits)
    rw [List.take_append_drop, Text.digitsValue_zeros hzeros, Nat.add_zero] at hsplit
    rw [hvalue, hsplit, Decimal.value, zpow_add₀ (by norm_num), zpow_natCast]
    push_cast
    ring
  · rw [← hvalue] at hlow hhigh
    exact .inl (Decimal.toNumber_between hsame (d := n.toDecimal negative) rfl hlow hhigh).symm
  · exact .inr rfl

/-- **A numeral stands for the nearest double** of the decimal that it writes, if the digits before
its point fit into the buffer. -/
theorem ofNumeral_eq {n : Numeral} (negative : Bool)
    (hdigits : ∀ b ∈ n.whole ++ n.fraction, Text.isDigit b)
    (hfits : (n.whole.dropWhile isZeroDigit).length ≤ bufferedDigits) :
    ofNumeral negative n = (n.toDecimal negative).toNumber := by
  have hbuffered : buffered negative n = n.toDecimal negative := by
    simp only [buffered, if_pos hfits]
  rcases ofNumeral_cases negative hdigits with h | h
  · exact h
  · rw [h, hbuffered]

end Number

end TinyLang
