import TinyLang.Number.Printer
import TinyLang.Proofs.Number.Reader
import TinyLang.Proofs.Number.Shortest
import TinyLang.Proofs.Text.Trim

/-!
# Number text reads back

The text of a number is a numeral for its shortest decimal, so reading it gives the number again.

* `Text.digitsValue_ofNat`, `Numeral.takeExponent_exponentText`: what a natural number and an
  exponent are written as stands for them.
* `InFixed`, `InScientific`: the two notations, described by their bytes. `decimalText_notation`
  says which one a decimal is printed in.
* `decimalText_spells`: a reader takes what is printed for the decimal.
* `text_cases`: the forms of number text, with the words for the infinities and for no number.
* `read_text`: the headline. What is printed for a number reads back to the same bits. What is
  printed for no number reads back to no number (`read_text_nan`).
-/

namespace TinyLang

open Text (byte)

/-! ## Decimal numerals of natural numbers -/

namespace Text

theorem length_ofNat (n : Nat) : (ofNat n).length = decimalLength n := List.length_map _

theorem length_ofNat_le {n k : Nat} (hk : 0 < k) (h : n < 10 ^ k) : (ofNat n).length ≤ k := by
  rw [ofNat, List.length_map]
  exact (Nat.length_toDigits_le_iff (by decide) hk).mpr h

theorem ofNat_mul_ten {n : Nat} (hn : 0 < n) : ofNat (10 * n) = ofNat n ++ [byte '0'] := by
  have h := Nat.toDigits_append_toDigits (b := 10) (n := n) (d := 0) (by decide) hn (by decide)
  rw [Nat.add_zero] at h
  rw [ofNat, ← h, List.map_append]
  rfl

theorem ofNat_mul_pow {n : Nat} (hn : 0 < n) (j : Nat) :
    ofNat (n * 10 ^ j) = ofNat n ++ List.replicate j (byte '0') := by
  induction j with
  | zero => simp
  | succ j ih =>
    have hpos : 0 < n * 10 ^ j := Nat.mul_pos hn (Nat.pow_pos (by decide))
    rw [pow_succ, ← Nat.mul_assoc, Nat.mul_comm _ 10, ofNat_mul_ten hpos, ih, List.append_assoc,
      List.replicate_succ']

/-- A digit of the library and its byte. -/
theorem byte_of_isDigit {c : Char} (h : c.isDigit) :
    isDigit (byte c) ∧ digitValue (byte c) = c.toNat - '0'.toNat := by
  have hle : 48 ≤ c.toNat ∧ c.toNat ≤ 57 := by
    simpa [Char.isDigit, UInt32.le_iff_toNat_le] using h
  have hbyte : (byte c).toNat = c.toNat := by
    rw [byte, Nat.toUInt8, UInt8.toNat_ofNat']
    omega
  constructor
  · simp only [isDigit, Bool.and_eq_true, decide_eq_true_eq, UInt8.le_iff_toNat_le, hbyte]
    exact hle
  · rw [digitValue, hbyte]
    rfl

theorem isDigit_ofNat {n : Nat} : ∀ b ∈ ofNat n, isDigit b := by
  intro b hb
  obtain ⟨c, hc, rfl⟩ := List.mem_map.1 hb
  exact (byte_of_isDigit (Nat.isDigit_of_mem_toDigits (by decide) (by decide) hc)).1

/-- **A natural number is written by its digits.** -/
theorem digitsValue_ofNat (n : Nat) : digitsValue (ofNat n) = n := by
  have hfold : ∀ (cs : List Char) (a : Nat), (∀ c ∈ cs, c.isDigit) →
      (cs.map byte).foldl (fun n d => n * 10 + digitValue d) a = Nat.ofDigitChars 10 cs a := by
    intro cs
    induction cs with
    | nil => exact fun a _ => rfl
    | cons c cs ih =>
      intro a hcs
      rw [List.forall_mem_cons] at hcs
      rw [List.map_cons, List.foldl_cons, ih _ hcs.2, (byte_of_isDigit hcs.1).2,
        Nat.ofDigitChars_cons, Nat.mul_comm]
  rw [digitsValue, ofNat, hfold _ _ fun c hc => Nat.isDigit_of_mem_toDigits (by decide) (by decide) hc]
  exact Nat.ofDigitChars_toDigits (by decide) (by decide)

theorem ofNat_injective : Function.Injective ofNat :=
  Function.LeftInverse.injective digitsValue_ofNat

theorem ofNat_ne_nil (n : Nat) : ofNat n ≠ [] := by
  intro hnil
  have hlen := length_ofNat n
  rw [hnil] at hlen
  exact (decimalLength_pos n).ne hlen

theorem isDigit_zeros (n : Nat) : ∀ b ∈ List.replicate n (byte '0'), isDigit b := by
  intro b hb
  rw [(List.mem_replicate.1 hb).2]
  rfl

theorem digitsValue_replicate (n : Nat) : digitsValue (List.replicate n (byte '0')) = 0 := by
  refine digitsValue_zeros (List.all_eq_true.2 fun b hb => ?_)
  rw [(List.mem_replicate.1 hb).2]
  rfl

end Text

/-! ## Exponents -/

/-- An exponent has a sign and at least two digits. -/
theorem exponentText_eq (e : ℤ) : ∃ ds : Text,
    exponentText e = byte 'e' :: (if e < 0 then byte '-' else byte '+') :: ds ∧ 2 ≤ ds.length ∧
      (∀ b ∈ ds, Text.isDigit b) ∧ Text.digitsValue ds = e.natAbs := by
  have hmark : (if e < 0 then ("-" : Text) else "+") = [if e < 0 then byte '-' else byte '+'] := by
    split_ifs <;> rfl
  have hne := Text.ofNat_ne_nil e.natAbs
  rw [← List.length_pos_iff] at hne
  by_cases hshort : (Text.ofNat e.natAbs).length < 2
  · refine ⟨byte '0' :: Text.ofNat e.natAbs, ?_, ?_, ?_, ?_⟩
    · simp only [exponentText, hmark, if_pos hshort]
      rfl
    · simp only [List.length_cons]
      omega
    · exact List.forall_mem_cons.2 ⟨rfl, Text.isDigit_ofNat⟩
    · rw [Text.digitsValue_cons, Text.digitsValue_ofNat]
      simp [Text.digitValue, byte]
  · refine ⟨Text.ofNat e.natAbs, ?_, by omega, Text.isDigit_ofNat, Text.digitsValue_ofNat _⟩
    simp only [exponentText, hmark, if_neg hshort]
    rfl

namespace Numeral

theorem takeDigits_eq {ds tail : Text} (hds : ∀ b ∈ ds, Text.isDigit b)
    (htail : ∀ b ∈ tail.head?, ¬ Text.isDigit b) : takeDigits (ds ++ tail) = (ds, tail) := by
  unfold takeDigits
  rw [List.takeWhile_append_of_pos hds, List.dropWhile_append_of_pos hds]
  cases tail with
  | nil => simp
  | cons b tail =>
    have hb := htail b rfl
    simp [hb]

theorem takeDigits_all {ds : Text} (hds : ∀ b ∈ ds, Text.isDigit b) : takeDigits ds = (ds, []) := by
  have h : takeDigits (ds ++ []) = (ds, []) := takeDigits_eq hds nofun
  rwa [List.append_nil] at h

/-- The value of an exponent is that of its digits, as long as it is one that makes a difference. -/
theorem exponentValue_eq {ds : Text} (h : Text.digitsValue ds < 100000) :
    exponentValue ds = Text.digitsValue ds := by
  have hfold : ∀ (ds : Text) (a : Nat),
      ds.foldl (fun n d => n * 10 + Text.digitValue d) a < 100000 →
        ds.foldl (fun e d => if e < 10000 then e * 10 + Text.digitValue d else e) a =
          ds.foldl (fun n d => n * 10 + Text.digitValue d) a := by
    intro ds
    induction ds with
    | nil => exact fun a _ => rfl
    | cons d ds ih =>
      intro a ha
      have hle := Text.foldl_digits (a * 10 + Text.digitValue d) ds
      have hpow : 1 ≤ 10 ^ ds.length := Nat.one_le_pow _ _ (by decide)
      rw [List.foldl_cons] at ha ⊢
      have hsmall : a < 10000 := by
        rw [hle] at ha
        nlinarith
      rw [if_pos hsmall]
      exact ih _ ha
  exact hfold ds 0 h

theorem takeExponent_exponentText {e : ℤ} (he : e.natAbs < 100000) :
    takeExponent (exponentText e) = (e, []) := by
  obtain ⟨ds, htext, hlen, hdigits, hvalue⟩ := exponentText_eq e
  have hsign : takeSign ((if e < 0 then byte '-' else byte '+') :: ds) = (decide (e < 0), ds) := by
    by_cases hneg : e < 0
    · simp [takeSign, hneg]
    · have hplus : byte '+' ≠ byte '-' := by decide
      simp [takeSign, hneg, hplus]
  have hds := takeDigits_all hdigits
  have hne : ds.isEmpty = false := by
    cases ds with
    | nil => exact absurd hlen (by decide)
    | cons d ds => rfl
  have hmark : Text.lowerAscii (byte 'e') = byte 'e' := by decide
  have habs : (if decide (e < 0) = true then -(e.natAbs : ℤ) else e.natAbs) = e := by
    split_ifs with hneg
    · have := of_decide_eq_true hneg
      omega
    · have := of_decide_eq_false (Bool.eq_false_iff.2 hneg)
      omega
  rw [htext]
  simp only [takeExponent, hmark, if_true, hsign, hds, hne, exponentValue_eq (hvalue ▸ he), hvalue,
    Bool.false_eq_true, if_false, habs]

/-! ## Both notations -/

theorem take?_fixed {whole fraction : Text} (hne : whole ≠ [])
    (hdigits : ∀ b ∈ whole ++ fraction, Text.isDigit b) :
    take? (whole ++ "." ++ fraction) = some (⟨whole, fraction, 0⟩, []) := by
  rw [List.forall_mem_append] at hdigits
  have hwhole : takeDigits (whole ++ byte '.' :: fraction) = (whole, byte '.' :: fraction) := by
    refine takeDigits_eq hdigits.1 ?_
    rintro _ ⟨⟩
    decide
  have hfraction := takeDigits_all hdigits.2
  have hpoint : whole ++ "." ++ fraction = whole ++ byte '.' :: fraction := by
    rw [List.append_assoc]
    rfl
  rw [hpoint]
  simp only [take?, hwhole, takeFraction, if_true, hfraction]
  simp [hne, takeExponent]

theorem take?_scientific {d : UInt8} {fraction : Text} {e : ℤ} (he : e.natAbs < 100000)
    (hdigits : ∀ b ∈ d :: fraction, Text.isDigit b) :
    take? (pointAfterFirst (d :: fraction) ++ exponentText e) = some (⟨[d], fraction, e⟩, []) := by
  rw [List.forall_mem_cons] at hdigits
  have hexp := takeExponent_exponentText he
  obtain ⟨ds, htext, -⟩ := exponentText_eq e
  have hstop : ∀ b ∈ (exponentText e).head?, ¬ Text.isDigit b := by
    rw [htext]
    rintro _ ⟨⟩
    decide
  have hone : ∀ b ∈ [d], Text.isDigit b := List.forall_mem_singleton.2 hdigits.1
  cases fraction with
  | nil =>
    have hwhole := takeDigits_eq hone hstop
    have hnone : takeFraction (exponentText e) = ([], exponentText e) := by
      have hmark : byte 'e' ≠ byte '.' := by decide
      rw [htext]
      simp [takeFraction, hmark]
    simp only [pointAfterFirst, take?, hwhole, hnone, hexp]
    rfl
  | cons c fraction =>
    have hwhole : takeDigits ([d] ++ byte '.' :: (c :: fraction ++ exponentText e)) =
        ([d], byte '.' :: (c :: fraction ++ exponentText e)) := by
      refine takeDigits_eq hone ?_
      rintro _ ⟨⟩
      decide
    have hfraction := takeDigits_eq hdigits.2 hstop
    have hshape : pointAfterFirst (d :: c :: fraction) ++ exponentText e =
        [d] ++ byte '.' :: (c :: fraction ++ exponentText e) := rfl
    rw [hshape]
    simp only [take?, hwhole, takeFraction, if_true, hfraction, hexp]
    rfl

end Numeral

/-- Fixed notation of a positive decimal: digits on both sides of a point. -/
def InFixed (t : Text) (x : ℚ) : Prop :=
  ∃ whole fraction : Text, t = whole ++ "." ++ fraction ∧ whole ≠ [] ∧ fraction ≠ [] ∧
    (∀ b ∈ whole ++ fraction, Text.isDigit b) ∧
    x = Text.digitsValue (whole ++ fraction) * 10 ^ (-(fraction.length : ℤ))

/-- Scientific notation of a positive decimal: a digit other than zero, a point and more digits if
there are any, and an exponent with its sign and at least two digits. -/
def InScientific (t : Text) (x : ℚ) : Prop :=
  ∃ (d : UInt8) (fraction exponent : Text) (negative : Bool),
    t = d :: (if fraction.isEmpty then [] else byte '.' :: fraction) ++
      byte 'e' :: (if negative then byte '-' else byte '+') :: exponent ∧
    d ≠ byte '0' ∧ 2 ≤ exponent.length ∧ (∀ b ∈ d :: fraction ++ exponent, Text.isDigit b) ∧
    x = Text.digitsValue (d :: fraction) * 10 ^
      ((if negative then -(Text.digitsValue exponent : ℤ) else Text.digitsValue exponent) -
        fraction.length)

/-- The parts of a decimal in fixed notation. -/
theorem fixedText_eq {ds : Text} (hne : ds ≠ []) (hds : ∀ b ∈ ds, Text.isDigit b) (k : ℤ) :
    ∃ whole fraction : Text, fixedText ds k = whole ++ "." ++ fraction ∧ whole ≠ [] ∧
      fraction ≠ [] ∧ (∀ b ∈ whole ++ fraction, Text.isDigit b) ∧
      (Text.digitsValue ds * 10 ^ k : ℚ) =
        Text.digitsValue (whole ++ fraction) * 10 ^ (-(fraction.length : ℤ)) ∧
      (whole.length : ℤ) ≤ max 1 (k + ds.length) := by
  have hlen := List.length_pos_iff.2 hne
  simp only [fixedText]
  split_ifs with hk hplaces
  · -- zeros stand between the digits and the point
    obtain ⟨j, rfl⟩ := Int.eq_ofNat_of_zero_le hk
    refine ⟨ds ++ List.replicate j (byte '0'), "0", ?_, List.append_ne_nil_of_left_ne_nil hne _,
      by decide, ?_, ?_, ?_⟩
    · rw [Int.toNat_natCast, List.append_assoc (ds ++ _)]
      rfl
    · rw [List.forall_mem_append, List.forall_mem_append]
      exact ⟨⟨hds, Text.isDigit_zeros j⟩, List.all_eq_true.1 rfl⟩
    · have hone : ("0" : Text).length = 1 := rfl
      have hzero : Text.digitsValue "0" = 0 := rfl
      rw [Text.digitsValue_append, Text.digitsValue_append, Text.digitsValue_replicate, hone, hzero,
        List.length_replicate]
      push_cast
      rw [zpow_natCast]
      norm_num
      ring
    · rw [List.length_append, List.length_replicate]
      push_cast
      omega
  · -- the point stands among the digits
    obtain ⟨j, rfl⟩ : ∃ j : Nat, k = -j := ⟨(-k).toNat, by omega⟩
    rw [neg_neg, Int.toNat_natCast] at hplaces ⊢
    refine ⟨ds.take (ds.length - j), ds.drop (ds.length - j), rfl, ?_, ?_, ?_, ?_, ?_⟩
    · rw [← List.length_pos_iff, List.length_take]
      omega
    · rw [← List.length_pos_iff, List.length_drop]
      omega
    · rwa [List.take_append_drop]
    · rw [List.take_append_drop, List.length_drop]
      congr 2
      omega
    · rw [List.length_take]
      omega
  · -- zeros stand between the point and the digits
    obtain ⟨j, rfl⟩ : ∃ j : Nat, k = -j := ⟨(-k).toNat, by omega⟩
    rw [neg_neg, Int.toNat_natCast] at hplaces ⊢
    refine ⟨"0", List.replicate (j - ds.length) (byte '0') ++ ds, by rw [← List.append_assoc]; rfl,
      by decide, List.append_ne_nil_of_right_ne_nil _ hne, ?_, ?_, ?_⟩
    · rw [List.forall_mem_append, List.forall_mem_append]
      exact ⟨List.all_eq_true.1 rfl, Text.isDigit_zeros _, hds⟩
    · have hzero : Text.digitsValue "0" = 0 := rfl
      rw [Text.digitsValue_append, Text.digitsValue_append, Text.digitsValue_replicate, hzero,
        List.length_append, List.length_replicate, Nat.sub_add_cancel (not_lt.1 hplaces), Nat.zero_mul,
        Nat.zero_mul, Nat.zero_add, Nat.zero_add]
    · exact le_max_left _ _

/-- The first digit of a positive number is not zero. -/
theorem exists_ofNat_cons {n : Nat} (hn : 0 < n) :
    ∃ d fraction, Text.ofNat n = d :: fraction ∧ d ≠ byte '0' := by
  obtain ⟨d, fraction, hcons⟩ := List.exists_cons_of_ne_nil (Text.ofNat_ne_nil n)
  refine ⟨d, fraction, hcons, ?_⟩
  rintro rfl
  have hlen := Text.length_ofNat n
  have hvalue := Text.digitsValue_ofNat n
  have hdigits := Text.isDigit_ofNat (n := n)
  rw [hcons] at hlen hvalue hdigits
  rw [List.length_cons] at hlen
  have hzero : Text.digitValue (byte '0') = 0 := rfl
  rw [Text.digitsValue_cons, hzero, Nat.zero_mul, Nat.zero_add] at hvalue
  have hlt := Text.digitsValue_lt (List.forall_mem_cons.1 hdigits).2
  have hge := (decimalLength_spec hn).1
  rw [← hlen, Nat.add_sub_cancel] at hge
  omega

theorem mem_pointAfterFirst {ds : Text} {b : UInt8} (h : b ∈ pointAfterFirst ds) :
    b = byte '.' ∨ b ∈ ds := by
  unfold pointAfterFirst at h
  split at h
  · simp only [List.mem_cons] at h ⊢
    tauto
  · exact .inr h

theorem length_pointAfterFirst_le (ds : Text) : (pointAfterFirst ds).length ≤ ds.length + 1 := by
  unfold pointAfterFirst
  split
  · exact le_rfl
  · exact Nat.le_succ _

theorem pointAfterFirst_cons (d : UInt8) (fraction : Text) :
    pointAfterFirst (d :: fraction) =
      d :: (if fraction.isEmpty then [] else byte '.' :: fraction) := by
  cases fraction <;> rfl

/-! ## Reading what is printed -/

namespace Number

/-- A reader takes a text for a numeral of a given value, and the digits before its point fit into
the reader's buffer. -/
def Spells (t : Text) (x : ℚ) : Prop :=
  ∃ n, Numeral.take? t = some (n, []) ∧ n.whole.length ≤ bufferedDigits ∧
    (n.toDecimal false).value = x

/-- The exponent of the first digit of a decimal. -/
def firstExponent (n : Nat) (k : ℤ) : ℤ := k + decimalLength n - 1

theorem decimalText_eq (n : Nat) (k : ℤ) :
    decimalText n k =
      if wantsScientific (firstExponent n k) then
        pointAfterFirst (Text.ofNat n) ++ exponentText (firstExponent n k)
      else fixedText (Text.ofNat n) k := by
  rw [decimalText, Text.length_ofNat]
  rfl

theorem wantsScientific_iff {e : ℤ} : wantsScientific e ↔ ¬ (-4 ≤ e ∧ e < 16) := by
  simp only [wantsScientific, Bool.or_eq_true, decide_eq_true_eq]
  omega

theorem scientific_spells {n : Nat} (hn : 0 < n) {k : ℤ} (he : (firstExponent n k).natAbs < 100000) :
    Spells (pointAfterFirst (Text.ofNat n) ++ exponentText (firstExponent n k)) (n * 10 ^ k) := by
  have hvalue := Text.digitsValue_ofNat n
  have hlen := Text.length_ofNat n
  obtain ⟨d, fraction, hcons, -⟩ := exists_ofNat_cons hn
  have hdigits := Text.isDigit_ofNat (n := n)
  rw [hcons] at hdigits hvalue hlen ⊢
  refine ⟨_, Numeral.take?_scientific he hdigits, Nat.le_of_ble_eq_true rfl, ?_⟩
  rw [Decimal.value, Numeral.toDecimal, List.singleton_append, hvalue]
  have hexp : firstExponent n k - (fraction.length : ℤ) = k := by
    rw [firstExponent, ← hlen, List.length_cons]
    push_cast
    ring
  rw [hexp]

/-- **A decimal is printed as a numeral for it.** -/
theorem decimalText_spells {n : Nat} (hn : 0 < n) {k : ℤ} (he : (firstExponent n k).natAbs < 100000) :
    Spells (decimalText n k) (n * 10 ^ k) := by
  have hvalue := Text.digitsValue_ofNat n
  have hlen := Text.length_ofNat n
  rw [decimalText_eq]
  split_ifs with hsci
  · exact scientific_spells hn he
  · obtain ⟨whole, fraction, htext, hwhole, -, hdigits, hsame, hshort⟩ :=
      fixedText_eq (Text.ofNat_ne_nil n) Text.isDigit_ofNat k
    rw [htext]
    refine ⟨_, Numeral.take?_fixed hwhole hdigits, ?_, ?_⟩
    · rw [wantsScientific_iff, not_not, firstExponent, ← hlen] at hsci
      unfold bufferedDigits
      simp only
      omega
    · rw [hvalue] at hsame
      rw [hsame, Decimal.value, Numeral.toDecimal, zero_sub]

/-- **The notation of a decimal** is fixed while the exponent of its first digit is from -4 to 15,
and scientific otherwise. -/
theorem decimalText_notation {n : Nat} (hn : 0 < n) (k : ℤ) :
    if -4 ≤ firstExponent n k ∧ firstExponent n k < 16 then InFixed (decimalText n k) (n * 10 ^ k)
    else InScientific (decimalText n k) (n * 10 ^ k) := by
  have hvalue := Text.digitsValue_ofNat n
  have hlen := Text.length_ofNat n
  rw [decimalText_eq]
  split_ifs with hfixed hsci hsci
  · exact absurd hfixed (wantsScientific_iff.1 hsci)
  · obtain ⟨whole, fraction, htext, hwhole, hfraction, hdigits, hsame, -⟩ :=
      fixedText_eq (Text.ofNat_ne_nil n) Text.isDigit_ofNat k
    rw [hvalue] at hsame
    exact ⟨whole, fraction, htext, hwhole, hfraction, hdigits, hsame⟩
  · obtain ⟨d, fraction, hcons, hd⟩ := exists_ofNat_cons hn
    have hdigits := Text.isDigit_ofNat (n := n)
    rw [hcons] at hdigits hvalue hlen ⊢
    obtain ⟨exponent, htext, htwo, hexponent, habs⟩ := exponentText_eq (firstExponent n k)
    refine ⟨d, fraction, exponent, decide (firstExponent n k < 0), ?_, hd, htwo,
      List.forall_mem_append.2 ⟨hdigits, hexponent⟩, ?_⟩
    · rw [pointAfterFirst_cons, htext]
      simp only [decide_eq_true_eq]
    · have hexp : (if decide (firstExponent n k < 0) = true then -(Text.digitsValue exponent : ℤ)
          else Text.digitsValue exponent) - fraction.length = k := by
        rw [habs]
        rw [List.length_cons] at hlen
        unfold firstExponent
        simp only [decide_eq_true_eq]
        split_ifs <;> omega
      rw [hexp, hvalue]
  · exact absurd (wantsScientific_iff.2 hfixed) hsci

theorem ofMagnitude_magnitude (v : Number) : ofMagnitude v.isNegative v.magnitude = v := by
  have hlt := v.bits.toNat_lt
  have hbits : (if v.isNegative then 0x8000000000000000 else 0) + v.magnitude = v.bits.toNat := by
    simp only [isNegative, magnitude, decide_eq_true_eq]
    split_ifs <;> omega
  rw [ofMagnitude, hbits, Nat.toUInt64, UInt64.ofNat_toNat]

/-- The sign of a number is taken off the numeral behind it. -/
theorem takeSign_signText (v : Number) {t r : Text} {n : Numeral} (h : Numeral.take? t = some (n, r)) :
    Numeral.takeSign (v.signText ++ t) = (v.isNegative, t) := by
  unfold signText
  cases v.isNegative with
  | true => rfl
  | false =>
    cases t with
    | nil => rfl
    | cons b t =>
      have hminus : b ≠ byte '-' := by
        rintro rfl
        rw [Numeral.take?_head (by decide) (by decide)] at h
        exact Option.some_ne_none _ h.symm
      have hplus : b ≠ byte '+' := by
        rintro rfl
        rw [Numeral.take?_head (by decide) (by decide)] at h
        exact Option.some_ne_none _ h.symm
      simp [Numeral.takeSign, hminus, hplus, Text.ofString]

/-- **A numeral that a number is nearest to**, with the sign of the number, is read as the number.
-/
theorem readPlain?_spelled {v : Number} {t : Text} {x : ℚ} (ht : Spells t x)
    (hx : ∀ d : Decimal, d.value = x → d.magnitude = v.magnitude) :
    readPlain? (v.signText ++ t) = some v := by
  obtain ⟨n, htake, hfits, hvalue⟩ := ht
  rw [readPlain?_eq_some_iff, v.takeSign_signText htake]
  refine .inr (.inr ⟨n, htake, ?_⟩)
  have hlen : (n.whole.dropWhile isZeroDigit).length ≤ bufferedDigits :=
    (List.dropWhile_sublist _).length_le.trans hfits
  rw [ofNumeral_eq v.isNegative (Numeral.take?_digits htake) hlen, Decimal.toNumber_eq,
    hx (Numeral.toDecimal v.isNegative n) hvalue]
  exact v.ofMagnitude_magnitude.symm

/-! ## The text of a number -/

theorem text_regular {v : Number} (h : v.Regular) :
    v.text = v.signText ++ decimalText v.shortest.1 v.shortest.2 := by
  rw [text, specialText?_eq_none_iff.2 h]

theorem text_zero {v : Number} (h : v.isZero) : v.text = v.signText ++ "0.0" := by
  have hzero : v.magnitude = 0 := beq_iff_eq.1 h
  simp [text, specialText?, isNaN, isInfinite, isZero, hzero, infinityMagnitude]

/-- The forms of number text. -/
theorem text_cases (v : Number) :
    v.isNaN ∧ v.text = "nan" ∨
      v = infinity v.isNegative ∧ v.text = v.signText ++ "inf" ∨
      v = ofMagnitude v.isNegative 0 ∧ v.text = v.signText ++ "0.0" ∨
      v.Regular ∧ v.text = v.signText ++ decimalText v.shortest.1 v.shortest.2 := by
  have hself := v.ofMagnitude_magnitude
  by_cases hregular : v.Regular
  · exact .inr (.inr (.inr ⟨hregular, text_regular hregular⟩))
  · rw [← specialText?_eq_none_iff] at hregular
    unfold text specialText? at *
    split_ifs at hregular ⊢ with hnan hinf hzero
    · exact .inl ⟨hnan, rfl⟩
    · rw [beq_iff_eq.1 hinf] at hself
      exact .inr (.inl ⟨hself.symm, rfl⟩)
    · rw [beq_iff_eq.1 hzero] at hself
      exact .inr (.inr (.inl ⟨hself.symm, rfl⟩))
    · exact absurd rfl hregular

/-- The decimal exponent of a number, and of the decimal that is printed for it. -/
theorem firstExponent_shortest {v : Number} (h : v.Regular) :
    0 < v.shortest.1 ∧ (firstExponent v.shortest.1 v.shortest.2 = v.decimalExponent ∨
      firstExponent v.shortest.1 v.shortest.2 = v.decimalExponent + 1) := by
  obtain ⟨p, hp⟩ := exists_firstAt h
  obtain ⟨n, hn⟩ := Option.ne_none_iff_exists'.1 hp.found
  rcases hp.shortest_cases h hn with ⟨hshort, hlow, hhigh⟩ | ⟨-, -, hshort⟩
  · rw [hshort, firstExponent, decimalLength_eq hlow hhigh]
    refine ⟨lt_of_lt_of_le (Nat.pow_pos (by decide)) hlow, .inl ?_⟩
    push_cast
    ring
  · rw [hshort]
    refine ⟨Nat.one_pos, .inr ?_⟩
    have hone : decimalLength 1 = 1 := rfl
    rw [firstExponent, hone]
    push_cast
    ring

theorem decimalExponent_bounds {v : Number} (h : v.Regular) :
    -324 ≤ v.decimalExponent ∧ v.decimalExponent < 1024 := by
  constructor
  · have hlen := decimalLength_pos (v.floorAt (-324))
    unfold decimalExponent
    omega
  · by_contra hlarge
    have hscale : 53 + v.scale ≤ 1024 := by
      have hfinite := h.finite
      unfold infinityMagnitude at hfinite
      unfold scale exponentField
      rw [natPow_eq]
      omega
    have hlow : (10 : ℚ) ^ (1024 : ℤ) ≤ v.value :=
      (zpow_le_zpow_right₀ (by norm_num) (not_lt.1 hlarge)).trans (decimalExponent_spec h).1
    have hhigh : v.value < (2 : ℚ) ^ (53 + v.scale) := by
      rw [zpow_add₀ (by norm_num)]
      exact_mod_cast v.value_lt
    have hpow : (2 : ℚ) ^ (53 + v.scale) ≤ 10 ^ (1024 : ℤ) :=
      calc (2 : ℚ) ^ (53 + v.scale) ≤ 2 ^ (1024 : ℤ) := zpow_le_zpow_right₀ (by norm_num) hscale
        _ ≤ 10 ^ (1024 : ℤ) := zpow_le_zpow_left₀ (by decide) (by norm_num) (by norm_num)
    exact absurd (hlow.trans_lt hhigh) (not_lt.2 hpow)

/-- **The text of a finite number other than zero** is a numeral for its shortest decimal. -/
theorem shortest_spells {v : Number} (h : v.Regular) :
    Spells (decimalText v.shortest.1 v.shortest.2) (v.shortest.1 * 10 ^ v.shortest.2) := by
  obtain ⟨hpos, hexp⟩ := firstExponent_shortest h
  have hbounds := decimalExponent_bounds h
  exact decimalText_spells hpos (by omega)

/-- The bytes of number text. -/
def isNumberByte (b : UInt8) : Bool := Numeral.isNumeralByte b || b ∈ ("infa" : Text)

theorem isNumberByte_spec : ∀ b : UInt8, isNumberByte b →
    b < 0x80 ∧ ¬ Text.isSpaceByte b ∧ b ≠ byte '\n' ∧ b ≠ byte '_' ∧ Text.lowerAscii b ≠ byte 'x' :=
  Text.forall_byte (by decide +kernel)

theorem isNumberByte_text (v : Number) : ∀ b ∈ v.text, isNumberByte b := by
  have hsign : ∀ b ∈ v.signText, isNumberByte b := by
    unfold signText
    split_ifs <;> exact List.all_eq_true.1 rfl
  rcases v.text_cases with ⟨-, htext⟩ | ⟨-, htext⟩ | ⟨-, htext⟩ | ⟨hregular, htext⟩ <;> rw [htext]
  · exact List.all_eq_true.1 rfl
  · exact List.forall_mem_append.2 ⟨hsign, List.all_eq_true.1 rfl⟩
  · exact List.forall_mem_append.2 ⟨hsign, List.all_eq_true.1 rfl⟩
  · obtain ⟨n, htake, -⟩ := shortest_spells hregular
    obtain ⟨p, hp, hbytes⟩ := Numeral.take?_leaves htake
    rw [List.append_nil] at hp
    subst hp
    refine List.forall_mem_append.2 ⟨hsign, fun b hb => ?_⟩
    rw [isNumberByte, hbytes b hb, Bool.true_or]

theorem read?_eq_some {t : Text} {v : Number} : read? t = some v ↔ read t = .ok v := by
  unfold read?
  cases read t <;> simp [Except.toOption]

theorem read?_text_eq (v : Number) : read? v.text = readPlain? v.text := by
  have hbytes := fun b hb => isNumberByte_spec b (v.isNumberByte_text b hb)
  have hplain : byte '_' ∉ v.text := fun hmem => (hbytes _ hmem).2.2.2.1 rfl
  have hhex : ¬ hasHexMark v.text := by
    intro hhex
    obtain ⟨b, hb, hx⟩ := List.any_eq_true.1 hhex
    exact (hbytes b hb).2.2.2.2 (of_decide_eq_true hx)
  refine Option.ext fun w => ?_
  rw [read?_eq_some_iff hplain]
  exact and_iff_right hhex

/-- **Number text reads back**, bit by bit. -/
theorem read_text {v : Number} (h : ¬ v.isNaN) : read v.text = .ok v := by
  rw [← read?_eq_some, read?_text_eq]
  rcases v.text_cases with ⟨hnan, -⟩ | ⟨hv, htext⟩ | ⟨hv, htext⟩ | ⟨hregular, htext⟩
  · exact absurd hnan h
  · rw [htext, signText]
    cases hneg : v.isNegative <;> rw [hv, hneg] <;> decide +kernel
  · rw [htext, signText]
    cases hneg : v.isNegative <;> rw [hv, hneg] <;> decide +kernel
  · rw [htext]
    refine readPlain?_spelled (shortest_spells hregular) fun d hd => ?_
    rw [magnitude_eq_iff hregular, hd]
    exact (readsBack_iff hregular _ _).1 (shortest_isShortest hregular).reads

/-- What is printed for no number reads back to no number. -/
theorem read_text_nan {v : Number} (h : v.isNaN) : ∃ w, read v.text = .ok w ∧ w.isNaN := by
  have htext : v.text = "nan" := by
    rw [text, specialText?, if_pos h]
  rw [htext]
  exact ⟨nan, by decide +kernel, by decide⟩

end Number

end TinyLang
