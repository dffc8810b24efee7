import TinyLang.Native.NumberText
import TinyLang.Proofs.Native.Input
import TinyLang.Proofs.Number.Printer

/-!
# Number text of compiled programs reads back

A compiled program prints a number at one precision after another into a small memory and reads it
back from there, so what it finds depends on the memory being large enough. It is: a finite number
takes at most 25 bytes in either notation. Seventeen digits always read back, so the search ends with
a precision that does.

In fixed notation the number is rounded once more, to a number of places that follows from its rounded
exponent. That gives the digits of the search again. Where rounding carried into a new power of ten
they are those of the next coarser grid, and where a place is added behind the point the decimal was
exact.

* `significant_rounds`: the digits at a precision, and the grid that they are on.
* `reads_succ_iff`: the digits that are tried read back if the rounded decimal does.
* `searchPrecision_spec`: what the search ends with.
* `numberText_eq`: the text of a number is its rounded decimal in one of the two notations.
* `number_text_is_whole_and_exact`: the headline.
-/

namespace TinyLang

open Text (byte)

namespace Number

/-- A finite number other than zero is equal to itself only. -/
theorem equal_iff {v : Number} (h : v.Regular) (w : Number) : w.equal v ↔ w = v := by
  constructor
  · intro heq
    simp only [equal, Bool.and_eq_true, beq_iff_eq] at heq
    have hkey := heq.2
    have hpos := h.pos
    have hsame : w.isNegative = v.isNegative ∧ w.magnitude = v.magnitude := by
      unfold key at hkey
      split_ifs at hkey with hw hv hv
      · exact ⟨hw.trans hv.symm, by omega⟩
      · omega
      · omega
      · exact ⟨(Bool.eq_false_iff.2 hw).trans (Bool.eq_false_iff.2 hv).symm, by omega⟩
    rw [← w.ofMagnitude_magnitude, hsame.1, hsame.2, v.ofMagnitude_magnitude]
  · rintro rfl
    have hnumber : w.isNaN = false := decide_eq_false (Nat.not_lt.2 h.finite.le)
    simp [equal, comparable, hnumber]

/-! ## Lengths -/

theorem length_signText_le (v : Number) : v.signText.length ≤ 1 := by
  unfold signText
  split_ifs <;> decide

theorem length_exponentText_le {e : ℤ} (he : e.natAbs < 10000) : (exponentText e).length ≤ 6 := by
  have hdigits : (Text.ofNat e.natAbs).length ≤ 4 := Text.length_ofNat_le (by decide) he
  have hmark : ("e" : Text).length = 1 := by decide
  have hzero : ("0" : Text).length = 1 := by decide
  have hsign : (if e < 0 then ("-" : Text) else "+").length = 1 := by split_ifs <;> decide
  simp only [exponentText, List.length_append, hmark, hsign]
  split_ifs
  · rw [List.length_append, hzero]
    omega
  · omega

theorem length_scientific_le {n : Nat} (hn : n < 10 ^ 17) {e : ℤ} (he : e.natAbs < 10000) :
    (pointAfterFirst (Text.ofNat n) ++ exponentText e).length ≤ 24 := by
  have hdigits : (Text.ofNat n).length ≤ 17 := Text.length_ofNat_le (by decide) hn
  have hpoint := length_pointAfterFirst_le (Text.ofNat n)
  have hexponent := length_exponentText_le he
  rw [List.length_append]
  omega

/-- Fixed notation, while the exponent of the first digit is from -4 to 15. -/
theorem length_fixedText_le {ds : Text} {k : ℤ} (hlen : ds.length ≤ 17)
    (hlow : -4 ≤ k + ds.length - 1) (hhigh : k + ds.length - 1 < 16) :
    (fixedText ds k).length ≤ 24 := by
  have hpoint : ("." : Text).length = 1 := by decide
  have htail : (".0" : Text).length = 2 := by decide
  have hhead : ("0." : Text).length = 2 := by decide
  unfold fixedText
  split_ifs with hk
  · simp only [List.length_append, List.length_replicate, htail]
    omega
  · dsimp only
    split_ifs with hplaces
    · simp only [List.length_append, List.length_take, List.length_drop, hpoint]
      omega
    · simp only [List.length_append, List.length_replicate, hhead]
      omega

theorem length_decimalText_le {n : Nat} (hn : n < 10 ^ 17) {k : ℤ}
    (he : (firstExponent n k).natAbs < 10000) : (decimalText n k).length ≤ 24 := by
  rw [decimalText_eq]
  split_ifs with hsci
  · exact length_scientific_le hn he
  · rw [wantsScientific_iff, not_not, firstExponent, ← Text.length_ofNat] at hsci
    exact length_fixedText_le (Text.length_ofNat_le (by decide) hn) hsci.1 hsci.2

end Number

namespace Native

open Number

/-! ## Rounding to a precision -/

theorem significant_succ (v : Number) (p : Nat) :
    significant v (p + 1) =
      if v.digitsAt (v.decimalExponent - p) = 10 ^ (p + 1) then (10 ^ p, v.decimalExponent + 1)
      else (v.digitsAt (v.decimalExponent - p), v.decimalExponent) := by
  rw [significant, Nat.add_sub_cancel]
  rfl

/-- A number rounded to `p + 1` digits, by which its exponent may go up. -/
structure Rounds (v : Number) (p n : Nat) (e : ℤ) : Prop extends v.Rounded p n e where
  exponent : e = v.decimalExponent ∨ e = v.decimalExponent + 1

namespace Rounds

variable {v : Number} {p n : Nat} {e : ℤ} (h : Rounds v p n e)
include h

theorem firstExponent_eq : firstExponent n (e - p) = e := by
  rw [firstExponent, decimalLength_eq h.low h.high]
  push_cast
  ring

theorem lt_seventeen (hp : p ≤ 16) : n < 10 ^ 17 :=
  h.high.trans_le (Nat.pow_le_pow_right (by decide) (Nat.succ_le_succ hp))

variable (hv : v.Regular)
include hv

theorem natAbs_lt : e.natAbs < 10000 := by
  have hbounds := decimalExponent_bounds hv
  have hexponent := h.exponent
  omega

theorem natAbs_firstExponent_lt : (firstExponent n (e - p)).natAbs < 10000 := by
  rw [h.firstExponent_eq]
  exact h.natAbs_lt hv

/-- In scientific notation it is a numeral for the rounded decimal. -/
theorem spells : Spells (pointAfterFirst (Text.ofNat n) ++ exponentText e) (n * 10 ^ (e - p)) := by
  have hspells := scientific_spells h.pos ((h.natAbs_firstExponent_lt hv).trans (by decide))
  rwa [h.firstExponent_eq] at hspells

end Rounds

section Significant

variable {v : Number} (h : v.Regular) {p n : Nat} {e : ℤ} (hsig : significant v (p + 1) = (n, e))
include h hsig

/-- **The digits at a precision** are those of the number rounded to its grid. If rounding carries
into a new power of ten, that is the next coarser grid. -/
theorem significant_rounds : Rounds v p n e := by
  obtain ⟨hlow, hhigh⟩ := floorAt_length h p
  have hcases := v.digitsAt_floorAt (v.decimalExponent - p)
  rw [significant_succ] at hsig
  split_ifs at hsig with hcarry <;> obtain ⟨rfl, rfl⟩ := Prod.mk.inj hsig
  · refine ⟨⟨le_rfl, Nat.pow_lt_pow_right (by decide) (Nat.lt_succ_self p), ?_⟩, .inr rfl⟩
    have hcoarse := digitsAt_succ (hcarry.trans (pow_succ' 10 p))
    have hgrid : v.decimalExponent + 1 - p = v.decimalExponent - p + 1 := by ring
    rwa [hgrid]
  · exact ⟨⟨by omega, by omega, rfl⟩, .inl rfl⟩

theorem readsBack_significant : v.readsBack n (e - p) ↔
    v.readsBack (v.digitsAt (v.decimalExponent - p)) (v.decimalExponent - p) := by
  rw [significant_succ] at hsig
  split_ifs at hsig with hcarry <;> obtain ⟨rfl, rfl⟩ := Prod.mk.inj hsig
  · have hgrid : v.decimalExponent + 1 - p = v.decimalExponent - p + 1 := by ring
    rw [hcarry, pow_succ, Nat.mul_comm, readsBack_ten_mul h, hgrid]
  · rfl

end Significant

/-! ## Reading a number text -/

theorem isNumeralByte_spec : ∀ b, Numeral.isNumeralByte b → ¬ isLeadingSpace b ∧ b ≠ byte '(' :=
  Text.forall_byte (by decide +kernel)

/-- **A numeral with the sign of a number is read to its end**, and it is read as that number if the
number is nearest to its value. -/
theorem takeNumber?_spelled {v : Number} (h : v.Regular) {t : Text} {x : ℚ} (ht : Spells t x) :
    ∃ w, takeNumber? (v.signText ++ t) = some (w, []) ∧ (w = v ↔ v.Reads x) := by
  obtain ⟨n, htake, -, hvalue⟩ := ht
  have hsign := v.takeSign_signText htake
  have hbytes : ∀ b ∈ v.signText ++ t, ¬ isLeadingSpace b ∧ b ≠ byte '(' := by
    have hleaves := Numeral.takeSign_leaves (v.signText ++ t)
    rw [hsign] at hleaves
    obtain ⟨s, hs, hall⟩ := hleaves.trans (Numeral.take?_leaves htake)
    rw [List.append_nil] at hs
    exact fun b hb => isNumeralByte_spec b (hall b (hs ▸ hb))
  refine ⟨(n.toDecimal v.isNegative).toNumber, ?_, ?_⟩
  · rw [takeNumber?_eq_some_nil_iff (fun b hb => (hbytes b (List.mem_of_mem_head? hb)).1)
      fun hmem => (hbytes _ hmem).2 rfl, hsign]
    exact .inr (.inr ⟨n, htake, rfl⟩)
  · rw [← hvalue]
    refine Iff.trans ?_ (magnitude_eq_iff h (n.toDecimal v.isNegative))
    constructor
    · intro heq
      rw [← Decimal.magnitude_toNumber, heq]
    · intro heq
      rw [Decimal.toNumber_eq, heq]
      exact v.ofMagnitude_magnitude

/-! ## The digits that are tried -/

section Digits

variable {v : Number} (h : v.Regular) {p : Nat} (hp : p ≤ 16)
include h hp

theorem length_scientificText_lt : (scientificText v (p + 1)).length < digitsSize := by
  rcases hsig : significant v (p + 1) with ⟨n, e⟩
  have hrounds := significant_rounds h hsig
  have hsign := v.length_signText_le
  have hdigits := length_scientific_le (hrounds.lt_seventeen hp) (hrounds.natAbs_lt h)
  simp only [scientificText, hsig, List.length_append, digitsSize] at hdigits ⊢
  omega

/-- Nothing is cut off the digits. -/
theorem digitsText_eq : digitsText v (p + 1) = scientificText v (p + 1) :=
  List.take_of_length_le (Nat.le_pred_of_lt (length_scientificText_lt h hp))

/-- **The digits that are tried read back** if the number rounded to them does. -/
theorem reads_succ_iff : reads v (p + 1) ↔
    v.readsBack (v.digitsAt (v.decimalExponent - p)) (v.decimalExponent - p) := by
  rcases hsig : significant v (p + 1) with ⟨n, e⟩
  have hrounds := significant_rounds h hsig
  obtain ⟨w, hw, hexact⟩ := takeNumber?_spelled h (hrounds.spells h)
  have hvalue : valueOf (digitsText v (p + 1)) = w := by
    rw [digitsText_eq h hp, scientificText, hsig, valueOf, hw]
    rfl
  rw [← readsBack_significant h hsig, readsBack_iff h, ← hexact, reads, hvalue, equal_iff h]

end Digits

/-! ## The search -/

/-- **What the search ends with**: no smaller precision reads back, and this one does unless it is the
last that there is. -/
theorem searchPrecision_spec (v : Number) (more start : Nat) :
    start ≤ searchPrecision v more start ∧ searchPrecision v more start ≤ start + more ∧
      (∀ q, start ≤ q → q < searchPrecision v more start → ¬ reads v q) ∧
      (searchPrecision v more start = start + more ∨ reads v (searchPrecision v more start)) := by
  -- on the number of precisions that are left; each step moves the start by one
  induction more generalizing start with
  | zero => exact ⟨le_rfl, le_rfl, fun q hle hlt => absurd hlt (Nat.not_lt.2 hle), .inl rfl⟩
  | succ more ih =>
    rw [searchPrecision]
    split_ifs with hreads
    · exact ⟨le_rfl, Nat.le_add_right _ _, fun q hle hlt => absurd hlt (Nat.not_lt.2 hle),
        .inr hreads⟩
    · obtain ⟨hstart, hend, hbefore, hfound⟩ := ih (start + 1)
      refine ⟨by omega, by omega, fun q hle hlt => ?_, hfound.imp_left fun h => by omega⟩
      rcases Nat.eq_or_lt_of_le hle with rfl | hmore
      · exact hreads
      · exact hbefore q hmore hlt

theorem precisionOf_spec (v : Number) :
    1 ≤ precisionOf v ∧ precisionOf v ≤ 17 ∧ (∀ q, 1 ≤ q → q < precisionOf v → ¬ reads v q) ∧
      (precisionOf v = 17 ∨ reads v (precisionOf v)) := searchPrecision_spec v 16 1

/-- The least precision whose rounding reads back, or the last one. -/
theorem precisionOf_eq {v : Number} (h : v.Regular) {p : Nat} (hp : p ≤ 16)
    (hbefore : ∀ i < p,
      ¬ v.readsBack (v.digitsAt (v.decimalExponent - i)) (v.decimalExponent - i))
    (hfound : p = 16 ∨ v.readsBack (v.digitsAt (v.decimalExponent - p)) (v.decimalExponent - p)) :
    precisionOf v = p + 1 := by
  obtain ⟨hstart, hend, hbefore', hfound'⟩ := precisionOf_spec v
  obtain ⟨q, hq⟩ : ∃ q, precisionOf v = q + 1 := ⟨precisionOf v - 1, by omega⟩
  rw [hq] at hend hbefore' hfound' ⊢
  congr 1
  refine le_antisymm (not_lt.1 fun hlt => ?_) (not_lt.1 fun hlt => ?_)
  · have hnot := hbefore' (p + 1) (Nat.succ_pos p) (Nat.succ_lt_succ hlt)
    rw [reads_succ_iff h hp] at hnot
    exact hnot (hfound.resolve_left (by omega))
  · have hreads := hfound'.resolve_left (by omega)
    rw [reads_succ_iff h (by omega)] at hreads
    exact hbefore q hlt hreads

/-- **A precision that reads back is found**, with seventeen digits at the latest. -/
theorem exists_written {v : Number} (h : v.Regular) : ∃ p n e, p ≤ 16 ∧ precisionOf v = p + 1 ∧
    significant v (p + 1) = (n, e) ∧ v.Written p n e := by
  obtain ⟨hstart, hend, -, hfound⟩ := precisionOf_spec v
  obtain ⟨p, hp⟩ : ∃ p, precisionOf v = p + 1 := ⟨precisionOf v - 1, by omega⟩
  rcases hsig : significant v (p + 1) with ⟨n, e⟩
  have hrounds := significant_rounds h hsig
  rw [hp] at hend hfound
  have hle : p ≤ 16 := Nat.le_of_succ_le_succ hend
  refine ⟨p, n, e, hle, hp, hsig, hrounds.toRounded, ?_⟩
  rw [readsBack_significant h hsig]
  rcases hfound with hlast | hreads
  · obtain rfl : p = 16 := by omega
    exact readsBack_seventeen h
  · exact (reads_succ_iff h hle).1 hreads

/-! ## Fixed notation -/

/-- A decimal with places after the point is its rounding to that many places. -/
theorem fixedPlaces_of_neg {v : Number} {n places : Nat} (hpos : 0 < places)
    (hdigits : v.digitsAt (-(places : ℤ)) = n) :
    fixedPlaces v places = fixedText (Text.ofNat n) (-(places : ℤ)) := by
  have hneg : ¬ (0 : ℤ) ≤ -(places : ℤ) := by omega
  simp only [fixedPlaces, fixedText, hdigits, if_neg hneg, neg_neg, Int.toNat_natCast]
  generalize Text.ofNat n = ds
  split_ifs with hlt
  · have hzero : places + 1 - ds.length = 0 := by omega
    rw [hzero, List.replicate_zero, List.nil_append]
  · -- the digits are all behind the point, with zeros in front of them
    have hlen : places + 1 - ds.length = (places - ds.length) + 1 := by omega
    rw [hlen, List.replicate_succ, List.cons_append]
    have htake : (Text.byte '0' :: (List.replicate (places - ds.length) (Text.byte '0') ++ ds)).length
        - places = 1 := by
      simp
      omega
    rw [htake]
    rfl

/-- A decimal without places after the point, which is exact. -/
theorem fixedPlaces_of_whole {v : Number} {n j : Nat} (hpos : 0 < n)
    (hvalue : v.value = (n * 10 ^ j : Nat)) :
    fixedPlaces v 1 = fixedText (Text.ofNat n) j := by
  have hdigits : v.digitsAt (-((1 : Nat) : ℤ)) = n * 10 ^ (j + 1) := by
    have hten : (10 : ℚ) ^ (-((1 : Nat) : ℤ)) = 1 / 10 := by norm_num
    refine digitsAt_eq ?_ ?_ <;> rw [hten, hvalue] <;> push_cast <;> rw [pow_succ] <;> linarith
  have hlen : 0 < (Text.ofNat n).length := by
    rw [Text.length_ofNat]
    exact decimalLength_pos n
  simp only [fixedPlaces, fixedText, hdigits, Text.ofNat_mul_pow hpos, if_pos (Int.natCast_nonneg j),
    Int.toNat_natCast]
  generalize Text.ofNat n = ds at hlen
  have hzero : 1 + 1 - (ds ++ List.replicate (j + 1) (Text.byte '0')).length = 0 := by
    simp
    omega
  have hsplit : ds ++ List.replicate (j + 1) (Text.byte '0') =
      (ds ++ List.replicate j (Text.byte '0')) ++ [Text.byte '0'] := by
    rw [List.replicate_succ', List.append_assoc]
  rw [hzero, List.replicate_zero, List.nil_append, hsplit]
  have htake : ((ds ++ List.replicate j (Text.byte '0')) ++ [Text.byte '0']).length - 1 =
      (ds ++ List.replicate j (Text.byte '0')).length := by simp
  rw [htake, List.take_left, List.drop_left, List.append_assoc]
  rfl

/-- Both ways to write a decimal in fixed notation give the same text. -/
theorem fixedPlaces_eq {v : Number} {p n : Nat} {e : ℤ} (h : v.Regular) (hw : v.Written p n e)
    (he : e < 16) :
    fixedPlaces v (max 1 (((p + 1 : Nat) : ℤ) - 1 - e)).toNat = fixedText (Text.ofNat n) (e - p) := by
  rcases lt_or_ge e (p : ℤ) with hlt | hge
  · obtain ⟨places, hplaces⟩ : ∃ places : Nat, (p : ℤ) - e = places := ⟨(p - e).toNat, by omega⟩
    have hexp : e - p = -(places : ℤ) := by omega
    have hmax : (max 1 (((p + 1 : Nat) : ℤ) - 1 - e)).toNat = places := by omega
    rw [hmax, hexp]
    exact fixedPlaces_of_neg (by omega) (hexp ▸ hw.nearest)
  · obtain ⟨j, hj⟩ : ∃ j : Nat, e = p + j := ⟨(e - p).toNat, by omega⟩
    have hexp : e - p = (j : ℤ) := by omega
    have hmax : (max 1 (((p + 1 : Nat) : ℤ) - 1 - e)).toNat = 1 := by omega
    rw [hmax, hexp]
    exact fixedPlaces_of_whole hw.pos (hw.exact h hj he)

/-! ## The text -/

/-- The exponent is split off where it begins. -/
theorem split_exponentText {m : Text} (hm : byte 'e' ∉ m) {e : ℤ} (he : e.natAbs < 100000) :
    mantissaOf (m ++ exponentText e) = m ∧ exponentOf (m ++ exponentText e) = e := by
  have hall : ∀ b ∈ m, (b != byte 'e') = true := fun b hb => bne_iff_ne.2 fun heq => hm (heq ▸ hb)
  have hexponent := Numeral.takeExponent_exponentText he
  obtain ⟨ds, htext, -⟩ := exponentText_eq e
  rw [htext] at hexponent ⊢
  rw [mantissaOf, exponentOf, List.takeWhile_append_of_pos hall, List.dropWhile_append_of_pos hall,
    List.takeWhile_cons_of_neg (by decide), List.dropWhile_cons_of_neg (by decide), hexponent]
  exact ⟨List.append_nil m, rfl⟩

theorem mark_notMem_mantissa (v : Number) (n : Nat) :
    byte 'e' ∉ v.signText ++ pointAfterFirst (Text.ofNat n) := by
  refine List.not_mem_append ?_ fun h => ?_
  · unfold signText
    split_ifs <;> decide
  · rcases mem_pointAfterFirst h with h | h
    · exact absurd h (by decide)
    · exact absurd (Text.isDigit_ofNat _ h) (by decide)

section Text

variable {v : Number} (h : v.Regular) {p n : Nat} {e : ℤ} (hq : precisionOf v = p + 1)
  (hsig : significant v (p + 1) = (n, e))
include h hq hsig

/-- **The whole text of a number** is its rounded decimal with the sign in front of it. -/
theorem wholeText_eq : wholeText v = v.signText ++ decimalText n (e - p) := by
  obtain ⟨p', n', e', hp, hq', hsig', hw⟩ := exists_written h
  obtain rfl : p' = p := Nat.succ.inj (hq'.symm.trans hq)
  obtain ⟨rfl, rfl⟩ := Prod.mk.inj (hsig'.symm.trans hsig)
  have hrounds := significant_rounds h hsig
  have hdigits : digitsText v (p' + 1) =
      (v.signText ++ pointAfterFirst (Text.ofNat n')) ++ exponentText e' := by
    rw [digitsText_eq h hp, scientificText, hsig, List.append_assoc]
  obtain ⟨hmantissa, hexponent⟩ :=
    split_exponentText (mark_notMem_mantissa v n') ((hrounds.natAbs_lt h).trans (by decide))
  simp only [wholeText, specialText?_eq_none_iff.2 h, hq, hdigits, hmantissa, hexponent,
    decimalText_eq, hrounds.firstExponent_eq]
  -- scientific notation keeps the digits of the search, fixed notation rounds the number again
  by_cases hsci : wantsScientific e'
  · rw [if_pos hsci, if_pos hsci, List.append_assoc]
  · rw [if_neg hsci, if_neg hsci]
    rw [wantsScientific_iff, not_not] at hsci
    rw [fixedPlaces_eq h hw hsci.2]

theorem length_wholeText_lt : (wholeText v).length < textSize := by
  have hrounds := significant_rounds h hsig
  have hp : p ≤ 16 := by
    have := (precisionOf_spec v).2.1
    omega
  have hsign := v.length_signText_le
  have hdigits := length_decimalText_le (hrounds.lt_seventeen hp) (hrounds.natAbs_firstExponent_lt h)
  rw [wholeText_eq h hq hsig, List.length_append, textSize]
  omega

/-- **The text of a number**, by the digits and the exponent that the search ends with. Nothing is
cut off it. -/
theorem numberText_eq : numberText v = v.signText ++ decimalText n (e - p) := by
  rw [← wholeText_eq h hq hsig]
  exact List.take_of_length_le (Nat.le_pred_of_lt (length_wholeText_lt h hq hsig))

end Text

/-! ## The headline -/

/-- **The text of a finite number other than zero is whole and exact.** The digits that are tried and
the text itself fit into their memories of 40 and 64 bytes with the zero behind them, so nothing is cut
off. The search ends with the least precision that reads back, which is at most 17. The text is a
decimal in fixed or in scientific notation that the number is nearest to. It is read to its end, and
gives the number again bit by bit. -/
theorem number_text_is_whole_and_exact {v : Number} (h : v.Regular) :
    (∀ precision, 1 ≤ precision → precision ≤ 17 →
      (scientificText v precision).length < 40 ∧
        digitsText v precision = scientificText v precision) ∧
    (wholeText v).length < 64 ∧ numberText v = wholeText v ∧
    1 ≤ precisionOf v ∧ precisionOf v ≤ 17 ∧ reads v (precisionOf v) ∧
    (∀ precision, 1 ≤ precision → precision < precisionOf v → ¬ reads v precision) ∧
    (∃ t x, numberText v = v.signText ++ t ∧ (InFixed t x ∨ InScientific t x) ∧ v.Reads x) ∧
    takeNumber? (numberText v) = some (v, []) := by
  obtain ⟨p, n, e, hp, hq, hsig, hw⟩ := exists_written h
  obtain ⟨hstart, hend, hbefore, -⟩ := precisionOf_spec v
  have hrounds := significant_rounds h hsig
  have htext := numberText_eq h hq hsig
  have hexact : v.Reads (n * 10 ^ (e - p)) := (readsBack_iff h _ _).1 hw.reads
  have hreads : reads v (precisionOf v) := by
    rw [hq, reads_succ_iff h hp, ← readsBack_significant h hsig]
    exact hw.reads
  refine ⟨fun precision hpos hle => ?_, length_wholeText_lt h hq hsig,
    htext.trans (wholeText_eq h hq hsig).symm, hstart, hend, hreads, hbefore, ?_, ?_⟩
  · obtain ⟨i, rfl⟩ := Nat.exists_eq_succ_of_ne_zero (Nat.ne_of_gt hpos)
    have hi : i ≤ 16 := Nat.le_of_succ_le_succ hle
    exact ⟨length_scientificText_lt h hi, digitsText_eq h hi⟩
  · refine ⟨_, _, htext, ?_, hexact⟩
    have hnotation := decimalText_notation hrounds.pos (e - p)
    split_ifs at hnotation
    · exact .inl hnotation
    · exact .inr hnotation
  · obtain ⟨w, hw, hsame⟩ := takeNumber?_spelled h
      (decimalText_spells hrounds.pos ((hrounds.natAbs_firstExponent_lt h).trans (by decide)))
    rw [htext, hw, hsame.2 hexact]

/-- A number just below a power of ten, which one digit is carried to, and a negative power of two
that takes all seventeen digits. -/
theorem number_text_is_whole_and_exact_carried :
    Number.Regular ⟨0x44B52D02C7E14AF6⟩ ∧ Number.Regular ⟨0xBD30000000000000⟩ ∧
      numberText ⟨0x44B52D02C7E14AF6⟩ = ("1e+23" : Text) ∧
      takeNumber? "1e+23" = some (⟨0x44B52D02C7E14AF6⟩, []) ∧
      precisionOf ⟨0xBD30000000000000⟩ = 17 ∧
      numberText ⟨0xBD30000000000000⟩ = ("-5.6843418860808015e-14" : Text) ∧
      takeNumber? "-5.6843418860808015e-14" = some (⟨0xBD30000000000000⟩, []) := by
  have hcarried : Number.Regular ⟨0x44B52D02C7E14AF6⟩ := ⟨by decide, by decide⟩
  have hlong : Number.Regular ⟨0xBD30000000000000⟩ := ⟨by decide, by decide⟩
  have htext : numberText ⟨0x44B52D02C7E14AF6⟩ = ("1e+23" : Text) := by decide +kernel
  have htext' : numberText ⟨0xBD30000000000000⟩ = ("-5.6843418860808015e-14" : Text) := by
    decide +kernel
  obtain ⟨-, -, -, -, -, -, -, -, hread⟩ := number_text_is_whole_and_exact hcarried
  obtain ⟨-, -, -, -, -, -, -, -, hread'⟩ := number_text_is_whole_and_exact hlong
  rw [htext] at hread
  rw [htext'] at hread'
  exact ⟨hcarried, hlong, htext, hread, by decide +kernel, htext', hread'⟩

end Native

end TinyLang
