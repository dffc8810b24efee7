import TinyLang.Proofs.Native.ReadBack

/-!
# Number text, compiled and interpreted

A compiled program looks for the least precision at which the rounding of a number reads back, and
writes that rounding. The interpreter writes the shortest decimal that reads back. These differ
where the nearer one of the two neighbours on a decimal grid does not read back and the other one
does. That only happens below a power of two, where the next number towards zero is at half the
distance.

* `numberText_eq_text_of_fair`: both texts are the same if the nearer neighbour reads back.
* `isLopsided_of_unfair`: otherwise the number is a power of two whose exponent field is in a list
  of forty-six (`lopsidedFields`). That list is found by computing with all 2047 fields.
* `text_lopsided`, `numberText_lopsided`: at those the interpreter writes sixteen digits, and a
  compiled program seventeen.
* `numberText_eq_text_iff`: the headline. The two texts of a number are the same except at those
  powers.
-/

namespace TinyLang

namespace Native

open Number

theorem length_pointAfterFirst {ds : Text} (h : 2 ≤ ds.length) :
    (pointAfterFirst ds).length = ds.length + 1 := by
  match ds, h with
  | d :: e :: r, _ => rfl

/-! ## Both texts -/

theorem numberText_of_special {v : Number} {t : Text} (h : v.specialText? = some t) :
    numberText v = t := by
  have hsign := v.length_signText_le
  have hshort : t.length ≤ 4 := by
    have hinf : ("inf" : Text).length = 3 := by decide
    have hzero : ("0.0" : Text).length = 3 := by decide
    unfold specialText? at h
    split_ifs at h <;> cases h
    · decide
    · rw [List.length_append, hinf]
      omega
    · rw [List.length_append, hzero]
      omega
  simp only [numberText, wholeText, h]
  exact List.take_of_length_le (hshort.trans (by decide))

/-- **Both texts are the same** if the nearer neighbour reads back on the first grid on which one
does. -/
theorem numberText_eq_text_of_fair {v : Number} (h : v.Regular) {p : Nat} (hp : v.FirstAt p)
    (hfair : v.readsBack (v.digitsAt (v.decimalExponent - p)) (v.decimalExponent - p)) :
    numberText v = v.text := by
  obtain ⟨n, e, hw, hshort, hcases⟩ := hp.shortest_fair h hfair
  have hprecision : precisionOf v = p + 1 :=
    precisionOf_eq h (Nat.le_of_lt_succ hp.lt)
      (fun i hi => digitsAt_not_readsBack (hp.before i hi)) (.inr hfair)
  have hsig : significant v (p + 1) = (n, e) := by
    rw [significant_succ]
    rcases hcases with ⟨hn, rfl⟩ | ⟨hcarry, rfl, rfl⟩
    · rw [if_neg (by have := hw.high; omega), hn]
    · rw [if_pos hcarry]
  rw [text_regular h, hshort, numberText_eq h hprecision hsig]

/-! ## Powers of two

Around a power of two with exponent field `c` the spacing of doubles is `2 ^ (c - 1075)` above it
and half of that below it. Of the decimal grids only one is of the same size, that of `10 ^ gridOf
c`. Everything about it is counted in a common unit of both. -/

/-- The largest `k` for which `10 ^ k` is at most the spacing above the power. -/
def gridOf (c : Nat) : ℤ := ((c : ℤ) - 1075) * 30103 / 100000

/-- The spacing above the power. -/
def unitOf (c : Nat) : Nat := if 1075 ≤ c then 2 ^ (c - 1075) else 10 ^ (-gridOf c).toNat

/-- The step of the grid. -/
def stepOf (c : Nat) : Nat := if 1075 ≤ c then 10 ^ (gridOf c).toNat else 2 ^ (1075 - c)

/-- The power on the grid, rounded down. -/
def floorOf (c : Nat) : Nat := 2 ^ 52 * unitOf c / stepOf c

/-- The distance from the power down to the grid. -/
def belowOf (c : Nat) : Nat := 2 ^ 52 * unitOf c % stepOf c

/-- The grid point below the power is the nearer one and does not read back, the one above it does,
and it has no fewer digits. -/
def IsLopsided (c : Nat) : Prop :=
  unitOf c < 4 * belowOf c ∧
    (2 * belowOf c < stepOf c ∨ 2 * belowOf c = stepOf c ∧ floorOf c % 2 = 0) ∧
    2 * (stepOf c - belowOf c) ≤ unitOf c ∧ (floorOf c + 1) % 10 ≠ 0

instance : DecidablePred IsLopsided := fun _ => inferInstanceAs (Decidable (_ ∧ _))

/-- The exponent fields of the lopsided powers of two. -/
def lopsidedFields : List Nat :=
  [6, 16, 66, 102, 215, 232, 235, 245, 318, 328, 361, 371, 474, 514, 527, 534, 640, 657, 727, 883,
    926, 946, 979, 999, 1112, 1145, 1155, 1195, 1205, 1298, 1328, 1368, 1401, 1421, 1428, 1504, 1557,
    1567, 1577, 1597, 1617, 1733, 1826, 1886, 1919, 1999]

theorem fields_checked : (List.range 2047).all (fun c =>
    stepOf c ≤ unitOf c && unitOf c < 10 * stepOf c &&
      (!decide (IsLopsided c) || lopsidedFields.contains c)) = true := by
  decide +kernel

theorem lopsidedFields_checked : lopsidedFields.all (fun c =>
    IsLopsided c && 10 ^ 15 ≤ floorOf c && floorOf c < 10 ^ 16 &&
      wantsScientific (gridOf c + 15)) = true := by
  decide +kernel

theorem fields_spec {c : Nat} (hc : c < 2047) :
    stepOf c ≤ unitOf c ∧ unitOf c < 10 * stepOf c ∧ (IsLopsided c → c ∈ lopsidedFields) := by
  have h := List.all_eq_true.1 fields_checked c (List.mem_range.2 hc)
  simp only [Bool.and_eq_true, Bool.or_eq_true, Bool.not_eq_true', decide_eq_true_eq,
    decide_eq_false_iff_not, List.contains_iff_mem] at h
  exact ⟨h.1.1, h.1.2, fun hlop => h.2.resolve_left (not_not.2 hlop)⟩

theorem lopsidedFields_spec {c : Nat} (hc : c ∈ lopsidedFields) :
    IsLopsided c ∧ 10 ^ 15 ≤ floorOf c ∧ floorOf c < 10 ^ 16 ∧ wantsScientific (gridOf c + 15) := by
  have h := List.all_eq_true.1 lopsidedFields_checked c hc
  simp only [Bool.and_eq_true, decide_eq_true_eq] at h
  exact ⟨h.1.1.1, h.1.1.2, h.1.2, h.2⟩

/-- The exponent fields of the list are those of numbers. -/
theorem regular_of_field {v : Number} (hpower : v.IsPower) (hfield : v.exponentField ∈ lopsidedFields) :
    v.Regular := by
  have hlt : v.exponentField < 2000 :=
    of_decide_eq_true (List.all_eq_true.1 (by decide : lopsidedFields.all (· < 2000) = true) _ hfield)
  have hge := hpower.2
  unfold exponentField at hlt hge
  rw [natPow_eq] at hlt hge
  refine ⟨by omega, ?_⟩
  unfold infinityMagnitude
  omega

theorem field_lt {v : Number} (h : v.Regular) : v.exponentField < 2047 := by
  have hfinite := h.finite
  unfold infinityMagnitude at hfinite
  unfold exponentField
  rw [natPow_eq]
  omega

theorem exists_unit (c : Nat) : ∃ w : ℚ, 0 < w ∧ (2 : ℚ) ^ ((c : ℤ) - 1075) = unitOf c * w ∧
    (10 : ℚ) ^ gridOf c = stepOf c * w := by
  unfold unitOf stepOf
  split_ifs with hc
  · have hgrid : 0 ≤ gridOf c := by
      unfold gridOf
      omega
    refine ⟨1, one_pos, ?_, ?_⟩
    · have hcast : (c : ℤ) - 1075 = ((c - 1075 : Nat) : ℤ) := by omega
      rw [hcast, zpow_natCast, mul_one]
      push_cast
      rfl
    · rw [mul_one, ← zpow_toNat hgrid]
      push_cast
      rfl
  · have hgrid : 0 ≤ -gridOf c := by
      unfold gridOf
      omega
    have hcast : (c : ℤ) - 1075 = -((1075 - c : Nat) : ℤ) := by omega
    refine ⟨(2 : ℚ) ^ ((c : ℤ) - 1075) * 10 ^ gridOf c, by positivity, ?_, ?_⟩
    · push_cast
      rw [zpow_toNat hgrid, mul_left_comm, ← zpow_add₀ (by norm_num), neg_add_cancel, zpow_zero,
        mul_one]
    · push_cast
      rw [hcast, ← zpow_natCast (2 : ℚ) (1075 - c), ← mul_assoc, ← zpow_add₀ (by norm_num),
        add_neg_cancel, zpow_zero, one_mul]

section Power

variable {v : Number} (h : v.Regular) (hpower : v.IsPower) {c : Nat} (hc : v.exponentField = c)
include h hpower hc

/-- A power of two on its grid, in the common unit. -/
theorem power_grid : ∃ w : ℚ, 0 < w ∧ v.ulp = unitOf c * w ∧ (10 : ℚ) ^ gridOf c = stepOf c * w ∧
    v.value = floorOf c * 10 ^ gridOf c + belowOf c * w ∧ belowOf c < stepOf c := by
  obtain ⟨hstep, hunit, -⟩ := fields_spec (hc ▸ field_lt h)
  obtain ⟨w, hw, hulp, hgrid⟩ := exists_unit c
  have hscale : v.scale = (c : ℤ) - 1075 := by
    have := hpower.2
    unfold scale
    omega
  rw [← hscale] at hulp
  have hdiv : stepOf c * floorOf c + belowOf c = 2 ^ 52 * unitOf c := Nat.div_add_mod _ _
  have hdivq : (stepOf c * floorOf c + belowOf c : ℚ) = 2 ^ 52 * unitOf c := by exact_mod_cast hdiv
  refine ⟨w, hw, hulp, hgrid, ?_, Nat.mod_lt _ (by omega)⟩
  calc v.value = (2 ^ 52 * unitOf c) * w := by rw [hpower.value_eq, ulp, hulp, mul_assoc]
    _ = (stepOf c * floorOf c + belowOf c) * w := by rw [hdivq]
    _ = floorOf c * 10 ^ gridOf c + belowOf c * w := by rw [hgrid]; ring

theorem power_floor : v.floorAt (gridOf c) = floorOf c := by
  obtain ⟨w, hw, -, hgrid, hvalue, hbelow⟩ := power_grid h hpower hc
  have hlt : (belowOf c : ℚ) * w < stepOf c * w :=
    mul_lt_mul_of_pos_right (by exact_mod_cast hbelow) hw
  have hnonneg : (0 : ℚ) ≤ belowOf c * w := by positivity
  refine floorAt_eq ?_ ?_ <;> linarith

/-- The step of the grid is at most the spacing above the power, and more than a tenth of it. -/
theorem power_step : (10 : ℚ) ^ gridOf c ≤ v.ulp ∧ v.ulp < 10 ^ (gridOf c + 1) := by
  obtain ⟨hstep, hunit, -⟩ := fields_spec (hc ▸ field_lt h)
  obtain ⟨w, hw, hulp, hgrid, -, -⟩ := power_grid h hpower hc
  have hstepq : (stepOf c : ℚ) ≤ unitOf c := by exact_mod_cast hstep
  have hunitq : (unitOf c : ℚ) < 10 * stepOf c := by exact_mod_cast hunit
  rw [zpow_add_one₀ (by norm_num), hgrid, hulp, mul_comm _ (10 : ℚ), ← mul_assoc]
  exact ⟨mul_le_mul_of_nonneg_right hstepq hw.le, mul_lt_mul_of_pos_right hunitq hw⟩

/-- The conditions of `IsLopsided` as distances. -/
theorem power_distances :
    (v.ulp / 4 < v.value - floorOf c * 10 ^ gridOf c ↔ unitOf c < 4 * belowOf c) ∧
      (v.digitsAt (gridOf c) ≤ floorOf c ↔
        2 * belowOf c < stepOf c ∨ 2 * belowOf c = stepOf c ∧ floorOf c % 2 = 0) ∧
      ((floorOf c + 1) * 10 ^ gridOf c - v.value ≤ v.ulp / 2 ↔
        2 * (stepOf c - belowOf c) ≤ unitOf c) := by
  obtain ⟨w, hw, hulp, hgrid, hvalue, hbelow⟩ := power_grid h hpower hc
  refine ⟨?_, ?_, ?_⟩
  · have hcast : (unitOf c * w : ℚ) < 4 * belowOf c * w ↔ unitOf c < 4 * belowOf c := by
      rw [mul_lt_mul_iff_left₀ hw]
      exact_mod_cast Iff.rfl
    rw [← hcast, hvalue, hulp]
    constructor <;> intro h <;> linarith
  · have hlt : (2 * belowOf c * w : ℚ) < stepOf c * w ↔ 2 * belowOf c < stepOf c := by
      rw [mul_lt_mul_iff_left₀ hw]
      exact_mod_cast Iff.rfl
    have heq : (2 * belowOf c * w : ℚ) = stepOf c * w ↔ 2 * belowOf c = stepOf c := by
      rw [mul_left_inj' hw.ne']
      exact_mod_cast Iff.rfl
    rw [digitsAt_le_iff, hvalue, ← hlt, ← heq, ← hgrid]
    refine or_congr ?_ (and_congr_left' ?_) <;> constructor <;> intro h <;> linarith
  · have hcast : (2 * ((stepOf c : ℚ) - belowOf c)) * w ≤ unitOf c * w ↔
        2 * (stepOf c - belowOf c) ≤ unitOf c := by
      rw [mul_le_mul_iff_left₀ hw, ← Nat.cast_sub hbelow.le]
      exact_mod_cast Iff.rfl
    rw [← hcast, hvalue, hulp, mul_assoc, sub_mul, ← hgrid]
    constructor <;> intro h <;> linarith

end Power

/-- If the nearer neighbour does not read back on the first grid on which one does, then the number
is a lopsided power of two. -/
theorem isLopsided_of_unfair {v : Number} (h : v.Regular) {p : Nat} (hp : v.FirstAt p)
    (hunfair : ¬ v.readsBack (v.digitsAt (v.decimalExponent - p)) (v.decimalExponent - p)) :
    v.IsPower ∧ IsLopsided v.exponentField := by
  obtain ⟨hpower, heq, hlow, hhigh⟩ := unfair_spec h hp.found hunfair
  have hupper : v.readsBack (v.floorAt (v.decimalExponent - p) + 1) (v.decimalExponent - p) := by
    have hfound := hp.found
    rw [ne_eq, neighbour?_eq_none_iff, ← not_or, not_not, ← heq] at hfound
    rw [← heq]
    exact hfound.resolve_left hunfair
  obtain ⟨hstep, hstep'⟩ := power_step h hpower rfl
  have hpos := ten_zpow_pos (v.decimalExponent - p)
  -- the step of the first grid is at most the spacing, and more than half of it
  have hsize : (10 : ℚ) ^ (v.decimalExponent - p) ≤ v.ulp ∧
      v.ulp < 2 * 10 ^ (v.decimalExponent - p) := by
    rcases v.digitsAt_cases (v.decimalExponent - p) with ⟨-, hnear⟩ | ⟨hne, -⟩
    · constructor <;> linarith
    · omega
  have hgrid : v.decimalExponent - p = gridOf v.exponentField := by
    have h1 := hsize.1.trans_lt hstep'
    have h2 : (10 : ℚ) ^ gridOf v.exponentField < 10 ^ (v.decimalExponent - p + 1) := by
      rw [zpow_add_one₀ (by norm_num)]
      linarith
    rw [zpow_lt_zpow_iff_right₀ (by norm_num)] at h1 h2
    omega
  obtain ⟨p, rfl⟩ : ∃ i, p = i + 1 := by
    refine Nat.exists_eq_succ_of_ne_zero fun hzero => ?_
    have hexp := (decimalExponent_spec h).2
    rw [hzero, Nat.cast_zero, sub_zero] at hsize
    rw [hpower.value_eq, zpow_add_one₀ (by norm_num)] at hexp
    norm_num at hexp
    linarith [v.ulp_pos]
  have hmod := hp.mod_ten_ne h hupper (.inr rfl)
  obtain ⟨hbelow, hnear, habove⟩ := power_distances h hpower rfl
  rw [hgrid] at heq hlow hhigh hmod
  rw [power_floor h hpower rfl] at heq hlow hhigh hmod
  exact ⟨hpower, hbelow.1 hlow, hnear.1 heq.le, habove.1 hhigh, hmod⟩

/-! ### The texts of a lopsided power -/

section Lopsided

variable {v : Number} (h : v.Regular) (hpower : v.IsPower) {c : Nat} (hc : v.exponentField = c)
include h hpower hc

/-- On the grid of its size only the upper neighbour of a lopsided power reads back. -/
theorem readsBack_lopsided_iff (hlop : IsLopsided c) (n : Nat) :
    v.readsBack n (gridOf c) ↔ n = floorOf c + 1 := by
  obtain ⟨hbelow, hnear, habove⟩ := power_distances h hpower hc
  have hlow := hbelow.2 hlop.1
  have hhigh := habove.2 hlop.2.2.1
  have hfloor := power_floor h hpower hc
  have hhalf : v.value ≤ (floorOf c + 1 / 2) * 10 ^ gridOf c := by
    rcases (v.digitsAt_le_iff _ _).1 (hnear.2 hlop.2.1) with hlt | ⟨heq, -⟩
    · exact hlt.le
    · exact heq.le
  have hstep := ten_zpow_pos (gridOf c)
  have hulp := v.ulp_pos
  rw [readsBack_iff h, hpower.reads_iff]
  constructor
  · rintro ⟨hge, hle⟩
    have h1 : (floorOf c : ℚ) < n := by
      by_contra hlt
      have := mul_le_mul_of_nonneg_right (not_lt.1 hlt) hstep.le
      linarith
    have h2 : (n : ℚ) < floorOf c + 2 := by
      by_contra hlt
      have := mul_le_mul_of_nonneg_right (not_lt.1 hlt) hstep.le
      linarith
    have h1' : floorOf c < n := by exact_mod_cast h1
    have h2' : n < floorOf c + 2 := by exact_mod_cast h2
    omega
  · rintro rfl
    obtain ⟨-, hceil⟩ := v.floorAt_spec (gridOf c)
    rw [hfloor] at hceil
    push_cast
    constructor <;> linarith

theorem digitsAt_lopsided (hlop : IsLopsided c) : v.digitsAt (gridOf c) = floorOf c := by
  have hle := (power_distances h hpower hc).2.1.2 hlop.2.1
  have hcases := v.digitsAt_floorAt (gridOf c)
  rw [power_floor h hpower hc] at hcases
  omega

variable (hfield : c ∈ lopsidedFields)
include hfield

theorem decimalExponent_lopsided : v.decimalExponent = gridOf c + 15 := by
  obtain ⟨-, hlow, hhigh, -⟩ := lopsidedFields_spec hfield
  obtain ⟨hexp, hexp'⟩ := decimalExponent_spec h
  obtain ⟨hfloor, hceil⟩ := v.floorAt_spec (gridOf c)
  rw [power_floor h hpower hc] at hfloor hceil
  have hstep := ten_zpow_pos (gridOf c)
  have hlow' : (10 : ℚ) ^ (gridOf c + 15) ≤ v.value := by
    refine le_trans ?_ hfloor
    rw [zpow_add₀ (by norm_num), mul_comm]
    refine mul_le_mul_of_nonneg_right ?_ hstep.le
    exact_mod_cast hlow
  have hhigh' : v.value < (10 : ℚ) ^ (gridOf c + 16) := by
    refine hceil.trans_le ?_
    rw [zpow_add₀ (by norm_num), mul_comm ((10 : ℚ) ^ gridOf c)]
    refine mul_le_mul_of_nonneg_right ?_ hstep.le
    exact_mod_cast hhigh
  have h1 := hexp.trans_lt hhigh'
  have h2 := hlow'.trans_lt hexp'
  rw [zpow_lt_zpow_iff_right₀ (by norm_num)] at h1 h2
  omega

/-- At a lopsided power of two the first grid is that with sixteen digits: the only decimal on it
that reads back has none of them to spare. -/
theorem firstAt_lopsided : v.FirstAt 15 := by
  obtain ⟨hlop, -⟩ := lopsidedFields_spec hfield
  have hexp := decimalExponent_lopsided h hpower hc hfield
  have hreads := readsBack_lopsided_iff h hpower hc hlop
  refine ⟨by decide, fun i hi => ?_, ?_⟩
  · have hcoarse : ∀ n, ¬ v.readsBack n (v.decimalExponent - i) := by
      intro n hn
      obtain ⟨j, hj⟩ : ∃ j : Nat, 15 - i = j + 1 := ⟨14 - i, by omega⟩
      have hgrid : v.decimalExponent - i = gridOf c + (j + 1 : Nat) := by omega
      rw [hgrid, ← readsBack_mul_pow h, hreads, pow_succ, ← Nat.mul_assoc] at hn
      have := hlop.2.2.2
      omega
    exact neighbour?_eq_none_iff.2 ⟨hcoarse _, hcoarse _⟩
  · have hgrid : v.decimalExponent - (15 : Nat) = gridOf c := by omega
    have hfound : v.readsBack (floorOf c + 1) (gridOf c) := (hreads _).2 rfl
    rw [hgrid, ne_eq, neighbour?_eq_none_iff, power_floor h hpower hc]
    exact fun hnone => hnone.2 hfound

/-- Its shortest decimal has sixteen digits. -/
theorem text_lopsided : v.text = v.signText ++
    (pointAfterFirst (Text.ofNat (floorOf c + 1)) ++ exponentText (gridOf c + 15)) ∧
      (Text.ofNat (floorOf c + 1)).length = 16 := by
  obtain ⟨hlop, hlow, hhigh, hsci⟩ := lopsidedFields_spec hfield
  have hexp := decimalExponent_lopsided h hpower hc hfield
  have hreads := readsBack_lopsided_iff h hpower hc hlop
  have hfloor := power_floor h hpower hc
  have hmod := hlop.2.2.2
  have hgrid : v.decimalExponent - (15 : Nat) = gridOf c := by omega
  have hneighbour : v.neighbour? (gridOf c) = some (floorOf c + 1) := by
    rw [← hfloor]
    refine neighbour?_upper ?_ ?_
    · rw [hfloor, hreads]
      omega
    · rw [hfloor, hreads]
  have hshort : v.shortest = (floorOf c + 1, gridOf c) := by
    rw [(firstAt_lopsided h hpower hc hfield).shortest_eq (hgrid.symm ▸ hneighbour), hgrid]
    exact dropZeros_of_ne hmod _ _
  have hlen : (Text.ofNat (floorOf c + 1)).length = 16 := by
    rw [Text.length_ofNat]
    exact decimalLength_eq (p := 15) (by omega) (by omega)
  have hfirst : gridOf c + ((16 : Nat) : ℤ) - 1 = gridOf c + 15 := by omega
  refine ⟨?_, hlen⟩
  simp only [text_regular h, hshort, decimalText, hlen, hfirst, hsci, if_true]

/-- A compiled program writes it with seventeen. -/
theorem numberText_lopsided : ∃ n, numberText v = v.signText ++
    (pointAfterFirst (Text.ofNat n) ++ exponentText (gridOf c + 15)) ∧
      (Text.ofNat n).length = 17 := by
  obtain ⟨hlop, hlow, hhigh, hsci⟩ := lopsidedFields_spec hfield
  have hexp := decimalExponent_lopsided h hpower hc hfield
  have hdigits := digitsAt_lopsided h hpower hc hlop
  have hgrid : v.decimalExponent - (15 : Nat) = gridOf c := by omega
  have hprecision : precisionOf v = 17 := by
    refine precisionOf_eq h le_rfl (fun i hi => ?_) (.inl rfl)
    rcases Nat.lt_or_ge i 15 with hlt | hge
    · exact digitsAt_not_readsBack ((firstAt_lopsided h hpower hc hfield).before i hlt)
    · obtain rfl : i = 15 := by omega
      rw [hgrid, hdigits, readsBack_lopsided_iff h hpower hc hlop]
      omega
  have hcarry : v.digitsAt (v.decimalExponent - (16 : Nat)) ≠ 10 ^ 17 := by
    intro heq
    have hten : (10 : Nat) ^ 17 = 10 * 10 ^ 16 := by norm_num
    have hcoarse := digitsAt_succ (heq.trans hten)
    have hcast : v.decimalExponent - (16 : Nat) + 1 = gridOf c := by omega
    rw [hcast, hdigits] at hcoarse
    omega
  have hsig : significant v 17 = (v.digitsAt (v.decimalExponent - (16 : Nat)), gridOf c + 15) := by
    rw [significant_succ, if_neg hcarry, hexp]
  have hrounds := significant_rounds (p := 16) h hsig
  refine ⟨v.digitsAt (v.decimalExponent - (16 : Nat)), ?_, ?_⟩
  · rw [numberText_eq h hprecision hsig, decimalText_eq, hrounds.firstExponent_eq, if_pos hsci]
  · rw [Text.length_ofNat]
    exact decimalLength_eq hrounds.low hrounds.high

theorem numberText_ne_text_lopsided : numberText v ≠ v.text := by
  obtain ⟨htext, hlen⟩ := text_lopsided h hpower hc hfield
  obtain ⟨n, hnative, hlen'⟩ := numberText_lopsided h hpower hc hfield
  rw [htext, hnative]
  intro heq
  have hpointed := List.append_cancel_right (List.append_cancel_left heq)
  have hlengths := congrArg List.length hpointed
  rw [length_pointAfterFirst (by omega), length_pointAfterFirst (by omega)] at hlengths
  omega

end Lopsided

/-! ## The headline -/

/-- **A compiled program prints a number as the interpreter does**, except for forty-six powers of
two and their opposites. Around these the nearest decimal of sixteen digits lies below the power,
where doubles are twice as dense, and does not read back; the next decimal above it does. -/
theorem numberText_eq_text_iff (v : Number) :
    numberText v = v.text ↔ ¬ (v.IsPower ∧ v.exponentField ∈ lopsidedFields) := by
  constructor
  · rintro heq ⟨hpower, hfield⟩
    exact numberText_ne_text_lopsided (regular_of_field hpower hfield) hpower rfl hfield heq
  · intro hnot
    cases hspecial : v.specialText? with
    | some t => rw [numberText_of_special hspecial, text, hspecial]
    | none =>
      have h := specialText?_eq_none_iff.1 hspecial
      obtain ⟨p, hp⟩ := exists_firstAt h
      refine numberText_eq_text_of_fair h hp ?_
      by_contra hunfair
      obtain ⟨hpower, hlop⟩ := isLopsided_of_unfair h hp hunfair
      exact hnot ⟨hpower, (fields_spec (field_lt h)).2.2 hlop⟩

/-- The power of two with exponent -44 is printed differently. -/
theorem numberText_two_pow_neg_44 :
    numberText ⟨0x3D30000000000000⟩ = ("5.6843418860808015e-14" : Text) ∧
      Number.text ⟨0x3D30000000000000⟩ = ("5.684341886080802e-14" : Text) := by
  decide +kernel

end Native

end TinyLang
