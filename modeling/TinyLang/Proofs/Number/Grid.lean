import TinyLang.Number.Printer
import TinyLang.Proofs.Number.Nearest

/-!
# Decimals that read back

A decimal reads back to a number if it lies between the midpoints to the two neighbouring doubles.
The number itself lies between two points of every decimal grid, the multiples of a power of ten,
and is rounded to the nearer of them.

* `readsBack_iff`: reading back as a condition on a rational number. What reads back is convex
  (`Reads.between`) and holds the number itself (`Reads.self`).
* `IsPower.reads_iff`: at a power of two it reaches half a unit up and a quarter of a unit down.
* `floorAt_spec`, `digitsAt_cases`: the two points of a grid next to a number, and the nearer one.
* `decimalExponent_spec`: the decimal exponent of a number.
* `readsBack_seventeen`: seventeen digits always read back.
-/

namespace TinyLang

/-! ## Counting digits -/

theorem decimalLength_pos (n : Nat) : 0 < decimalLength n := Nat.length_toDigits_pos

theorem decimalLength_spec {n : Nat} (hn : 0 < n) :
    10 ^ (decimalLength n - 1) ≤ n ∧ n < 10 ^ decimalLength n := by
  have hle_iff {k : Nat} (hk : 0 < k) : decimalLength n ≤ k ↔ n < 10 ^ k :=
    Nat.length_toDigits_le_iff (by decide) hk
  refine ⟨?_, (hle_iff (decimalLength_pos n)).1 le_rfl⟩
  rcases Nat.eq_zero_or_pos (decimalLength n - 1) with hone | hmore
  · rw [hone, pow_zero]
    exact hn
  · refine not_lt.1 fun hlt => ?_
    have := (hle_iff hmore).2 hlt
    omega

theorem decimalLength_eq {n p : Nat} (hlow : 10 ^ p ≤ n) (hhigh : n < 10 ^ (p + 1)) :
    decimalLength n = p + 1 := by
  obtain ⟨h1, h2⟩ := decimalLength_spec (lt_of_lt_of_le (Nat.pow_pos (by decide)) hlow)
  have hpos := decimalLength_pos n
  have hle : p < decimalLength n := (Nat.pow_lt_pow_iff_right (by decide)).1 (hlow.trans_lt h2)
  have hge : decimalLength n - 1 < p + 1 :=
    (Nat.pow_lt_pow_iff_right (by decide)).1 (h1.trans_lt hhigh)
  omega

namespace Number

/-! ## Finite numbers other than zero -/

/-- A finite number other than zero. -/
structure Regular (v : Number) : Prop where
  pos : 0 < v.magnitude
  finite : v.magnitude < infinityMagnitude

theorem specialText?_eq_none_iff {v : Number} : v.specialText? = none ↔ v.Regular := by
  unfold specialText? isNaN isInfinite isZero
  constructor
  · intro h
    split_ifs at h with hnan hinf hzero
    simp only [decide_eq_true_eq, beq_iff_eq] at hnan hinf hzero
    exact ⟨by omega, by omega⟩
  · rintro ⟨hpos, hfinite⟩
    have hnan : ¬ infinityMagnitude < v.magnitude := by omega
    have hinf : ¬ v.magnitude = infinityMagnitude := by omega
    have hzero : ¬ v.magnitude = 0 := by omega
    simp [hnan, hinf, hzero]

/-- The absolute value of a finite number. -/
def value (v : Number) : ℚ := magnitudeValue v.magnitude

/-- The distance from a finite number to the next one away from zero. -/
def ulp (v : Number) : ℚ := 2 ^ v.scale

theorem ulp_pos (v : Number) : 0 < v.ulp := two_zpow_pos _

theorem value_eq (v : Number) : v.value = v.significand * v.ulp := by
  rw [value, ← numerator_div_denominator, numerator, denominator, ratio_eq, Nat.cast_ofNat, ulp]

/-- A power of two whose neighbour towards zero is nearer than the other one. -/
def IsPower (v : Number) : Prop := v.magnitude % 2 ^ 52 = 0 ∧ 2 ≤ v.exponentField

/-- Where a magnitude stands on its grid. -/
theorem magnitude_grid (v : Number) :
    v.magnitude = (v.exponentField - 1) * 2 ^ 52 + v.significand ∧ v.significand < 2 ^ 53 ∧
      (v.exponentField - 1 = 0 ∨ 2 ^ 52 ≤ v.significand) ∧
      v.scale = ((v.exponentField - 1 : Nat) : ℤ) - 1074 := by
  unfold significand scale exponentField
  rw [natPow_eq]
  split_ifs <;> omega

theorem midpoint_above (v : Number) : midpoint v.magnitude = v.value + v.ulp / 2 := by
  obtain ⟨hm, hlt, hgrid, hscale⟩ := v.magnitude_grid
  rw [value_eq, ulp, hscale, hm, midpoint_grid hlt hgrid]
  ring

theorem midpoint_below {v : Number} (h : v.Regular) (hpower : ¬ v.IsPower) :
    midpoint (v.magnitude - 1) = v.value - v.ulp / 2 := by
  obtain ⟨hm, hlt, hgrid, hscale⟩ := v.magnitude_grid
  have hpos := h.pos
  have hside : v.exponentField - 1 = 0 ∧ 1 ≤ v.significand ∨ 2 ^ 52 + 1 ≤ v.significand := by
    unfold IsPower at hpower
    omega
  have hpred : v.magnitude - 1 = (v.exponentField - 1) * 2 ^ 52 + (v.significand - 1) := by omega
  rw [value_eq, ulp, hscale, hpred, midpoint_grid (by omega) (by omega), Nat.cast_sub (by omega)]
  push_cast
  ring

theorem IsPower.value_eq {v : Number} (h : v.IsPower) : v.value = 2 ^ 52 * v.ulp := by
  have hsig : v.significand = 2 ^ 52 := by
    have hfield := h.2
    have hmod := h.1
    unfold significand
    rw [natPow_eq, if_neg (by omega), hmod, Nat.zero_add]
  rw [Number.value_eq, hsig]
  push_cast
  rfl

theorem IsPower.midpoint_below {v : Number} (h : v.IsPower) :
    midpoint (v.magnitude - 1) = v.value - v.ulp / 4 := by
  obtain ⟨hmod, hfield⟩ := h
  have hscale := v.magnitude_grid.2.2.2
  have hpred : v.magnitude - 1 = (v.exponentField - 2) * 2 ^ 52 + (2 ^ 53 - 1) := by
    unfold exponentField at hfield ⊢
    rw [natPow_eq] at hfield ⊢
    omega
  have hexp : v.scale = ((v.exponentField - 2 : Nat) : ℤ) - 1074 + 1 := by omega
  rw [IsPower.value_eq ⟨hmod, hfield⟩, ulp, hpred, midpoint_grid (by norm_num) (by norm_num), hexp,
    zpow_add_one₀ (by norm_num)]
  push_cast
  ring

theorem value_lt (v : Number) : v.value < 2 ^ 53 * v.ulp := by
  have hlt : (v.significand : ℚ) < 2 ^ 53 := by exact_mod_cast v.magnitude_grid.2.1
  rw [value_eq]
  exact mul_lt_mul_of_pos_right hlt v.ulp_pos

/-! ## The decimals that read back -/

/-- Whether a rational number is rounded to the absolute value of a number. -/
def Reads (v : Number) (y : ℚ) : Prop :=
  if v.magnitude % 2 = 0 then midpoint (v.magnitude - 1) ≤ y ∧ y ≤ midpoint v.magnitude
  else midpoint (v.magnitude - 1) < y ∧ y < midpoint v.magnitude

theorem magnitude_eq_iff {v : Number} (h : v.Regular) (d : Decimal) :
    d.magnitude = v.magnitude ↔ v.Reads d.value := by
  rw [Decimal.magnitude, nearestMagnitude_eq_iff d.denominator_pos h.finite h.pos,
    d.numerator_div_denominator]
  rfl

theorem readsBack_iff {v : Number} (h : v.Regular) (n : Nat) (k : ℤ) :
    v.readsBack n k ↔ v.Reads (n * 10 ^ k) := by
  rw [readsBack, beq_iff_eq]
  exact magnitude_eq_iff h ⟨false, n, k⟩

theorem Reads.between {v : Number} {a y b : ℚ} (ha : v.Reads a) (hb : v.Reads b) (hay : a ≤ y)
    (hyb : y ≤ b) : v.Reads y := by
  unfold Reads at *
  split_ifs at * with heven
  · exact ⟨ha.1.trans hay, hyb.trans hb.2⟩
  · exact ⟨ha.1.trans_le hay, hyb.trans_lt hb.2⟩

theorem Reads.of_strict {v : Number} {y : ℚ} (hlow : midpoint (v.magnitude - 1) < y)
    (hhigh : y < midpoint v.magnitude) : v.Reads y := by
  unfold Reads
  split_ifs
  · exact ⟨hlow.le, hhigh.le⟩
  · exact ⟨hlow, hhigh⟩

theorem Reads.self {v : Number} (h : v.Regular) : v.Reads v.value := by
  have hlow := midpoint_lt_magnitudeValue (v.magnitude - 1)
  rw [Nat.sub_add_cancel h.pos] at hlow
  exact .of_strict hlow (magnitudeValue_lt_midpoint v.magnitude)

theorem IsPower.reads_iff {v : Number} (h : v.IsPower) {y : ℚ} :
    v.Reads y ↔ v.value - v.ulp / 4 ≤ y ∧ y ≤ v.value + v.ulp / 2 := by
  have heven : v.magnitude % 2 = 0 := by
    have := h.1
    omega
  rw [Reads, if_pos heven, h.midpoint_below, midpoint_above]

/-! ## Rounding to a decimal grid -/

theorem ten_zpow_pos (k : ℤ) : (0 : ℚ) < 10 ^ k := by positivity

theorem onGrid_pos (v : Number) (k : ℤ) : 0 < (v.onGrid k).2 := by
  unfold onGrid
  split_ifs
  · exact Nat.mul_pos v.denominator_pos (Nat.pow_pos (by decide))
  · exact v.denominator_pos

theorem onGrid_ratio (v : Number) (k : ℤ) :
    ((v.onGrid k).1 / (v.onGrid k).2 : ℚ) = v.value / 10 ^ k := by
  rw [value, ← numerator_div_denominator, onGrid]
  split_ifs with hk
  · rw [(div_pow_toNat (by decide) k).1 hk, Nat.cast_ofNat, zpow_neg, ← div_eq_mul_inv]
  · rw [(div_pow_toNat (by decide) k).2 hk, Nat.cast_ofNat, zpow_neg, ← div_eq_mul_inv]

theorem floorAt_spec (v : Number) (k : ℤ) :
    v.floorAt k * 10 ^ k ≤ v.value ∧ v.value < (v.floorAt k + 1) * 10 ^ k := by
  have hpos : (0 : ℚ) < (v.onGrid k).2 := by exact_mod_cast v.onGrid_pos k
  have hratio := v.onGrid_ratio k
  rw [← le_div_iff₀ (ten_zpow_pos k), ← div_lt_iff₀ (ten_zpow_pos k), ← hratio, le_div_iff₀ hpos,
    div_lt_iff₀ hpos]
  unfold floorAt
  constructor
  · exact_mod_cast Nat.div_mul_le_self _ _
  · exact_mod_cast Nat.lt_mul_of_div_lt (Nat.lt_succ_self _) (v.onGrid_pos k)

theorem floorAt_eq {v : Number} {k : ℤ} {n : Nat} (hlow : n * 10 ^ k ≤ v.value)
    (hhigh : v.value < (n + 1) * 10 ^ k) : v.floorAt k = n := by
  obtain ⟨hlow', hhigh'⟩ := v.floorAt_spec k
  have hstep := ten_zpow_pos k
  have h1 : (n : ℚ) < v.floorAt k + 1 := lt_of_mul_lt_mul_right (hlow.trans_lt hhigh') hstep.le
  have h2 : (v.floorAt k : ℚ) < n + 1 := lt_of_mul_lt_mul_right (hlow'.trans_lt hhigh) hstep.le
  have h1' : n < v.floorAt k + 1 := by exact_mod_cast h1
  have h2' : v.floorAt k < n + 1 := by exact_mod_cast h2
  omega

theorem digitsAt_le_iff (v : Number) (k : ℤ) (j : Nat) :
    v.digitsAt k ≤ j ↔
      v.value < (j + 1 / 2) * 10 ^ k ∨ v.value = (j + 1 / 2) * 10 ^ k ∧ j % 2 = 0 :=
  roundDiv_scaled_le_iff (v.onGrid_pos k) (ten_zpow_pos k) (v.onGrid_ratio k)

/-- The rounded value is at most half a step away. -/
theorem digitsAt_bounds (v : Number) (k : ℤ) :
    (v.digitsAt k - 1 / 2) * 10 ^ k ≤ v.value ∧ v.value ≤ (v.digitsAt k + 1 / 2) * 10 ^ k := by
  constructor
  · rcases Nat.eq_zero_or_pos (v.digitsAt k) with hzero | hpos
    · have hfloor := (v.floorAt_spec k).1
      have hstep := ten_zpow_pos k
      have hnonneg : (0 : ℚ) ≤ v.floorAt k * 10 ^ k := by positivity
      rw [hzero, Nat.cast_zero]
      linarith
    · by_contra hlt
      have hle : v.digitsAt k ≤ v.digitsAt k - 1 := by
        rw [digitsAt_le_iff, Nat.cast_sub hpos, Nat.cast_one]
        left
        linarith
      omega
  · have h := (v.digitsAt_le_iff k (v.digitsAt k)).1 le_rfl
    exact h.elim le_of_lt fun h => h.1.le

/-- A multiple less than half a step away is the rounded value. -/
theorem digitsAt_eq {v : Number} {k : ℤ} {t : Nat} (hlow : (t - 1 / 2) * 10 ^ k < v.value)
    (hhigh : v.value < (t + 1 / 2) * 10 ^ k) : v.digitsAt k = t := by
  have hle : v.digitsAt k ≤ t := (v.digitsAt_le_iff k t).2 (.inl hhigh)
  refine hle.antisymm (Nat.le_of_not_lt fun hlt => ?_)
  have hpred : v.digitsAt k ≤ t - 1 := by omega
  rw [digitsAt_le_iff, Nat.cast_sub (by omega), Nat.cast_one] at hpred
  rcases hpred with h | ⟨h, -⟩ <;> linarith

/-- The rounded value is one of the two neighbours, and the nearer one. -/
theorem digitsAt_cases (v : Number) (k : ℤ) :
    v.digitsAt k = v.floorAt k ∧
        v.value - v.floorAt k * 10 ^ k ≤ (v.floorAt k + 1) * 10 ^ k - v.value ∨
      v.digitsAt k = v.floorAt k + 1 ∧
        (v.floorAt k + 1) * 10 ^ k - v.value ≤ v.value - v.floorAt k * 10 ^ k := by
  obtain ⟨hlow, hhigh⟩ := v.floorAt_spec k
  obtain ⟨hlow', hhigh'⟩ := v.digitsAt_bounds k
  have hstep := ten_zpow_pos k
  have hge : v.floorAt k ≤ v.digitsAt k := by
    by_contra hlt
    have hcast : (v.digitsAt k : ℚ) + 1 ≤ v.floorAt k := by exact_mod_cast not_le.1 hlt
    nlinarith
  have hle : v.digitsAt k ≤ v.floorAt k + 1 := by
    by_contra hlt
    have hcast : (v.floorAt k : ℚ) + 1 + 1 ≤ v.digitsAt k := by exact_mod_cast not_le.1 hlt
    nlinarith
  rcases (by omega : v.digitsAt k = v.floorAt k ∨ v.digitsAt k = v.floorAt k + 1) with h | h
  · rw [h] at hhigh'
    exact .inl ⟨h, by linarith⟩
  · rw [h] at hlow'
    push_cast at hlow'
    exact .inr ⟨h, by linarith⟩

theorem digitsAt_floorAt (v : Number) (k : ℤ) :
    v.digitsAt k = v.floorAt k ∨ v.digitsAt k = v.floorAt k + 1 :=
  (v.digitsAt_cases k).imp And.left And.left

/-- A rounded value that ends in zero is the rounded value on the next coarser grid. -/
theorem digitsAt_succ {v : Number} {k : ℤ} {t : Nat} (h : v.digitsAt k = 10 * t) :
    v.digitsAt (k + 1) = t := by
  obtain ⟨hlow, hhigh⟩ := v.digitsAt_bounds k
  have hstep := ten_zpow_pos k
  rw [h] at hlow hhigh
  push_cast at hlow hhigh
  refine digitsAt_eq ?_ ?_ <;> rw [zpow_add_one₀ (by norm_num)] <;> linarith

theorem floorAt_succ (v : Number) (k : ℤ) : v.floorAt (k + 1) = v.floorAt k / 10 := by
  obtain ⟨hlow, hhigh⟩ := v.floorAt_spec k
  obtain ⟨hlow', hhigh'⟩ := v.floorAt_spec (k + 1)
  have hstep := ten_zpow_pos k
  rw [zpow_add_one₀ (by norm_num), mul_comm ((10 : ℚ) ^ k), ← mul_assoc] at hlow' hhigh'
  have h1 : (v.floorAt (k + 1) * 10 : ℚ) < v.floorAt k + 1 :=
    lt_of_mul_lt_mul_right (hlow'.trans_lt hhigh) hstep.le
  have h2 : (v.floorAt k : ℚ) < (v.floorAt (k + 1) + 1) * 10 :=
    lt_of_mul_lt_mul_right (hlow.trans_lt hhigh') hstep.le
  have h1' : v.floorAt (k + 1) * 10 < v.floorAt k + 1 := by exact_mod_cast h1
  have h2' : v.floorAt k < (v.floorAt (k + 1) + 1) * 10 := by exact_mod_cast h2
  omega

/-! ## The decimal exponent -/

theorem smallest_le_value {v : Number} (h : v.Regular) : (10 : ℚ) ^ (-324 : ℤ) ≤ v.value := by
  have hone : magnitudeValue 1 = 2 ^ (-1074 : ℤ) := by
    rw [magnitudeValue, if_pos (by norm_num), Nat.cast_one, one_mul]
  have hpow : (2 : ℚ) ^ (179 * 6 : ℤ) ≤ 10 ^ (54 * 6 : ℤ) := by
    rw [zpow_mul, zpow_mul]
    refine zpow_le_zpow_left₀ (by norm_num) (by positivity) ?_
    norm_num
  calc (10 : ℚ) ^ (-324 : ℤ) ≤ 2 ^ (-1074 : ℤ) := by
        rw [zpow_neg, zpow_neg]
        exact inv_anti₀ (two_zpow_pos _) hpow
      _ ≤ v.value := by
        rw [← hone]
        exact magnitudeValue_strictMono.monotone h.pos

/-- **The decimal exponent** of a number. -/
theorem decimalExponent_spec {v : Number} (h : v.Regular) :
    (10 : ℚ) ^ v.decimalExponent ≤ v.value ∧ v.value < 10 ^ (v.decimalExponent + 1) := by
  have hgrid := v.floorAt_spec (-324)
  have hexp : v.decimalExponent = (decimalLength (v.floorAt (-324)) : ℤ) - 325 := rfl
  have hpos : 0 < v.floorAt (-324) := by
    by_contra hzero
    rw [Nat.eq_zero_of_not_pos hzero, Nat.cast_zero, zero_add, one_mul] at hgrid
    exact absurd (smallest_le_value h) (not_le.2 hgrid.2)
  obtain ⟨hlow, hhigh⟩ := decimalLength_spec hpos
  have hlen := decimalLength_pos (v.floorAt (-324))
  generalize decimalLength (v.floorAt (-324)) = len at hlow hhigh hlen hexp
  generalize v.floorAt (-324) = f at hgrid hlow hhigh
  have hlow' : (10 : ℚ) ^ (len - 1) ≤ f := by exact_mod_cast hlow
  have hhigh' : (f : ℚ) + 1 ≤ 10 ^ len := by exact_mod_cast hhigh
  have hstep := ten_zpow_pos (-324)
  rw [hexp]
  constructor
  · calc (10 : ℚ) ^ ((len : ℤ) - 325) = 10 ^ (len - 1) * 10 ^ (-324 : ℤ) := by
          rw [← zpow_natCast, ← zpow_add₀ (by norm_num), Nat.cast_sub hlen]
          congr 1
          push_cast
          ring
      _ ≤ f * 10 ^ (-324 : ℤ) := mul_le_mul_of_nonneg_right hlow' hstep.le
      _ ≤ v.value := hgrid.1
  · calc v.value < (f + 1) * 10 ^ (-324 : ℤ) := hgrid.2
      _ ≤ 10 ^ len * 10 ^ (-324 : ℤ) := mul_le_mul_of_nonneg_right hhigh' hstep.le
      _ = 10 ^ ((len : ℤ) - 325 + 1) := by
          rw [← zpow_natCast, ← zpow_add₀ (by norm_num)]
          congr 1
          ring

/-- **Seventeen digits always read back.** -/
theorem readsBack_seventeen {v : Number} (h : v.Regular) :
    v.readsBack (v.digitsAt (v.decimalExponent - 16)) (v.decimalExponent - 16) := by
  have hexp := (decimalExponent_spec h).1
  obtain ⟨hlow, hhigh⟩ := v.digitsAt_bounds (v.decimalExponent - 16)
  have hstep : (10 : ℚ) ^ (v.decimalExponent - 16) * 10 ^ 16 ≤ v.value := by
    rwa [← zpow_natCast (10 : ℚ) 16, ← zpow_add₀ (by norm_num), Nat.cast_ofNat, sub_add_cancel]
  have hlt := v.value_lt
  have hulp := v.ulp_pos
  rw [readsBack_iff h]
  generalize (10 : ℚ) ^ (v.decimalExponent - 16) = s at hlow hhigh hstep ⊢
  have hhalf : s < v.ulp := by norm_num at hstep hlt; linarith
  refine Reads.of_strict ?_ ?_
  · by_cases hpower : v.IsPower
    · have hvalue := hpower.value_eq
      rw [hpower.midpoint_below]
      norm_num at hstep hvalue
      linarith
    · rw [midpoint_below h hpower]
      linarith
  · rw [midpoint_above]
    linarith

/-- On the grid with `p` places below the exponent the value has `p + 1` digits. -/
theorem floorAt_length {v : Number} (h : v.Regular) (p : Nat) :
    10 ^ p ≤ v.floorAt (v.decimalExponent - p) ∧
      v.floorAt (v.decimalExponent - p) < 10 ^ (p + 1) := by
  obtain ⟨hlow, hhigh⟩ := decimalExponent_spec h
  obtain ⟨hfloor, hceil⟩ := v.floorAt_spec (v.decimalExponent - p)
  have hstep := ten_zpow_pos (v.decimalExponent - p)
  have hlow' : (10 : ℚ) ^ v.decimalExponent = 10 ^ p * 10 ^ (v.decimalExponent - p) := by
    rw [← zpow_natCast (10 : ℚ) p, ← zpow_add₀ (by norm_num), add_sub_cancel]
  have hhigh' : (10 : ℚ) ^ (v.decimalExponent + 1) =
      10 ^ (p + 1) * 10 ^ (v.decimalExponent - p) := by
    rw [← zpow_natCast (10 : ℚ) (p + 1), ← zpow_add₀ (by norm_num)]
    congr 1
    push_cast
    ring
  rw [hlow'] at hlow
  rw [hhigh'] at hhigh
  constructor
  · have hlt : (10 : ℚ) ^ p < v.floorAt (v.decimalExponent - p) + 1 :=
      lt_of_mul_lt_mul_right (hlow.trans_lt hceil) hstep.le
    have hnat : 10 ^ p < v.floorAt (v.decimalExponent - p) + 1 := by exact_mod_cast hlt
    omega
  · have hlt : (v.floorAt (v.decimalExponent - p) : ℚ) < 10 ^ (p + 1) :=
      lt_of_mul_lt_mul_right (hfloor.trans_lt hhigh) hstep.le
    exact_mod_cast hlt

end Number

end TinyLang
