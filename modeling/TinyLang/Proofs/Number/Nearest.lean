import TinyLang.Number.Nearest
import Mathlib.Algebra.Order.Field.Power
import Mathlib.Data.Rat.Cast.Order
import Mathlib.Tactic.FieldSimp
import Mathlib.Tactic.Linarith
import Mathlib.Tactic.Positivity
import Mathlib.Tactic.Ring

/-!
# The nearest double is the nearest double

A magnitude stands for a rational number (`magnitudeValue`), and between two neighbouring magnitudes
lies their `midpoint`. Rounding to the nearest double is the function that crosses from a magnitude
to the next one at the midpoint, and at the midpoint itself stays with the even one.

* `roundDiv_le_iff`: the same for rounding a quotient to an integer.
* `floorLog2_spec`: the binary logarithm of a ratio.
* `nearestMagnitude_le_iff`: the headline. A ratio is rounded to at most a magnitude exactly if it
  lies below the midpoint behind it, or on it if the magnitude is even.
* `nearestMagnitude_mono`: so rounding is monotone in the ratio, and depends on nothing else.
-/

namespace TinyLang

/-! ## Rounding a quotient -/

theorem roundDiv_le_iff_mul {num den j : Nat} (hden : 0 < den) :
    roundDiv num den ≤ j ↔
      2 * num < (2 * j + 1) * den ∨ 2 * num = (2 * j + 1) * den ∧ j % 2 = 0 := by
  have hdiv : den * (num / den) + num % den = num := Nat.div_add_mod num den
  have hmod : num % den < den := Nat.mod_lt num hden
  simp only [roundDiv]
  generalize num / den = q at hdiv
  generalize num % den = r at hdiv hmod
  subst hdiv
  rcases Nat.lt_trichotomy j q with hlt | rfl | hgt
  · -- below the quotient: neither side holds
    have hle : (2 * j + 2) * den ≤ 2 * (den * q) := by nlinarith
    have hleft : ¬ (if 2 * r < den then q else if den < 2 * r then q + 1 else q + q % 2) ≤ j := by
      split_ifs <;> omega
    refine iff_of_false hleft ?_
    rintro (h | ⟨h, -⟩) <;> nlinarith
  · have hring : (2 * j + 1) * den = 2 * (den * j) + den := by ring
    rw [hring]
    split_ifs <;> omega
  · have hle : 2 * (den * q) + 2 * den ≤ 2 * j * den := by nlinarith
    refine iff_of_true ?_ (.inl (by nlinarith))
    split_ifs <;> omega

/-- **A quotient is rounded** to at most `j` if it lies below `j + 1/2`, or on it if `j` is even. -/
theorem roundDiv_le_iff {num den j : Nat} (hden : 0 < den) :
    roundDiv num den ≤ j ↔
      (num / den : ℚ) < j + 1 / 2 ∨ (num / den : ℚ) = j + 1 / 2 ∧ j % 2 = 0 := by
  have hd : (0 : ℚ) < den := by exact_mod_cast hden
  have hlt : (num / den : ℚ) < j + 1 / 2 ↔ 2 * num < (2 * j + 1) * den := by
    rw [div_lt_iff₀ hd]
    constructor
    · intro h
      have h2 : (2 * num : ℚ) < (2 * j + 1) * den := by linarith
      exact_mod_cast h2
    · intro h
      have h2 : (2 * num : ℚ) < (2 * j + 1) * den := by exact_mod_cast h
      linarith
  have heq : (num / den : ℚ) = j + 1 / 2 ↔ 2 * num = (2 * j + 1) * den := by
    rw [div_eq_iff hd.ne']
    constructor
    · intro h
      have h2 : (2 * num : ℚ) = (2 * j + 1) * den := by linarith
      exact_mod_cast h2
    · intro h
      have h2 : (2 * num : ℚ) = (2 * j + 1) * den := by exact_mod_cast h
      linarith
  rw [roundDiv_le_iff_mul hden, hlt, heq]

/-- A ratio divided by a spacing `s` is rounded to at most `j`. -/
theorem roundDiv_scaled_le_iff {num den j : Nat} {x s : ℚ} (hden : 0 < den) (hs : 0 < s)
    (hratio : (num / den : ℚ) = x / s) :
    roundDiv num den ≤ j ↔ x < (j + 1 / 2) * s ∨ x = (j + 1 / 2) * s ∧ j % 2 = 0 := by
  rw [roundDiv_le_iff hden, hratio, div_lt_iff₀ hs, div_eq_iff hs.ne']

/-! ## Scaling by a power -/

theorem natPow_eq (b n : Nat) : Nat.pow b n = b ^ n := rfl

theorem zpow_toNat {b : ℚ} {k : ℤ} (hk : 0 ≤ k) : b ^ k.toNat = b ^ k := by
  rw [← zpow_natCast, Int.toNat_of_nonneg hk]

/-- A ratio divided by a power with a positive or negative exponent, as it is held. -/
theorem div_pow_toNat {b num den : Nat} (hb : 0 < b) (k : ℤ) :
    (0 ≤ k → (num / (den * Nat.pow b k.toNat : Nat) : ℚ) = num / den * (b : ℚ) ^ (-k)) ∧
      (¬ 0 ≤ k → ((num * Nat.pow b (-k).toNat : Nat) / den : ℚ) = num / den * (b : ℚ) ^ (-k)) := by
  have hbne : (b : ℚ) ≠ 0 := by exact_mod_cast hb.ne'
  constructor
  · intro hk
    rw [natPow_eq]
    push_cast
    rw [zpow_toNat hk, zpow_neg, div_mul_eq_div_div, div_eq_mul_inv (num / den : ℚ)]
  · intro hk
    rw [natPow_eq]
    push_cast
    rw [zpow_toNat (by omega)]
    ring

/-- A whole number times a power with a positive or negative exponent, as it is held. -/
theorem ratio_eq {b d : Nat} (k : ℤ) :
    ((if 0 ≤ k then d * Nat.pow b k.toNat else d : Nat) /
      (if 0 ≤ k then 1 else Nat.pow b (-k).toNat : Nat) : ℚ) = d * (b : ℚ) ^ k := by
  split_ifs with hk
  · rw [natPow_eq]
    push_cast
    rw [zpow_toNat hk, div_one]
  · rw [natPow_eq]
    push_cast
    rw [zpow_toNat (by omega), zpow_neg, div_inv_eq_mul]

/-! ## The binary logarithm of a ratio -/

theorem log2_bounds {n : Nat} (hn : 0 < n) :
    (2 : ℚ) ^ (n.log2 : ℤ) ≤ n ∧ (n : ℚ) < 2 ^ ((n.log2 : ℤ) + 1) := by
  constructor
  · have h : 2 ^ n.log2 ≤ n := Nat.log2_self_le hn.ne'
    rw [zpow_natCast]
    exact_mod_cast h
  · have h : n < 2 ^ (n.log2 + 1) := Nat.lt_log2_self
    have h2 : ((n.log2 : ℤ) + 1) = ((n.log2 + 1 : Nat) : ℤ) := by push_cast; rfl
    rw [h2, zpow_natCast]
    exact_mod_cast h

theorem two_zpow_pos (k : ℤ) : (0 : ℚ) < 2 ^ k := by positivity

/-- The test that `floorLog2` makes. -/
theorem fits_iff {num den : Nat} (hden : 0 < den) (k : ℤ) :
    (if 0 ≤ k then den * Nat.pow 2 k.toNat ≤ num else den ≤ num * Nat.pow 2 (-k).toNat) ↔
      (2 : ℚ) ^ k ≤ num / den := by
  have hd : (0 : ℚ) < den := by exact_mod_cast hden
  rw [le_div_iff₀ hd]
  split_ifs with hk
  · rw [← zpow_toNat hk, natPow_eq, mul_comm]
    exact_mod_cast Iff.rfl
  · have hpos := two_zpow_pos (-k)
    have hone : (2 : ℚ) ^ k * 2 ^ (-k) = 1 := by
      rw [← zpow_add₀ (by norm_num), add_neg_cancel, zpow_zero]
    have hcast : den ≤ num * Nat.pow 2 (-k).toNat ↔ (den : ℚ) ≤ num * 2 ^ (-k) := by
      rw [← zpow_toNat (b := 2) (by omega : 0 ≤ -k), natPow_eq]
      exact_mod_cast Iff.rfl
    rw [hcast]
    constructor
    · intro h
      calc (2 : ℚ) ^ k * den ≤ 2 ^ k * (num * 2 ^ (-k)) := by
            exact mul_le_mul_of_nonneg_left h (two_zpow_pos k).le
        _ = num * (2 ^ k * 2 ^ (-k)) := by ring
        _ = num := by rw [hone, mul_one]
    · intro h
      calc (den : ℚ) = den * (2 ^ k * 2 ^ (-k)) := by rw [hone, mul_one]
        _ = 2 ^ k * den * 2 ^ (-k) := by ring
        _ ≤ num * 2 ^ (-k) := mul_le_mul_of_nonneg_right h hpos.le

/-- **The binary logarithm of a positive ratio.** -/
theorem floorLog2_spec {num den : Nat} (hnum : 0 < num) (hden : 0 < den) :
    (2 : ℚ) ^ floorLog2 num den ≤ num / den ∧ (num / den : ℚ) < 2 ^ (floorLog2 num den + 1) := by
  have hd : (0 : ℚ) < den := by exact_mod_cast hden
  obtain ⟨hn1, hn2⟩ := log2_bounds hnum
  obtain ⟨hd1, hd2⟩ := log2_bounds hden
  generalize hk : (num.log2 : ℤ) - den.log2 = k at *
  have hupper : (num / den : ℚ) < 2 ^ (k + 1) := by
    rw [div_lt_iff₀ hd]
    calc (num : ℚ) < 2 ^ ((num.log2 : ℤ) + 1) := hn2
      _ = 2 ^ (k + 1) * 2 ^ (den.log2 : ℤ) := by
          rw [← zpow_add₀ (by norm_num)]
          congr 1
          omega
      _ ≤ 2 ^ (k + 1) * den := mul_le_mul_of_nonneg_left hd1 (two_zpow_pos _).le
  have hlower : (2 : ℚ) ^ (k - 1) ≤ num / den := by
    rw [le_div_iff₀ hd]
    calc (2 : ℚ) ^ (k - 1) * den ≤ 2 ^ (k - 1) * 2 ^ ((den.log2 : ℤ) + 1) :=
          mul_le_mul_of_nonneg_left hd2.le (two_zpow_pos _).le
      _ = 2 ^ (num.log2 : ℤ) := by
          rw [← zpow_add₀ (by norm_num)]
          congr 1
          omega
      _ ≤ num := hn1
  simp only [floorLog2, hk]
  by_cases hfits : (2 : ℚ) ^ k ≤ num / den
  · rw [if_pos ((fits_iff hden k).2 hfits)]
    exact ⟨hfits, hupper⟩
  · rw [if_neg (mt (fits_iff hden k).1 hfits), sub_add_cancel]
    exact ⟨hlower, not_le.1 hfits⟩

namespace Number

/-! ## The value of a magnitude -/

/-- The rational number that a finite magnitude stands for. -/
def magnitudeValue (m : Nat) : ℚ :=
  if m < 2 ^ 52 then m * 2 ^ (-1074 : ℤ)
  else (m % 2 ^ 52 + 2 ^ 52 : Nat) * 2 ^ ((m / 2 ^ 52 : Nat) - 1075 : ℤ)

/-- Magnitudes are consecutive: each block of `2 ^ 52` of them, with the one behind it, is an evenly
spaced grid. -/
theorem magnitudeValue_grid {c j : Nat} (hj : j ≤ 2 ^ 53) (hc : c = 0 ∨ 2 ^ 52 ≤ j) :
    magnitudeValue (c * 2 ^ 52 + j) = j * 2 ^ ((c : ℤ) - 1074) := by
  unfold magnitudeValue
  rcases Nat.lt_or_ge j (2 ^ 52) with hlow | hhigh
  · obtain rfl : c = 0 := by omega
    rw [if_pos (by omega), Nat.zero_mul, Nat.zero_add]
    norm_num
  · rw [if_neg (by omega)]
    rcases Nat.lt_or_ge j (2 ^ 53) with hlt | hge
    · have hmod : (c * 2 ^ 52 + j) % 2 ^ 52 + 2 ^ 52 = j := by omega
      have hdiv : (c * 2 ^ 52 + j) / 2 ^ 52 = c + 1 := by omega
      rw [hmod, hdiv]
      congr 2
      push_cast
      ring
    · -- the last point of the grid is the first of the next one
      obtain rfl : j = 2 ^ 53 := by omega
      have hmod : (c * 2 ^ 52 + 2 ^ 53) % 2 ^ 52 + 2 ^ 52 = 2 ^ 52 := by omega
      have hdiv : (c * 2 ^ 52 + 2 ^ 53) / 2 ^ 52 = c + 2 := by omega
      rw [hmod, hdiv]
      have hexp : ((c + 2 : Nat) - 1075 : ℤ) = ((c : ℤ) - 1074) + 1 := by push_cast; ring
      rw [hexp, zpow_add_one₀ (by norm_num)]
      push_cast
      ring

/-- The grid of a magnitude and of the one behind it. -/
theorem exists_grid (m : Nat) :
    ∃ c j, m = c * 2 ^ 52 + j ∧ j < 2 ^ 53 ∧ (c = 0 ∨ 2 ^ 52 ≤ j) :=
  ⟨m / 2 ^ 52 - 1, m - (m / 2 ^ 52 - 1) * 2 ^ 52, by omega, by omega, by omega⟩

/-- The rational number halfway between a magnitude and the next one. -/
def midpoint (m : Nat) : ℚ := (magnitudeValue m + magnitudeValue (m + 1)) / 2

theorem midpoint_grid {c j : Nat} (hj : j < 2 ^ 53) (hc : c = 0 ∨ 2 ^ 52 ≤ j) :
    midpoint (c * 2 ^ 52 + j) = (j + 1 / 2) * 2 ^ ((c : ℤ) - 1074) := by
  have hnext : magnitudeValue (c * 2 ^ 52 + j + 1) =
      ((j + 1 : Nat) : ℚ) * 2 ^ ((c : ℤ) - 1074) := by
    rw [Nat.add_assoc]
    exact magnitudeValue_grid (by omega) (by omega)
  rw [midpoint, magnitudeValue_grid hj.le hc, hnext]
  push_cast
  ring

theorem magnitudeValue_lt_midpoint (m : Nat) : magnitudeValue m < midpoint m := by
  obtain ⟨c, j, rfl, hj, hc⟩ := exists_grid m
  rw [magnitudeValue_grid hj.le hc, midpoint_grid hj hc]
  exact mul_lt_mul_of_pos_right (by linarith) (two_zpow_pos _)

theorem midpoint_lt_magnitudeValue (m : Nat) : midpoint m < magnitudeValue (m + 1) := by
  have h := magnitudeValue_lt_midpoint m
  unfold midpoint at h ⊢
  linarith

theorem magnitudeValue_strictMono : StrictMono magnitudeValue :=
  strictMono_nat_of_lt_succ fun m =>
    (magnitudeValue_lt_midpoint m).trans (midpoint_lt_magnitudeValue m)

/-! ## Rounding a ratio -/

/-- Rounding to a multiple of `2 ^ q`. -/
theorem roundAt_le_iff {num den j : Nat} (hden : 0 < den) (q : ℤ) :
    (if 0 ≤ q then roundDiv num (den * Nat.pow 2 q.toNat)
      else roundDiv (num * Nat.pow 2 (-q).toNat) den) ≤ j ↔
      (num / den : ℚ) < (j + 1 / 2) * 2 ^ q ∨
        (num / den : ℚ) = (j + 1 / 2) * 2 ^ q ∧ j % 2 = 0 := by
  have hq := two_zpow_pos q
  split_ifs with h
  · have hpow : 0 < den * Nat.pow 2 q.toNat := Nat.mul_pos hden (Nat.pow_pos (by decide))
    refine roundDiv_scaled_le_iff hpow hq ?_
    rw [(div_pow_toNat (by decide) q).1 h, Nat.cast_ofNat, zpow_neg, ← div_eq_mul_inv]
  · refine roundDiv_scaled_le_iff hden hq ?_
    rw [(div_pow_toNat (by decide) q).2 h, Nat.cast_ofNat, zpow_neg, ← div_eq_mul_inv]

/-- What the spacing is chosen for: the ratio lies on the grid with that spacing, and in its upper
half unless it is the grid of the subnormal numbers. -/
theorem spacing_spec {num den : Nat} (hnum : 0 < num) (hden : 0 < den) :
    -1074 ≤ spacing num den ∧ (num / den : ℚ) < 2 ^ 53 * 2 ^ spacing num den ∧
      (spacing num den ≠ -1074 → (2 : ℚ) ^ 52 * 2 ^ spacing num den ≤ num / den) := by
  obtain ⟨hlow, hupp⟩ := floorLog2_spec hnum hden
  unfold spacing
  refine ⟨le_max_right _ _, hupp.trans_le ?_, fun hne => ?_⟩
  · rw [← zpow_natCast (2 : ℚ) 53, ← zpow_add₀ (by norm_num)]
    refine zpow_le_zpow_right₀ (by norm_num) ?_
    push_cast
    omega
  · refine le_trans ?_ hlow
    rw [← zpow_natCast (2 : ℚ) 52, ← zpow_add₀ (by norm_num)]
    refine zpow_le_zpow_right₀ (by norm_num) ?_
    push_cast
    omega

/-- Rounding on the grid that holds the ratio is rounding among all magnitudes. -/
theorem grid_le_iff {c j m : Nat} {x : ℚ} (hupp : x < 2 ^ 53 * 2 ^ ((c : ℤ) - 1074))
    (hlow : c ≠ 0 → (2 : ℚ) ^ 52 * 2 ^ ((c : ℤ) - 1074) ≤ x)
    (hround : ∀ i : Nat, j ≤ i ↔ x < (i + 1 / 2) * 2 ^ ((c : ℤ) - 1074) ∨
      x = (i + 1 / 2) * 2 ^ ((c : ℤ) - 1074) ∧ i % 2 = 0) :
    c * 2 ^ 52 + j ≤ m ↔ x < midpoint m ∨ x = midpoint m ∧ m % 2 = 0 := by
  have hpow := two_zpow_pos ((c : ℤ) - 1074)
  have hj : j ≤ 2 ^ 53 := by
    refine (hround _).2 (.inl (hupp.trans ?_))
    refine mul_lt_mul_of_pos_right ?_ hpow
    norm_num
  rcases Nat.lt_or_ge m ((c + 2) * 2 ^ 52) with hlt | hge
  · by_cases hon : c = 0 ∨ (c + 1) * 2 ^ 52 ≤ m
    · -- the magnitude lies on the same grid
      obtain ⟨i, rfl⟩ : ∃ i, m = c * 2 ^ 52 + i := ⟨m - c * 2 ^ 52, by omega⟩
      have hparity : (c * 2 ^ 52 + i) % 2 = i % 2 := by omega
      rw [midpoint_grid (by omega) (by omega), hparity, ← hround i]
      omega
    · -- it lies before the upper half of the grid
      have hlow := hlow (by omega)
      have hj' : ¬ j ≤ 2 ^ 52 - 1 := by
        rw [hround]
        have hcast : (((2 ^ 52 - 1 : Nat) : ℚ) + 1 / 2) * 2 ^ ((c : ℤ) - 1074) < x := by
          refine lt_of_lt_of_le (mul_lt_mul_of_pos_right ?_ hpow) hlow
          norm_num
        exact fun h => h.elim hcast.not_gt fun h => hcast.ne' h.1
      have hmid : midpoint m < x := by
        refine lt_of_lt_of_le ?_ hlow
        have hgrid := magnitudeValue_grid (c := c) (j := 2 ^ 52) (by norm_num) (by omega)
        rw [Nat.cast_pow, Nat.cast_ofNat] at hgrid
        rw [← hgrid]
        exact (midpoint_lt_magnitudeValue m).trans_le
          (magnitudeValue_strictMono.monotone (by omega))
      refine iff_of_false (by omega) fun h => h.elim hmid.not_gt fun h => hmid.ne' h.1
  · -- it lies behind the grid
    refine iff_of_true (by omega) (.inl (hupp.trans ?_))
    have hgrid := magnitudeValue_grid (c := c) (j := 2 ^ 53) le_rfl (by omega)
    rw [Nat.cast_pow, Nat.cast_ofNat] at hgrid
    rw [← hgrid]
    exact (magnitudeValue_strictMono.monotone (by omega)).trans_lt (magnitudeValue_lt_midpoint m)

/-- **Rounding to the nearest double.** A ratio is rounded to at most a finite magnitude exactly if
it lies below the midpoint behind that magnitude, or on the midpoint if the magnitude is even. -/
theorem nearestMagnitude_le_iff {num den m : Nat} (hden : 0 < den) (hm : m < infinityMagnitude) :
    nearestMagnitude num den ≤ m ↔
      (num / den : ℚ) < midpoint m ∨ (num / den : ℚ) = midpoint m ∧ m % 2 = 0 := by
  rcases Nat.eq_zero_or_pos num with rfl | hnum
  · have hpos : 0 < midpoint m := by
      have h0 : magnitudeValue 0 = 0 := by simp [magnitudeValue]
      rw [← h0]
      exact (magnitudeValue_strictMono.monotone (Nat.zero_le m)).trans_lt
        (magnitudeValue_lt_midpoint m)
    refine iff_of_true (Nat.zero_le m) (.inl ?_)
    simpa using hpos
  obtain ⟨hq, hupp, hlow⟩ := spacing_spec hnum hden
  have hround (j : Nat) := @roundAt_le_iff num den j hden (spacing num den)
  simp only [nearestMagnitude, if_neg hnum.ne']
  generalize spacing num den = q at hq hupp hlow hround ⊢
  obtain ⟨c, rfl⟩ : ∃ c : Nat, q = (c : ℤ) - 1074 := ⟨(q + 1074).toNat, by omega⟩
  generalize (if 0 ≤ (c : ℤ) - 1074 then _ else _ : Nat) = j at hround ⊢
  rw [← grid_le_iff hupp (fun hc => hlow (by omega)) hround, sub_add_cancel, Int.toNat_natCast,
    natPow_eq, min_le_iff]
  omega

theorem nearestMagnitude_le_infinity (num den : Nat) :
    nearestMagnitude num den ≤ infinityMagnitude := by
  unfold nearestMagnitude
  split
  · exact Nat.zero_le _
  · exact Nat.min_le_right _ _

/-- **Rounding is monotone** in the ratio. -/
theorem nearestMagnitude_mono {num den num' den' : Nat} (hden : 0 < den) (hden' : 0 < den')
    (hle : (num / den : ℚ) ≤ num' / den') :
    nearestMagnitude num den ≤ nearestMagnitude num' den' := by
  rcases (nearestMagnitude_le_infinity num' den').lt_or_eq with hfinite | hinf
  · refine (nearestMagnitude_le_iff hden hfinite).2 ?_
    have h := (nearestMagnitude_le_iff hden' hfinite).1 le_rfl
    rcases hle.lt_or_eq with hlt | heq
    · exact .inl (hlt.trans_le (h.elim le_of_lt fun h => h.1.le))
    · rwa [heq]
  · rw [hinf]
    exact nearestMagnitude_le_infinity num den

/-- A ratio is rounded to a magnitude if it lies between the midpoints around it, which belong to
the magnitude if it is even. -/
theorem nearestMagnitude_eq_iff {num den m : Nat} (hden : 0 < den) (hm : m < infinityMagnitude)
    (hpos : 0 < m) :
    nearestMagnitude num den = m ↔
      if m % 2 = 0 then midpoint (m - 1) ≤ num / den ∧ (num / den : ℚ) ≤ midpoint m
      else midpoint (m - 1) < num / den ∧ (num / den : ℚ) < midpoint m := by
  have hsplit : nearestMagnitude num den = m ↔
      nearestMagnitude num den ≤ m ∧ ¬ nearestMagnitude num den ≤ m - 1 := by omega
  rw [hsplit, nearestMagnitude_le_iff hden hm, nearestMagnitude_le_iff hden (by omega)]
  generalize (num / den : ℚ) = x
  split_ifs with heven
  · have hodd : ¬ (m - 1) % 2 = 0 := by omega
    rw [and_iff_left heven, ← le_iff_lt_or_eq, and_comm]
    simp [hodd]
  · have hodd : (m - 1) % 2 = 0 := by omega
    rw [and_iff_left hodd, ← le_iff_lt_or_eq, not_le, and_comm]
    simp [heven]

/-- A number's ratio is the value of its magnitude. -/
theorem numerator_div_denominator (v : Number) :
    (v.numerator / v.denominator : ℚ) = magnitudeValue v.magnitude := by
  unfold numerator denominator
  rw [ratio_eq, Nat.cast_ofNat]
  unfold magnitudeValue significand scale exponentField
  rw [natPow_eq]
  rcases Nat.lt_or_ge v.magnitude (2 ^ 52) with hlt | hge
  · have hdiv : v.magnitude / 2 ^ 52 = 0 := Nat.div_eq_of_lt hlt
    rw [hdiv, if_pos rfl, if_pos hlt, Nat.mod_eq_of_lt hlt]
    norm_num
  · have hdiv : 1 ≤ v.magnitude / 2 ^ 52 := by omega
    rw [if_neg (by omega), if_neg (by omega), max_eq_left hdiv]

theorem denominator_pos (v : Number) : 0 < v.denominator := by
  unfold denominator
  split_ifs
  · exact Nat.one_pos
  · exact Nat.pow_pos (by decide)

theorem magnitude_ofMagnitude {negative : Bool} {m : Nat} (hm : m < 0x8000000000000000) :
    (ofMagnitude negative m).magnitude = m := by
  cases negative <;> simp [ofMagnitude, magnitude, Nat.toUInt64] <;> omega

end Number

/-! ## Decimals -/

namespace Decimal

/-- The rational number that a decimal stands for, without its sign. -/
def value (d : Decimal) : ℚ := d.digits * 10 ^ d.exponent

theorem denominator_pos (d : Decimal) : 0 < d.denominator := by
  unfold denominator
  split_ifs
  · exact Nat.one_pos
  · exact Nat.pow_pos (by decide)

theorem numerator_div_denominator (d : Decimal) :
    (d.numerator / d.denominator : ℚ) = d.value := by
  unfold numerator denominator value
  rw [ratio_eq, Nat.cast_ofNat]

/-- The magnitude of the nearest double. -/
def magnitude (d : Decimal) : Nat := Number.nearestMagnitude d.numerator d.denominator

theorem magnitude_mono {d d' : Decimal} (hle : d.value ≤ d'.value) : d.magnitude ≤ d'.magnitude :=
  Number.nearestMagnitude_mono d.denominator_pos d'.denominator_pos (by
    rwa [d.numerator_div_denominator, d'.numerator_div_denominator])

theorem magnitude_le_infinity (d : Decimal) : d.magnitude ≤ Number.infinityMagnitude :=
  Number.nearestMagnitude_le_infinity _ _

theorem toNumber_eq (d : Decimal) : d.toNumber = Number.ofMagnitude d.negative d.magnitude := rfl

theorem magnitude_toNumber (d : Decimal) : d.toNumber.magnitude = d.magnitude :=
  Number.magnitude_ofMagnitude (d.magnitude_le_infinity.trans_lt (by decide))

theorem toNumber_congr {d d' : Decimal} (hsign : d.negative = d'.negative)
    (hvalue : d.value = d'.value) : d.toNumber = d'.toNumber := by
  rw [toNumber_eq, toNumber_eq, hsign,
    (magnitude_mono hvalue.le).antisymm (magnitude_mono hvalue.ge)]

/-- Two decimals with the same nearest double share it with everything between them. -/
theorem toNumber_between {low d high : Decimal} (hsame : low.toNumber = high.toNumber)
    (hsign : d.negative = low.negative) (hlow : low.value ≤ d.value)
    (hhigh : d.value ≤ high.value) : d.toNumber = low.toNumber := by
  have hm : low.magnitude = high.magnitude := by
    rw [← magnitude_toNumber, ← magnitude_toNumber, hsame]
  have h1 := magnitude_mono hlow
  have h2 := magnitude_mono hhigh
  rw [toNumber_eq, toNumber_eq, hsign]
  congr 1
  omega

end Decimal

end TinyLang
