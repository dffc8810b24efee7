import TinyLang.Proofs.Number.Grid

/-!
# The shortest decimal

The search for the shortest decimal of a number goes through the decimal grids from coarse to fine
and looks at the two points next to the number on each. That is enough: a decimal with no more
digits than a grid has does not lie between these two points (`decimal_outside`), and so one of the
two reads back if any such decimal does, and is no farther away (`exists_neighbour`).

* `FirstAt`: the first grid with a point that reads back. There is one (`exists_firstAt`).
* `shortest_isShortest`: the headline. The decimal that is found reads back, none with fewer digits
  does, and none with as many digits is nearer.
* `Written.exact`: below `10 ^ 16`, a shortest decimal without places after the point is exact.
* `unfair_spec`: when the nearer one of the two points does not read back and the other one does.
-/

namespace TinyLang

namespace Number

/-! ## Neighbours on a grid -/

theorem neighbour?_eq (v : Number) (k : ℤ) :
    v.neighbour? k =
      match v.readsBack (v.floorAt k) k, v.readsBack (v.floorAt k + 1) k with
      | true, true => some (v.digitsAt k)
      | true, false => some (v.floorAt k)
      | false, true => some (v.floorAt k + 1)
      | false, false => none := rfl

theorem neighbour?_eq_none_iff {v : Number} {k : ℤ} :
    v.neighbour? k = none ↔ ¬ v.readsBack (v.floorAt k) k ∧ ¬ v.readsBack (v.floorAt k + 1) k := by
  rw [neighbour?_eq]
  cases v.readsBack (v.floorAt k) k <;> cases v.readsBack (v.floorAt k + 1) k <;> simp

/-- What is taken is next to the value and reads back. -/
theorem neighbour?_eq_some {v : Number} {k : ℤ} {n : Nat} (h : v.neighbour? k = some n) :
    v.readsBack n k ∧ (n = v.floorAt k ∨ n = v.floorAt k + 1) := by
  have hcases := v.digitsAt_floorAt k
  rw [neighbour?_eq] at h
  cases hlow : v.readsBack (v.floorAt k) k <;>
    cases hupper : v.readsBack (v.floorAt k + 1) k <;> simp only [hlow, hupper] at h <;> cases h
  · exact ⟨hupper, .inr rfl⟩
  · exact ⟨hlow, .inl rfl⟩
  · rcases hcases with heq | heq
    · exact ⟨heq ▸ hlow, .inl heq⟩
    · exact ⟨heq ▸ hupper, .inr heq⟩

/-- If the nearer neighbour reads back, it is taken. -/
theorem neighbour?_of_digitsAt {v : Number} {k : ℤ} (h : v.readsBack (v.digitsAt k) k) :
    v.neighbour? k = some (v.digitsAt k) := by
  rw [neighbour?_eq]
  rcases v.digitsAt_floorAt k with heq | heq
  · rw [heq] at h ⊢
    rw [h]
    cases v.readsBack (v.floorAt k + 1) k <;> rfl
  · rw [heq] at h ⊢
    rw [h]
    cases v.readsBack (v.floorAt k) k <;> rfl

theorem neighbour?_upper {v : Number} {k : ℤ} (hlow : ¬ v.readsBack (v.floorAt k) k)
    (hupper : v.readsBack (v.floorAt k + 1) k) : v.neighbour? k = some (v.floorAt k + 1) := by
  rw [Bool.not_eq_true] at hlow
  rw [neighbour?_eq, hlow, hupper]

theorem digitsAt_not_readsBack {v : Number} {k : ℤ} (h : v.neighbour? k = none) :
    ¬ v.readsBack (v.digitsAt k) k := by
  intro hreads
  rw [neighbour?_of_digitsAt hreads] at h
  exact Option.some_ne_none _ h

/-- **A neighbour is taken if anything outside of the two reads back**, and it is no farther away.
-/
theorem exists_neighbour {v : Number} (h : v.Regular) {k : ℤ} {y : ℚ} (hy : v.Reads y)
    (hout : y ≤ v.floorAt k * 10 ^ k ∨ (v.floorAt k + 1) * 10 ^ k ≤ y) :
    ∃ n, v.neighbour? k = some n ∧ |v.value - n * 10 ^ k| ≤ |v.value - y| := by
  obtain ⟨hfloor, hceil⟩ := v.floorAt_spec k
  have hself := Reads.self h
  have hnearer := v.digitsAt_cases k
  have hdown : |v.value - v.floorAt k * 10 ^ k| = v.value - v.floorAt k * 10 ^ k :=
    abs_of_nonneg (by linarith)
  have hup : |v.value - (v.floorAt k + 1) * 10 ^ k| = (v.floorAt k + 1) * 10 ^ k - v.value := by
    rw [abs_sub_comm]
    exact abs_of_nonneg (by linarith)
  have hdigits : |v.value - v.digitsAt k * 10 ^ k| ≤ |v.value - v.floorAt k * 10 ^ k| ∧
      |v.value - v.digitsAt k * 10 ^ k| ≤ |v.value - (v.floorAt k + 1) * 10 ^ k| := by
    rw [hdown, hup]
    rcases hnearer with ⟨heq, hle⟩ | ⟨heq, hle⟩
    · rw [heq, hdown]
      exact ⟨le_rfl, hle⟩
    · rw [heq]
      push_cast
      rw [hup]
      exact ⟨hle, le_rfl⟩
  rcases hout with hle | hge
  · -- the lower neighbour lies between what reads back and the value
    have hlow : v.readsBack (v.floorAt k) k := (readsBack_iff h _ _).2 (hy.between hself hle hfloor)
    have hfar : |v.value - v.floorAt k * 10 ^ k| ≤ |v.value - y| := by
      rw [hdown, abs_of_nonneg (by linarith)]
      linarith
    rw [neighbour?_eq, hlow]
    cases v.readsBack (v.floorAt k + 1) k with
    | true => exact ⟨_, rfl, hdigits.1.trans hfar⟩
    | false => exact ⟨_, rfl, hfar⟩
  · have hupper : v.readsBack (v.floorAt k + 1) k := by
      rw [readsBack_iff h]
      push_cast
      exact hself.between hy hceil.le hge
    have hfar : |v.value - (v.floorAt k + 1) * 10 ^ k| ≤ |v.value - y| := by
      rw [hup, abs_sub_comm, abs_of_nonneg (by linarith)]
      linarith
    rw [neighbour?_eq, hupper]
    cases v.readsBack (v.floorAt k) k with
    | true => exact ⟨_, rfl, hdigits.2.trans hfar⟩
    | false =>
      refine ⟨_, rfl, ?_⟩
      push_cast
      exact hfar

/-- A decimal with no more digits than the grid has does not lie between the two neighbours. -/
theorem decimal_outside {v : Number} (h : v.Regular) {p n : Nat} (hn : n < 10 ^ (p + 1)) (k : ℤ) :
    (n * 10 ^ k : ℚ) ≤ v.floorAt (v.decimalExponent - p) * 10 ^ (v.decimalExponent - p) ∨
      (v.floorAt (v.decimalExponent - p) + 1 : ℚ) * 10 ^ (v.decimalExponent - p) ≤ n * 10 ^ k := by
  have hstep := ten_zpow_pos (v.decimalExponent - p)
  rcases le_or_gt (v.decimalExponent - p) k with hge | hlt
  · -- the decimal is on the grid
    obtain ⟨j, rfl⟩ : ∃ j : Nat, k = v.decimalExponent - p + j :=
      ⟨(k - (v.decimalExponent - p)).toNat, by omega⟩
    have hgrid : (n * 10 ^ (v.decimalExponent - p + j) : ℚ) =
        (n * 10 ^ j : Nat) * 10 ^ (v.decimalExponent - p) := by
      rw [zpow_add₀ (by norm_num), zpow_natCast]
      push_cast
      ring
    rw [hgrid]
    rcases Nat.lt_or_ge (v.floorAt (v.decimalExponent - p)) (n * 10 ^ j) with hlt | hle
    · exact .inr (mul_le_mul_of_nonneg_right (by exact_mod_cast hlt) hstep.le)
    · exact .inl (mul_le_mul_of_nonneg_right (by exact_mod_cast hle) hstep.le)
  · -- it is smaller than the smallest number with its exponent
    have hlow := (floorAt_length h p).1
    left
    calc (n * 10 ^ k : ℚ) ≤ 10 ^ (p + 1) * 10 ^ k :=
          mul_le_mul_of_nonneg_right (by exact_mod_cast hn.le) (ten_zpow_pos k).le
      _ = 10 ^ p * 10 ^ (k + 1) := by
          rw [pow_succ, zpow_add_one₀ (by norm_num)]
          ring
      _ ≤ 10 ^ p * 10 ^ (v.decimalExponent - p) := by
          refine mul_le_mul_of_nonneg_left ?_ (by positivity)
          exact zpow_le_zpow_right₀ (by norm_num) (by omega)
      _ ≤ v.floorAt (v.decimalExponent - p) * 10 ^ (v.decimalExponent - p) :=
          mul_le_mul_of_nonneg_right (by exact_mod_cast hlow) hstep.le

/-! ## The search for the shortest decimal -/

/-- The places of the first grid on which a neighbour of the value reads back. -/
structure FirstAt (v : Number) (p : Nat) : Prop where
  lt : p < 17
  before : ∀ i < p, v.neighbour? (v.decimalExponent - i) = none
  found : v.neighbour? (v.decimalExponent - p) ≠ none

theorem exists_firstAt {v : Number} (h : v.Regular) : ∃ p, v.FirstAt p := by
  have hlast : v.neighbour? (v.decimalExponent - (16 : Nat)) ≠ none := by
    rw [Nat.cast_ofNat]
    intro hnone
    exact digitsAt_not_readsBack hnone (readsBack_seventeen h)
  classical
  have hex : ∃ p : Nat, v.neighbour? (v.decimalExponent - p) ≠ none := ⟨16, hlast⟩
  refine ⟨Nat.find hex, ?_, fun i hi => ?_, Nat.find_spec hex⟩
  · exact Nat.lt_succ_of_le (Nat.find_min' hex hlast)
  · exact not_not.1 (Nat.find_min hex hi)

theorem FirstAt.shortest_eq {v : Number} {p n : Nat} (h : v.FirstAt p)
    (hn : v.neighbour? (v.decimalExponent - p) = some n) :
    v.shortest = dropZeros 17 n (v.decimalExponent - p) := by
  have hsplit : List.range 17 = List.range p ++ p :: (List.range (16 - p)).map (p + 1 + ·) := by
    have hlen : 17 = p + (1 + (16 - p)) := by
      have := h.lt
      omega
    rw [hlen, List.range_add, List.range_add]
    simp [Nat.add_assoc]
  have hfound : ((List.range 17).findSome? fun (places : Nat) =>
      (v.neighbour? (v.decimalExponent - places)).map fun n => (n, v.decimalExponent - places)) =
        some (n, v.decimalExponent - p) := by
    rw [List.findSome?_eq_some_iff]
    refine ⟨List.range p, p, _, hsplit, ?_, fun i hi => ?_⟩
    · rw [hn, Option.map_some]
    · rw [h.before i (List.mem_range.1 hi), Option.map_none]
  simp only [shortest, hfound, Option.getD_some]

/-! ## The digits that are found -/

theorem dropZeros_of_ne {n : Nat} (h : n % 10 ≠ 0) (fuel : Nat) (k : ℤ) :
    dropZeros fuel n k = (n, k) := by
  cases fuel with
  | zero => rfl
  | succ fuel => simp [dropZeros, h]

theorem dropZeros_ten (fuel : Nat) (k : ℤ) : dropZeros (fuel + 1) 10 k = (1, k + 1) := by
  rw [dropZeros, if_pos (by decide)]
  exact dropZeros_of_ne (by decide) fuel (k + 1)

/-- Zeros at the end of the digits move into the exponent. -/
theorem readsBack_mul_pow {v : Number} (h : v.Regular) (n j : Nat) (k : ℤ) :
    v.readsBack (n * 10 ^ j) k ↔ v.readsBack n (k + j) := by
  rw [readsBack_iff h, readsBack_iff h, zpow_add₀ (by norm_num), zpow_natCast]
  push_cast
  rw [mul_assoc, mul_comm ((10 : ℚ) ^ j)]

theorem readsBack_ten_mul {v : Number} (h : v.Regular) (n : Nat) (k : ℤ) :
    v.readsBack (10 * n) k ↔ v.readsBack n (k + 1) := by
  have hpow := readsBack_mul_pow h n 1 k
  rwa [pow_one, Nat.mul_comm] at hpow

/-- On the first grid the digits do not end in zero: without it they would be found before. -/
theorem FirstAt.mod_ten_ne {v : Number} {p n : Nat} (h : v.Regular) (hp : v.FirstAt (p + 1))
    (hn : v.readsBack n (v.decimalExponent - (p + 1 : Nat)))
    (hnear : n = v.floorAt (v.decimalExponent - (p + 1 : Nat)) ∨
      n = v.floorAt (v.decimalExponent - (p + 1 : Nat)) + 1) : n % 10 ≠ 0 := by
  intro hzero
  obtain ⟨t, rfl⟩ : ∃ t, n = 10 * t := ⟨n / 10, by omega⟩
  have hcast : v.decimalExponent - (p + 1 : Nat) + 1 = v.decimalExponent - p := by
    push_cast
    ring
  have hcoarse := v.floorAt_succ (v.decimalExponent - (p + 1 : Nat))
  rw [readsBack_ten_mul h, hcast] at hn
  rw [hcast] at hcoarse
  have hnone := neighbour?_eq_none_iff.1 (hp.before p (Nat.lt_succ_self p))
  rcases (by omega : t = v.floorAt (v.decimalExponent - p) ∨
      t = v.floorAt (v.decimalExponent - p) + 1) with rfl | rfl
  · exact hnone.1 hn
  · exact hnone.2 hn

/-- **What the search finds**: the neighbour on the first grid, with one digit for each place of the
grid. Only a single digit can be carried to the next power of ten. -/
theorem FirstAt.shortest_cases {v : Number} {p n : Nat} (h : v.Regular) (hp : v.FirstAt p)
    (hn : v.neighbour? (v.decimalExponent - p) = some n) :
    v.shortest = (n, v.decimalExponent - p) ∧ 10 ^ p ≤ n ∧ n < 10 ^ (p + 1) ∨
      p = 0 ∧ n = 10 ∧ v.shortest = (1, v.decimalExponent + 1) := by
  obtain ⟨hreads, hnear⟩ := neighbour?_eq_some hn
  obtain ⟨hlow, hhigh⟩ := floorAt_length h p
  have hshort := hp.shortest_eq hn
  cases p with
  | zero =>
    rw [Nat.cast_zero, sub_zero] at *
    by_cases hten : n = 10
    · refine .inr ⟨rfl, hten, ?_⟩
      rw [hshort, hten]
      exact dropZeros_ten 16 v.decimalExponent
    · refine .inl ⟨?_, by omega, by omega⟩
      rw [hshort]
      exact dropZeros_of_ne (by omega) _ _
  | succ p =>
    have hmod := hp.mod_ten_ne h hreads hnear
    have hten : (10 : Nat) ^ (p + 1 + 1) % 10 = 0 := by rw [pow_succ, Nat.mul_mod_left]
    refine .inl ⟨?_, by omega, ?_⟩
    · rw [hshort]
      exact dropZeros_of_ne hmod _ _
    · refine lt_of_le_of_ne (by omega) ?_
      rintro rfl
      exact hmod hten

/-! ## The shortest decimal is the shortest -/

/-- A decimal reads back to a number, no decimal with fewer digits does, and of those with as many
digits none is nearer. -/
structure IsShortest (v : Number) (n : Nat) (k : ℤ) : Prop where
  reads : v.readsBack n k
  fewest : ∀ n' k', v.readsBack n' k' → decimalLength n ≤ decimalLength n'
  nearest : ∀ n' k', v.readsBack n' k' → decimalLength n' = decimalLength n →
    |v.value - n * 10 ^ k| ≤ |v.value - n' * 10 ^ k'|

/-- The neighbour on the first grid is shortest, in whatever way it is written. -/
theorem FirstAt.isShortest {v : Number} {p n n' : Nat} {k : ℤ} (h : v.Regular) (hp : v.FirstAt p)
    (hn : v.neighbour? (v.decimalExponent - p) = some n)
    (hsame : (n' * 10 ^ k : ℚ) = n * 10 ^ (v.decimalExponent - p)) (hlow : 10 ^ p ≤ n')
    (hhigh : n' < 10 ^ (p + 1)) : v.IsShortest n' k := by
  have hlen : decimalLength n' = p + 1 := decimalLength_eq hlow hhigh
  have hbound {i m : Nat} (hm : decimalLength m = i + 1) : m < 10 ^ (i + 1) := by
    rcases Nat.eq_zero_or_pos m with rfl | hpos
    · exact Nat.pow_pos (by decide)
    · rw [← hm]
      exact (decimalLength_spec hpos).2
  refine ⟨?_, fun m j hm => ?_, fun m j hm hmlen => ?_⟩
  · rw [readsBack_iff h, hsame, ← readsBack_iff h]
    exact (neighbour?_eq_some hn).1
  · -- with fewer digits it would be found on a coarser grid
    rw [hlen]
    by_contra hlt
    have hpos := decimalLength_pos m
    obtain ⟨i, hi⟩ : ∃ i, decimalLength m = i + 1 := ⟨decimalLength m - 1, by omega⟩
    obtain ⟨x, hx, -⟩ := exists_neighbour h ((readsBack_iff h m j).1 hm)
      (decimal_outside h (hbound hi) j)
    rw [hp.before i (by omega)] at hx
    exact Option.some_ne_none _ hx.symm
  · obtain ⟨x, hx, hnear⟩ := exists_neighbour h ((readsBack_iff h m j).1 hm)
      (decimal_outside h (hbound (hmlen.trans hlen)) j)
    rw [hn, Option.some.injEq] at hx
    rwa [hsame, hx]

/-- **The search finds a shortest decimal.** -/
theorem shortest_isShortest {v : Number} (h : v.Regular) :
    v.IsShortest v.shortest.1 v.shortest.2 := by
  obtain ⟨p, hp⟩ := exists_firstAt h
  obtain ⟨n, hn⟩ := Option.ne_none_iff_exists'.1 hp.found
  rcases hp.shortest_cases h hn with ⟨hshort, hlow, hhigh⟩ | ⟨rfl, rfl, hshort⟩
  · rw [hshort]
    exact hp.isShortest h hn rfl hlow hhigh
  · rw [hshort]
    refine hp.isShortest h hn ?_ (by simp) (by simp)
    rw [zpow_add_one₀ (by norm_num), Nat.cast_zero, sub_zero]
    push_cast
    ring

/-! ## A nearer neighbour that reads back -/

/-- A decimal with `p + 1` digits and the exponent `e` of its first digit, that is the nearest on
its grid. -/
structure Rounded (v : Number) (p n : Nat) (e : ℤ) : Prop where
  low : 10 ^ p ≤ n
  high : n < 10 ^ (p + 1)
  nearest : v.digitsAt (e - p) = n

theorem Rounded.pos {v : Number} {p n : Nat} {e : ℤ} (h : v.Rounded p n e) : 0 < n :=
  lt_of_lt_of_le (Nat.pow_pos (by decide)) h.low

/-- A rounded decimal that reads back. -/
structure Written (v : Number) (p n : Nat) (e : ℤ) : Prop extends v.Rounded p n e where
  reads : v.readsBack n (e - p)

/-- The shortest decimal, if the nearer neighbour on the first grid reads back. -/
theorem FirstAt.shortest_fair {v : Number} {p : Nat} (h : v.Regular) (hp : v.FirstAt p)
    (hfair : v.readsBack (v.digitsAt (v.decimalExponent - p)) (v.decimalExponent - p)) :
    ∃ n e, v.Written p n e ∧ v.shortest = (n, e - p) ∧
      (v.digitsAt (v.decimalExponent - p) = n ∧ e = v.decimalExponent ∨
        v.digitsAt (v.decimalExponent - p) = 10 ^ (p + 1) ∧ n = 10 ^ p ∧
          e = v.decimalExponent + 1) := by
  rcases hp.shortest_cases h (neighbour?_of_digitsAt hfair) with
    ⟨hshort, hlow, hhigh⟩ | ⟨rfl, hten, hshort⟩
  · exact ⟨_, v.decimalExponent, ⟨⟨hlow, hhigh, rfl⟩, hfair⟩, hshort, .inl ⟨rfl, rfl⟩⟩
  · rw [hten] at hfair
    refine ⟨1, v.decimalExponent + 1, ⟨⟨by decide, by decide, ?_⟩, ?_⟩, ?_, .inr ⟨hten, rfl, rfl⟩⟩
    · have hsucc := digitsAt_succ (t := 1) hten
      rwa [Nat.cast_zero, sub_zero] at hsucc ⊢
    · have hreads := (readsBack_ten_mul h 1 _).1 hfair
      rwa [Nat.cast_zero, sub_zero] at hreads ⊢
    · rw [hshort, Nat.cast_zero, sub_zero]

/-! ## Whole numbers -/

/-- Whole numbers below `2 ^ 53` are doubles, and even ones below `2 ^ 54`. -/
theorem exists_magnitude {d : Nat} (hpos : 0 < d) (hd : d < 2 ^ 53 ∨ d < 2 ^ 54 ∧ d % 2 = 0) :
    ∃ m, magnitudeValue m = d := by
  rcases Nat.lt_or_ge d (2 ^ 53) with hlt | hge
  · have hlow : 2 ^ d.log2 ≤ d := Nat.log2_self_le hpos.ne'
    have hhigh : d < 2 ^ (d.log2 + 1) := Nat.lt_log2_self
    have hlog : d.log2 ≤ 52 := by
      have := (Nat.pow_lt_pow_iff_right (by decide)).1 (hlow.trans_lt hlt)
      omega
    have hsplit : (2 : Nat) ^ 52 = 2 ^ d.log2 * 2 ^ (52 - d.log2) := by
      rw [← pow_add, Nat.add_sub_cancel' hlog]
    have hpow : 0 < 2 ^ (52 - d.log2) := Nat.pow_pos (by decide)
    rw [pow_succ] at hhigh
    refine ⟨(1022 + d.log2) * 2 ^ 52 + d * 2 ^ (52 - d.log2), ?_⟩
    rw [magnitudeValue_grid (by nlinarith) (.inr (by nlinarith))]
    have hexp : ((1022 + d.log2 : Nat) : ℤ) - 1074 = -((52 - d.log2 : Nat) : ℤ) := by omega
    rw [hexp, zpow_neg, zpow_natCast]
    push_cast
    rw [mul_assoc, mul_inv_cancel₀ (by positivity), mul_one]
  · refine ⟨1075 * 2 ^ 52 + d / 2, ?_⟩
    rw [magnitudeValue_grid (by omega) (.inr (by omega))]
    have htwo : d = d / 2 * 2 := by omega
    conv_rhs => rw [htwo]
    push_cast
    norm_num

/-- A double is rounded to itself. -/
theorem Reads.eq_of_magnitudeValue {v : Number} {m : Nat} (h : v.Reads (magnitudeValue m)) :
    v.value = magnitudeValue m := by
  have hle : midpoint (v.magnitude - 1) ≤ magnitudeValue m ∧
      magnitudeValue m ≤ midpoint v.magnitude := by
    unfold Reads at h
    split_ifs at h
    · exact h
    · exact ⟨h.1.le, h.2.le⟩
  rcases Nat.lt_trichotomy m v.magnitude with hlt | heq | hgt
  · have hmono := magnitudeValue_strictMono.monotone (by omega : m ≤ v.magnitude - 1)
    have hmid := magnitudeValue_lt_midpoint (v.magnitude - 1)
    linarith
  · rw [value, heq]
  · have hmono := magnitudeValue_strictMono.monotone (by omega : v.magnitude + 1 ≤ m)
    have hmid := midpoint_lt_magnitudeValue v.magnitude
    linarith

/-- A number of at least `2 ^ 53` is a whole number. -/
theorem exists_value_eq {v : Number} (h : 2 ^ 53 ≤ v.value) : ∃ d : Nat, v.value = d := by
  have hscale : 0 ≤ v.scale := by
    by_contra hneg
    have hle : v.ulp ≤ 1 := by
      rw [ulp, ← zpow_zero (2 : ℚ)]
      exact zpow_le_zpow_right₀ (by norm_num) (by omega)
    have hlt := v.value_lt
    linarith
  refine ⟨v.significand * 2 ^ v.scale.toNat, ?_⟩
  rw [value_eq, ulp, ← zpow_toNat hscale]
  push_cast
  rfl

/-- **A decimal without places after the point is exact** below `10 ^ 16`. -/
theorem Written.exact {v : Number} {p n j : Nat} {e : ℤ} (h : v.Regular) (hw : v.Written p n e)
    (hj : e = p + j) (he : e < 16) : v.value = (n * 10 ^ j : Nat) := by
  have hexp : e - p = j := by omega
  have hreads := hw.reads
  have hnear := hw.nearest
  have hd : 0 < n * 10 ^ j := Nat.mul_pos hw.pos (Nat.pow_pos (by decide))
  have hbound : n * 10 ^ j < 2 ^ 54 := by
    calc n * 10 ^ j < 10 ^ (p + 1) * 10 ^ j :=
          Nat.mul_lt_mul_of_pos_right hw.high (Nat.pow_pos (by decide))
      _ = 10 ^ (p + 1 + j) := (pow_add _ _ _).symm
      _ ≤ 10 ^ 16 := Nat.pow_le_pow_right (by decide) (by omega)
      _ ≤ 2 ^ 54 := by norm_num
  rw [readsBack_iff h, hexp, zpow_natCast] at hreads
  by_cases hrep : n * 10 ^ j < 2 ^ 53 ∨ n * 10 ^ j < 2 ^ 54 ∧ n * 10 ^ j % 2 = 0
  · obtain ⟨m, hm⟩ := exists_magnitude hd hrep
    push_cast at hm
    rw [← hm] at hreads
    rw [hreads.eq_of_magnitudeValue, hm]
    push_cast
    rfl
  · -- an odd number of sixteen digits: it is the value itself rounded, and the value is whole
    obtain rfl : j = 0 := by
      by_contra hne
      refine hrep (.inr ⟨hbound, ?_⟩)
      obtain ⟨i, rfl⟩ := Nat.exists_eq_succ_of_ne_zero hne
      rw [pow_succ, ← Nat.mul_assoc]
      omega
    rw [pow_zero, mul_one] at *
    obtain ⟨hlow, hhigh⟩ := v.digitsAt_bounds 0
    rw [hexp, Nat.cast_zero] at hnear
    rw [hnear, zpow_zero, mul_one] at hlow hhigh
    have hlarge : 2 ^ 53 < n := by omega
    have hlarge' : (2 : ℚ) ^ 53 + 1 ≤ n := by exact_mod_cast hlarge
    obtain ⟨d, hvalue⟩ := exists_value_eq (v := v) (by linarith)
    rw [hvalue] at hlow hhigh ⊢
    have h1 : (n : ℚ) < d + 1 := by linarith
    have h2 : (d : ℚ) < n + 1 := by linarith
    have h1' : n < d + 1 := by exact_mod_cast h1
    have h2' : d < n + 1 := by exact_mod_cast h2
    congr 1
    omega

/-! ## When the nearer neighbour does not read back -/

/-- **The nearer neighbour reads back if any does**, except at a power of two: the numbers below it
are denser, and so the nearer neighbour may lie below it and not read back, where the one above it
does. -/
theorem unfair_spec {v : Number} (h : v.Regular) {k : ℤ} (hfound : v.neighbour? k ≠ none)
    (hnot : ¬ v.readsBack (v.digitsAt k) k) :
    v.IsPower ∧ v.digitsAt k = v.floorAt k ∧ v.ulp / 4 < v.value - v.floorAt k * 10 ^ k ∧
      (v.floorAt k + 1) * 10 ^ k - v.value ≤ v.ulp / 2 := by
  obtain ⟨hfloor, hceil⟩ := v.floorAt_spec k
  have hulp := v.ulp_pos
  have habove := v.midpoint_above
  rw [ne_eq, neighbour?_eq_none_iff, ← not_or, not_not, readsBack_iff h, readsBack_iff h] at hfound
  rw [readsBack_iff h] at hnot
  push_cast at hfound
  rcases v.digitsAt_cases k with ⟨heq, hnear⟩ | ⟨heq, hnear⟩
  · rw [heq] at hnot
    have hupper := hfound.resolve_left hnot
    by_cases hpower : v.IsPower
    · rw [hpower.reads_iff] at hnot hupper
      refine ⟨hpower, heq, ?_, by linarith⟩
      by_contra hle
      exact hnot ⟨by linarith, by linarith⟩
    · -- the interval is symmetric
      refine absurd ?_ hnot
      unfold Reads at hupper ⊢
      rw [midpoint_below h hpower, habove] at *
      split_ifs at * <;> constructor <;> linarith
  · rw [heq] at hnot
    push_cast at hnot
    have hlower := hfound.resolve_right hnot
    refine absurd ?_ hnot
    by_cases hpower : v.IsPower
    · rw [hpower.reads_iff] at hlower ⊢
      constructor <;> linarith
    · unfold Reads at hlower ⊢
      rw [midpoint_below h hpower, habove] at *
      split_ifs at * <;> constructor <;> linarith

end Number

end TinyLang
