import Mathlib.Algebra.Order.Group.Int
import Mathlib.Data.List.Lex
import TinyLang.Version

/-!
# The order of versions

Versions are ordered by their parts, as lists of integers: the first part that differs decides. They
are compared by the signs of differences between 64-bit integers, and such a difference has the wrong
sign if it wraps around.

* `Version.Near`: the difference that decides does not wrap around.
* `Version.compare_eq`: between versions that are near the comparison follows the order, and between
  others it is the wrong way round.
* `Version.near_of_nonneg`: versions without negative parts are near.
* `comparison_follows_order_iff`: the headline. Which laws of an order the comparison has, and between
  which versions.
-/

namespace TinyLang

/-! ## Signs -/

section Sign

variable {α : Type} [LinearOrder α] {a b c : α}

/-- -1, 0 or 1, as the first value is less than, equal to or greater than the second. -/
def orderSign (a b : α) : Int := if a < b then -1 else if b < a then 1 else 0

theorem orderSign_of_lt (h : a < b) : orderSign a b = -1 := if_pos h

theorem orderSign_self (a : α) : orderSign a a = 0 := by
  simp [orderSign]

theorem orderSign_of_gt (h : b < a) : orderSign a b = 1 := by
  rw [orderSign, if_neg h.not_gt, if_pos h]

theorem orderSign_eq_zero : orderSign a b = 0 ↔ a = b := by
  rcases lt_trichotomy a b with h | rfl | h
  · simp [orderSign_of_lt h, h.ne]
  · simp [orderSign_self]
  · simp [orderSign_of_gt h, h.ne']

theorem orderSign_nonpos : orderSign a b ≤ 0 ↔ a ≤ b := by
  rcases lt_trichotomy a b with h | rfl | h
  · simp [orderSign_of_lt h, h.le]
  · simp [orderSign_self]
  · simp [orderSign_of_gt h, h]

theorem orderSign_swap (a b : α) : orderSign a b = -orderSign b a := by
  rcases lt_trichotomy a b with h | rfl | h
  · rw [orderSign_of_lt h, orderSign_of_gt h]
  · rw [orderSign_self, neg_zero]
  · rw [orderSign_of_lt h, orderSign_of_gt h, neg_neg]

theorem orderSign_nonneg : 0 ≤ orderSign a b ↔ b ≤ a := by
  rw [orderSign_swap, Int.neg_nonneg, orderSign_nonpos]

/-- Of two lists the first values that differ decide. -/
theorem orderSign_cons (x y : α) (xs ys : List α) :
    orderSign (x :: xs) (y :: ys) = if x = y then orderSign xs ys else orderSign x y := by
  rcases lt_trichotomy x y with h | rfl | h
  · rw [if_neg h.ne, orderSign_of_lt h, orderSign_of_lt (List.cons_lt_cons_iff.mpr (.inl h))]
  · rw [if_pos rfl]
    rcases lt_trichotomy xs ys with h | rfl | h
    · rw [orderSign_of_lt h, orderSign_of_lt (List.cons_lt_cons_iff.mpr (.inr ⟨rfl, h⟩))]
    · rw [orderSign_self, orderSign_self]
    · rw [orderSign_of_gt h, orderSign_of_gt (List.cons_lt_cons_iff.mpr (.inr ⟨rfl, h⟩))]
  · rw [if_neg h.ne', orderSign_of_gt h, orderSign_of_gt (List.cons_lt_cons_iff.mpr (.inl h))]

end Sign

/-! ## Differences -/

/-- The difference of two 64-bit integers is one too. -/
def Fits (x y : Int64) : Prop := -2 ^ 63 ≤ x.toInt - y.toInt ∧ x.toInt - y.toInt < 2 ^ 63

instance (x y : Int64) : Decidable (Fits x y) := inferInstanceAs (Decidable (_ ∧ _))

/-- A difference that wraps around has the wrong sign. -/
theorem orderSign_sub (x y : Int64) :
    orderSign (x - y).toInt 0 =
      if Fits x y then orderSign x.toInt y.toInt else -orderSign x.toInt y.toInt := by
  have hx := x.le_toInt
  have hx' := x.toInt_lt
  have hy := y.le_toInt
  have hy' := y.toInt_lt
  rw [Int64.toInt_sub, Int.bmod_def]
  unfold Fits orderSign
  split_ifs <;> omega

theorem firstSign_cons (d : Int64) (ds : List Int64) :
    Version.firstSign (d :: ds) =
      if orderSign d.toInt 0 = 0 then Version.firstSign ds else orderSign d.toInt 0 := by
  rw [Version.firstSign]
  simp only [Int64.lt_iff_toInt_lt, Int64.toInt_zero]
  rcases lt_trichotomy d.toInt 0 with h | h | h
  · simp [orderSign_of_lt h, h]
  · simp [h, orderSign_self]
  · simp [orderSign_of_gt h, h, h.not_gt]

/-- Of two lists the first numbers that differ have a difference that does not wrap around. -/
def NearLists : List Int64 → List Int64 → Prop
  | x :: xs, y :: ys => if x = y then NearLists xs ys else Fits x y
  | _, _ => True

instance NearLists.decidable : (xs ys : List Int64) → Decidable (NearLists xs ys)
  | [], _ => .isTrue (by simp [NearLists])
  | _ :: _, [] => .isTrue (by simp [NearLists])
  | x :: xs, y :: ys =>
    have := NearLists.decidable xs ys
    inferInstanceAs (Decidable (if x = y then NearLists xs ys else Fits x y))

/-- **The first sign among differences** is that of the order if the lists are near, and the opposite
one otherwise. -/
theorem firstSign_zipWith {xs ys : List Int64} (h : xs.length = ys.length) :
    Version.firstSign (List.zipWith (· - ·) xs ys) =
      if NearLists xs ys then orderSign (xs.map Int64.toInt) (ys.map Int64.toInt)
      else -orderSign (xs.map Int64.toInt) (ys.map Int64.toInt) := by
  induction xs generalizing ys with
  | nil =>
    obtain rfl := List.eq_nil_of_length_eq_zero h.symm
    simp [Version.firstSign, NearLists, orderSign]
  | cons x xs ih =>
    cases ys with
    | nil => cases h
    | cons y ys =>
      rw [List.zipWith_cons_cons, firstSign_cons, ih (Nat.succ.inj h), orderSign_sub, List.map_cons,
        List.map_cons, orderSign_cons]
      by_cases heq : x = y
      · subst heq
        simp [NearLists, orderSign_self]
      · have hne : ¬ x.toInt = y.toInt := mt Int64.toInt_inj.mp heq
        have hsign : orderSign x.toInt y.toInt ≠ 0 := mt orderSign_eq_zero.mp hne
        simp only [NearLists, heq, hne, if_false]
        rw [if_neg]
        split_ifs
        · exact hsign
        · exact neg_ne_zero.mpr hsign

theorem nearLists_of_nonneg {xs ys : List Int64} (hxs : ∀ x ∈ xs, 0 ≤ x) (hys : ∀ y ∈ ys, 0 ≤ y) :
    NearLists xs ys := by
  induction xs generalizing ys with
  | nil => simp [NearLists]
  | cons x xs ih =>
    cases ys with
    | nil => simp [NearLists]
    | cons y ys =>
      obtain ⟨hx, hxs⟩ := List.forall_mem_cons.mp hxs
      obtain ⟨hy, hys⟩ := List.forall_mem_cons.mp hys
      rw [NearLists]
      split_ifs
      · exact ih hxs hys
      · rw [Int64.le_iff_toInt_le, Int64.toInt_zero] at hx hy
        have hx' := x.toInt_lt
        have hy' := y.toInt_lt
        unfold Fits
        omega

/-! ## Versions -/

namespace Version

variable {a b c : Version}

/-- The parts of a version, from the one that weighs most. -/
def parts (v : Version) : List Int64 :=
  [v.major, v.minor, v.patch, stageRank v.stage, v.stageNumber]

/-- What versions are ordered by. -/
def key (v : Version) : List Int := v.parts.map Int64.toInt

/-- The first parts that differ have a difference that does not wrap around. -/
def Near (a b : Version) : Prop := NearLists a.parts b.parts

instance (a b : Version) : Decidable (a.Near b) := inferInstanceAs (Decidable (NearLists _ _))

/-- No part is negative. -/
structure Nonneg (v : Version) : Prop where
  major : 0 ≤ v.major
  minor : 0 ≤ v.minor
  patch : 0 ≤ v.patch
  stageNumber : 0 ≤ v.stageNumber

theorem key_injective : Function.Injective key := by
  intro a b h
  have hparts : a.parts = b.parts := List.map_injective_iff.mpr (fun _ _ => Int64.toInt_inj.mp) h
  obtain ⟨major, minor, patch, stage, number⟩ := a
  obtain ⟨major', minor', patch', stage', number'⟩ := b
  simp only [parts, List.cons.injEq, and_true] at hparts
  obtain ⟨rfl, rfl, rfl, hstage, rfl⟩ := hparts
  cases stage <;> cases stage' <;> first | rfl | exact absurd hstage (by decide)

/-- **What a comparison gives**: the sign of the order between versions that are near, and the opposite
one between others. -/
theorem compare_eq (a b : Version) :
    a.compare b = if a.Near b then orderSign a.key b.key else -orderSign a.key b.key :=
  firstSign_zipWith (show a.parts.length = b.parts.length from rfl)

theorem compare_of_near (h : a.Near b) : a.compare b = orderSign a.key b.key := by
  rw [compare_eq, if_pos h]

theorem compare_eq_zero : a.compare b = 0 ↔ a = b := by
  rw [compare_eq, ← key_injective.eq_iff, ← orderSign_eq_zero (a := a.key)]
  split_ifs
  · rfl
  · exact neg_eq_zero

theorem near_of_nonneg (ha : a.Nonneg) (hb : b.Nonneg) : a.Near b := by
  have hparts : ∀ {v : Version}, v.Nonneg → ∀ x ∈ v.parts, 0 ≤ x := by
    intro v hv
    have hstage : 0 ≤ stageRank v.stage := by cases v.stage <;> decide
    simpa [parts, hstage] using ⟨hv.major, hv.minor, hv.patch, hv.stageNumber⟩
  exact nearLists_of_nonneg (hparts ha) (hparts hb)

theorem near_refl (a : Version) : a.Near a := by
  simp [Near, parts, NearLists]

theorem orderSign_ne_zero_of_not_near (h : ¬ a.Near b) : orderSign a.key b.key ≠ 0 := by
  intro hzero
  obtain rfl := key_injective (orderSign_eq_zero.mp hzero)
  exact h a.near_refl

theorem compare_eq_orderSign_iff : a.compare b = orderSign a.key b.key ↔ a.Near b := by
  refine ⟨fun h => ?_, compare_of_near⟩
  by_contra hnear
  have hsign := orderSign_ne_zero_of_not_near hnear
  rw [compare_eq, if_neg hnear] at h
  omega

theorem compare_swap_iff : a.compare b = -b.compare a ↔ (a.Near b ↔ b.Near a) := by
  have hswap := orderSign_swap a.key b.key
  rw [compare_eq, compare_eq b]
  by_cases hab : a.Near b <;> by_cases hba : b.Near a
  · refine iff_of_true ?_ (iff_of_true hab hba)
    rw [if_pos hab, if_pos hba, hswap]
  · have hsign := orderSign_ne_zero_of_not_near hba
    refine iff_of_false ?_ fun h => hba (h.mp hab)
    rw [if_pos hab, if_neg hba]
    omega
  · have hsign := orderSign_ne_zero_of_not_near hab
    refine iff_of_false ?_ fun h => hab (h.mpr hba)
    rw [if_neg hab, if_pos hba]
    omega
  · refine iff_of_true ?_ (iff_of_false hab hba)
    rw [if_neg hab, if_neg hba, hswap]

/-- Along an ascending chain the comparison of the ends is right exactly if they are near. -/
theorem compare_trans_iff (hab : a.Near b) (hbc : b.Near c) (h : a.compare b ≤ 0)
    (h' : b.compare c ≤ 0) : a.compare c ≤ 0 ↔ a.Near c := by
  rw [compare_of_near hab, orderSign_nonpos] at h
  rw [compare_of_near hbc, orderSign_nonpos] at h'
  have hac := orderSign_nonpos.mpr (h.trans h')
  by_cases hnear : a.Near c
  · simpa only [compare_of_near hnear, hnear, iff_true] using hac
  · have hsign := orderSign_ne_zero_of_not_near hnear
    rw [compare_eq, if_neg hnear]
    simp only [hnear, iff_false]
    omega

end Version

/-- **Where a comparison follows the order of versions.** It is the sign of the order exactly between
versions that are near. It gives opposite answers both ways round exactly if both ways are near or
neither is, and it is zero exactly between equal versions. Where it has two versions in ascending
order and a third one behind them, all of them near their neighbours, it has the first and the third
in that order exactly if these are near too. Versions without negative parts are always near. -/
theorem comparison_follows_order_iff (a b c : Version) :
    (a.compare b = orderSign a.key b.key ↔ a.Near b) ∧
    (a.compare b = -b.compare a ↔ (a.Near b ↔ b.Near a)) ∧
    (a.compare b = 0 ↔ a = b) ∧
    (a.Near b → b.Near c → a.compare b ≤ 0 → b.compare c ≤ 0 → (a.compare c ≤ 0 ↔ a.Near c)) ∧
    (a.Nonneg → b.Nonneg → a.Near b) :=
  ⟨Version.compare_eq_orderSign_iff, Version.compare_swap_iff, Version.compare_eq_zero,
    Version.compare_trans_iff, Version.near_of_nonneg⟩

/-- An alpha, a beta and the release that they lead up to. -/
theorem comparison_follows_order_iff_stages :
    ∃ a b c, Version.read "1.2.3-alpha.7" = .ok a ∧ Version.read "1.2.3-beta" = .ok b ∧
      Version.read "v1.2.3" = .ok c ∧ a.Nonneg ∧ b.Nonneg ∧ a.compare b = -1 ∧ b.compare c = -1 ∧
      a.Near b ∧ a.compare b = orderSign a.key b.key ∧ a.compare b = -b.compare a ∧
      a.compare c ≤ 0 := by
  let a : Version := ⟨1, 2, 3, .alpha, 7⟩
  let b : Version := ⟨1, 2, 3, .beta, 0⟩
  let c : Version := ⟨1, 2, 3, .release, 0⟩
  have ha : a.Nonneg := ⟨by decide, by decide, by decide, by decide⟩
  have hb : b.Nonneg := ⟨by decide, by decide, by decide, by decide⟩
  obtain ⟨hsign, hswap, -, htrans, hnear⟩ := comparison_follows_order_iff a b c
  have hab : a.compare b = -1 := by decide
  have hbc : b.compare c = -1 := by decide
  exact ⟨a, b, c, rfl, rfl, rfl, ha, hb, hab, hbc, hnear ha hb, hsign.mpr (hnear ha hb),
    hswap.mpr (by decide), (htrans (hnear ha hb) (by decide) (by decide) (by decide)).mpr (by decide)⟩

/-- Differences that wrap around: the greatest number is before -1, zero and the least number are each
before the other, and three versions in ascending order go round in a circle. -/
theorem comparison_of_distant_versions :
    (∃ a b, Version.read "9223372036854775807.0.0" = .ok a ∧ Version.read "-1.0.0" = .ok b ∧
      b.key < a.key ∧ a.compare b = -1) ∧
    (∃ a b, Version.read "0.0.0" = .ok a ∧ Version.read "-9223372036854775808.0.0" = .ok b ∧
      a.compare b = -1 ∧ b.compare a = -1) ∧
    ∃ a b c, Version.read "-6000000000000000000.0.0" = .ok a ∧ Version.read "0.0.0" = .ok b ∧
      Version.read "6000000000000000000.0.0" = .ok c ∧
      a.compare b = -1 ∧ b.compare c = -1 ∧ c.compare a = -1 :=
  ⟨⟨⟨9223372036854775807, 0, 0, .release, 0⟩, ⟨-1, 0, 0, .release, 0⟩, rfl, rfl, by decide, by decide⟩,
    ⟨⟨0, 0, 0, .release, 0⟩, ⟨-9223372036854775808, 0, 0, .release, 0⟩, rfl, rfl, by decide,
      by decide⟩,
    ⟨-6000000000000000000, 0, 0, .release, 0⟩, ⟨0, 0, 0, .release, 0⟩,
    ⟨6000000000000000000, 0, 0, .release, 0⟩, rfl, rfl, rfl, by decide, by decide, by decide⟩

end TinyLang
