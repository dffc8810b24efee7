import TinyLang.Proofs.Text.Trim
import TinyLang.Proofs.Version.Order
import TinyLang.Proofs.Version.ReadBack

/-!
# What constraints mean

A constraint is an operator and a version, with white space around both. It is taken apart where it was
put together: a version begins with no byte of an operator, and no operator is followed by the byte
that would make it a longer one.

* `Constraint.Spells`: the texts of a constraint. `Constraint.read_of_spells` reads them.
* `Bound.Holds`: the relation that an operator names. `Constraint.admits_iff` compares it with what is
  computed, and `Bound.Holds.between` says that it holds of all versions between two.
* `constraints_mean_what_they_say`: the headline, for versions without negative parts.
-/

namespace TinyLang

open Text (byte)

/-! ## Relations between versions -/

/-- The relation to the version of a constraint that its bound names. -/
def Bound.Holds (v c : Version) : Bound → Prop
  | .same => v = c
  | .atLeast => c.key ≤ v.key
  | .atMost => v.key ≤ c.key
  | .above => c.key < v.key
  | .below => v.key < c.key
  | .sameMinor => c.key ≤ v.key ∧ v.major = c.major ∧ v.minor = c.minor
  | .sameMajor => c.key ≤ v.key ∧ v.major = c.major

instance Bound.Holds.decidable (v c : Version) : (bound : Bound) → Decidable (bound.Holds v c)
  | .same => inferInstanceAs (Decidable (v = c))
  | .atLeast => inferInstanceAs (Decidable (c.key ≤ v.key))
  | .atMost => inferInstanceAs (Decidable (v.key ≤ c.key))
  | .above => inferInstanceAs (Decidable (c.key < v.key))
  | .below => inferInstanceAs (Decidable (v.key < c.key))
  | .sameMinor => inferInstanceAs (Decidable (_ ∧ _ ∧ _))
  | .sameMajor => inferInstanceAs (Decidable (_ ∧ _))

/-- **A constraint admits the versions that stand in its relation**, if no difference wraps around. -/
theorem Constraint.admits_iff {c : Constraint} {v : Version} (h : v.Near c.version) :
    c.admits v = true ↔ c.bound.Holds v c.version := by
  obtain ⟨bound, c⟩ := c
  unfold admits
  cases bound with
  | same => simp [Bound.Holds, Version.compare_eq_zero]
  | atLeast => simp [Bound.Holds, Version.compare_of_near h, orderSign_nonneg]
  | atMost => simp [Bound.Holds, Version.compare_of_near h, orderSign_nonpos]
  | above => simp [Bound.Holds, Version.compare_of_near h, ← not_le, orderSign_nonpos]
  | below => simp [Bound.Holds, Version.compare_of_near h, ← not_le, orderSign_nonneg]
  | sameMinor => simp [Bound.Holds, Version.compare_of_near h, orderSign_nonneg, and_assoc]
  | sameMajor => simp [Bound.Holds, Version.compare_of_near h, orderSign_nonneg]

namespace Version

variable {a b c : Version}

theorem major_le (h : a.key ≤ b.key) : a.major.toInt ≤ b.major.toInt := by
  by_contra hlt
  exact absurd h (not_le.mpr (List.cons_lt_cons_iff.mpr (.inl (not_le.mp hlt))))

theorem minor_le (hmajor : a.major = b.major) (h : a.key ≤ b.key) :
    a.minor.toInt ≤ b.minor.toInt := by
  by_contra hlt
  refine absurd h (not_le.mpr (List.cons_lt_cons_iff.mpr (.inr ⟨congrArg _ hmajor.symm, ?_⟩)))
  exact List.cons_lt_cons_iff.mpr (.inl (not_le.mp hlt))

/-- A version between two of one major number has that number. -/
theorem major_between (h : a.key ≤ b.key) (h' : b.key ≤ c.key) (hmajor : a.major = c.major) :
    b.major = c.major := by
  have hle := major_le h
  have hle' := major_le h'
  rw [hmajor] at hle
  exact Int64.toInt_inj.mp (le_antisymm hle' hle)

/-- A version between two of one major and minor number has that minor number. -/
theorem minor_between (h : a.key ≤ b.key) (h' : b.key ≤ c.key) (hmajor : a.major = c.major)
    (hminor : a.minor = c.minor) : b.minor = c.minor := by
  have hbetween := major_between h h' hmajor
  have hle := minor_le (hmajor.trans hbetween.symm) h
  have hle' := minor_le hbetween h'
  rw [hminor] at hle
  exact Int64.toInt_inj.mp (le_antisymm hle' hle)

end Version

/-- **The versions of which a bound holds have no gaps.** -/
theorem Bound.Holds.between {bound : Bound} {low v high c : Version} (hlow : bound.Holds low c)
    (hhigh : bound.Holds high c) (h : low.key ≤ v.key) (h' : v.key ≤ high.key) :
    bound.Holds v c := by
  cases bound with
  | same =>
    obtain rfl : low = c := hlow
    obtain rfl : high = low := hhigh
    exact Version.key_injective (le_antisymm h' h)
  | atLeast => exact le_trans hlow h
  | atMost => exact le_trans h' hhigh
  | above => exact lt_of_lt_of_le hlow h
  | below => exact lt_of_le_of_lt h' hhigh
  | sameMinor =>
    obtain ⟨hle, hmajor, hminor⟩ := hlow
    obtain ⟨-, hmajor', hminor'⟩ := hhigh
    exact ⟨hle.trans h, (Version.major_between h h' (hmajor.trans hmajor'.symm)).trans hmajor',
      (Version.minor_between h h' (hmajor.trans hmajor'.symm) (hminor.trans hminor'.symm)).trans
        hminor'⟩
  | sameMajor =>
    obtain ⟨hle, hmajor⟩ := hlow
    obtain ⟨-, hmajor'⟩ := hhigh
    exact ⟨hle.trans h, (Version.major_between h h' (hmajor.trans hmajor'.symm)).trans hmajor'⟩

/-! ## Texts -/

/-- How a bound is written in front of a version. -/
def Bound.spelling : Bound → Text
  | .same => ""
  | .atLeast => ">="
  | .atMost => "<="
  | .above => ">"
  | .below => "<"
  | .sameMinor => "~"
  | .sameMajor => "^"

namespace Constraint

/-- The text is that of a constraint, with white space around the operator and the version. -/
def Spells (t : Text) (bound : Bound) (c : Version) : Prop :=
  ∃ before between after : Text, before.IsSpace ∧ between.IsSpace ∧ after.IsSpace ∧
    t = before ++ bound.spelling ++ between ++ c.text ++ after

/-- An operator is split off where it ends. -/
theorem takeBound_operator {bound : Bound} (h : bound ≠ .same) {b : UInt8} (hb : b ≠ byte '=')
    (r : Text) : takeBound (bound.spelling ++ b :: r) = (bound, Text.trim (b :: r)) := by
  -- an operator of one byte is not taken for the longer one that begins with it
  have hlonger : ∀ x y : UInt8, Text.startsWith (x :: b :: r) [y, byte '='] = false := by
    intro x y
    have hne : (byte '=' == b) = false := beq_false_of_ne (Ne.symm hb)
    show (y == x && (byte '=' == b && _)) = false
    rw [hne, Bool.false_and, Bool.and_false]
  have hatLeast : ∀ x : UInt8, Text.startsWith (x :: b :: r) (Text.ofString ">=") = false :=
    fun x => hlonger x _
  have hatMost : ∀ x : UInt8, Text.startsWith (x :: b :: r) (Text.ofString "<=") = false :=
    fun x => hlonger x _
  cases bound with
  | same => exact absurd rfl h
  | atLeast => rfl
  | atMost => rfl
  | sameMinor => rfl
  | sameMajor => rfl
  | above =>
    show takeBound (byte '>' :: b :: r) = _
    simp only [takeBound, spellings, List.find?_cons, hatLeast, hatMost]
    rfl
  | below =>
    show takeBound (byte '<' :: b :: r) = _
    simp only [takeBound, spellings, List.find?_cons, hatLeast, hatMost]
    rfl

/-- The bytes that operators are made of. -/
def isOperatorByte (b : UInt8) : Bool := b ∈ (">=<~^" : Text)

/-- No operator is split off a text that begins with no byte of one. -/
theorem takeBound_same {b : UInt8} (hb : isOperatorByte b = false) (r : Text) :
    takeBound (b :: r) = (.same, b :: r) := by
  have hspellings : ∀ e ∈ spellings, ∃ x s, Text.ofString e.1 = x :: s ∧ isOperatorByte x = true := by
    simp only [spellings, List.forall_mem_cons]
    exact ⟨⟨_, _, rfl, by decide⟩, ⟨_, _, rfl, by decide⟩, ⟨_, _, rfl, by decide⟩,
      ⟨_, _, rfl, by decide⟩, ⟨_, _, rfl, by decide⟩, ⟨_, _, rfl, by decide⟩, List.forall_mem_nil _⟩
  have hnone : (spellings.find? fun e => Text.startsWith (b :: r) (Text.ofString e.1)) = none := by
    refine List.find?_eq_none.mpr fun e he => ?_
    obtain ⟨x, s, heq, hx⟩ := hspellings e he
    have hne : (x == b) = false := by
      refine beq_false_of_ne ?_
      rintro rfl
      rw [hx] at hb
      cases hb
    rw [heq, Text.startsWith, List.isPrefixOf, hne]
    exact Bool.false_ne_true
  unfold takeBound
  rw [hnone]

end Constraint

/-! ## Versions as text -/

/-- A digit or a dash. -/
def isPartByte (b : UInt8) : Bool := Text.isDigit b || b == byte '-'

theorem isPartByte_spec : ∀ b : UInt8, isPartByte b = true →
    b < 0x80 ∧ Text.isSpaceByte b = false ∧ Constraint.isOperatorByte b = false :=
  Text.forall_byte (by decide +kernel)

namespace Version

theorem isPartByte_of_mem {n : Int64} {b : UInt8} (h : b ∈ partText n) : isPartByte b = true := by
  rcases Text.mem_ofInt h with h | ⟨rfl, -⟩
  · rw [isPartByte, h, Bool.true_or]
  · decide

theorem text_eq_cons (v : Version) : ∃ b r, v.text = b :: r ∧ isPartByte b = true := by
  obtain ⟨b, r, heq⟩ := List.exists_cons_of_ne_nil (partText_ne_nil v.major)
  refine ⟨b, _, by rw [text_eq, heq, List.cons_append], isPartByte_of_mem (n := v.major) ?_⟩
  rw [heq]
  exact List.mem_cons_self

theorem text_eq_snoc (v : Version) : ∃ s b, v.text = s ++ [b] ∧ isPartByte b = true := by
  have hlast : ∃ s n, v.text = s ++ partText n := by
    rw [text_eq, tailText]
    split
    · exact ⟨partText v.major ++ byte '.' :: (partText v.minor ++ [byte '.']), v.patch, by simp⟩
    · exact ⟨partText v.major ++ byte '.' :: (partText v.minor ++ byte '.' :: (partText v.patch ++
        byte '-' :: (stageWord v.stage ++ [byte '.']))), v.stageNumber, by simp⟩
  obtain ⟨s, n, htext⟩ := hlast
  rcases List.eq_nil_or_concat (partText n) with hnil | ⟨ds, b, heq⟩
  · exact absurd hnil (partText_ne_nil n)
  · rw [List.concat_eq_append] at heq
    refine ⟨s ++ ds, b, by rw [htext, heq, List.append_assoc], isPartByte_of_mem (n := n) ?_⟩
    rw [heq]
    exact List.mem_append_right _ List.mem_cons_self

theorem solid_text (v : Version) : v.text.Solid := by
  obtain ⟨b, r, heq, hb⟩ := v.text_eq_cons
  obtain ⟨u, e, heq', he⟩ := v.text_eq_snoc
  exact ⟨⟨b, r, heq, (isPartByte_spec b hb).1, (isPartByte_spec b hb).2.1⟩,
    ⟨u, e, heq', (isPartByte_spec e he).1, (isPartByte_spec e he).2.1⟩⟩

end Version

/-! ## Reading -/

theorem Bound.spelling_eq_cons {bound : Bound} (h : bound ≠ .same) :
    ∃ b s, bound.spelling = b :: s ∧ b < 0x80 ∧ Text.isSpaceByte b = false := by
  cases bound with
  | same => exact absurd rfl h
  | _ => exact ⟨_, _, rfl, by decide, by decide⟩

namespace Constraint

/-- White space and a version behind it do not begin with what would make an operator longer. -/
theorem exists_cons {between : Text} (h : between.IsSpace) (c : Version) :
    ∃ b r, between ++ c.text = b :: r ∧ b ≠ byte '=' := by
  cases between with
  | nil =>
    obtain ⟨b, r, heq, hb⟩ := c.text_eq_cons
    refine ⟨b, r, heq, ?_⟩
    rintro rfl
    exact absurd hb (by decide)
  | cons b s =>
    refine ⟨b, s ++ c.text, rfl, ?_⟩
    rintro rfl
    have hspace := h _ (Text.mem_runes_of_ascii List.mem_cons_self (by decide))
    exact absurd hspace (by decide)

theorem takeBound_trim {before between after : Text} (hbefore : before.IsSpace)
    (hbetween : between.IsSpace) (hafter : after.IsSpace) (bound : Bound) (c : Version) :
    takeBound (before ++ bound.spelling ++ between ++ c.text ++ after).trim = (bound, c.text) := by
  by_cases hsame : bound = .same
  · subst hsame
    obtain ⟨b, r, heq, hb⟩ := c.text_eq_cons
    have htrim := Text.trim_solid (hbefore.append hbetween) hafter c.solid_text
    have hspelling : before ++ Bound.same.spelling ++ between = before ++ between := by
      rw [show Bound.same.spelling = [] from rfl, List.append_nil]
    rw [hspelling, htrim, heq, takeBound_same (isPartByte_spec b hb).2.2]
  · obtain ⟨x, s, hspelling, hx, hxspace⟩ := Bound.spelling_eq_cons hsame
    obtain ⟨b, r, hrest, hb⟩ := exists_cons hbetween c
    have hsolid : Text.Solid (bound.spelling ++ (between ++ c.text)) := by
      obtain ⟨u, e, heq, he, hespace⟩ := c.solid_text.last
      refine ⟨⟨x, s ++ (between ++ c.text), by rw [hspelling]; rfl, hx, hxspace⟩,
        ⟨bound.spelling ++ (between ++ u), e, by simp [heq], he, hespace⟩⟩
    have htext : before ++ bound.spelling ++ between ++ c.text ++ after =
        before ++ (bound.spelling ++ (between ++ c.text)) ++ after := by simp
    have htrim := Text.trim_solid hbetween .nil c.solid_text
    rw [List.append_nil, hrest] at htrim
    rw [htext, Text.trim_solid hbefore hafter hsolid, hrest, takeBound_operator hsame hb, htrim]

/-- **A constraint is read** from each of its texts. -/
theorem read_of_spells {t : Text} {bound : Bound} {c : Version} (hc : c.Canonical)
    (h : Spells t bound c) : read t = .ok ⟨bound, c⟩ := by
  obtain ⟨before, between, after, hbefore, hbetween, hafter, rfl⟩ := h
  unfold read
  rw [takeBound_trim hbefore hbetween hafter]
  exact bind_eq_ok.mpr ⟨c, Version.read_text hc, rfl⟩

theorem spells_plain (bound : Bound) (c : Version) : Spells (bound.spelling ++ c.text) bound c :=
  ⟨[], [], [], .nil, .nil, .nil, by simp⟩

end Constraint

/-- A version that has been read and has no negative part. -/
structure Version.Ordinary (v : Version) : Prop where
  read : ∃ t, Version.read t = .ok v
  nonneg : v.Nonneg

section Satisfies

variable {v c : Version} {t : Text} {bound : Bound}

theorem Version.satisfies_eq (hv : v.Ordinary) (hc : c.Ordinary) (h : Constraint.Spells t bound c) :
    v.satisfies t = .ok (decide (bound.Holds v c)) := by
  obtain ⟨_, hread⟩ := hc.read
  have hnear : v.Near c := Version.near_of_nonneg hv.nonneg hc.nonneg
  have hadmits : Constraint.admits ⟨bound, c⟩ v = decide (bound.Holds v c) := by
    rw [Bool.eq_iff_iff, Constraint.admits_iff hnear, decide_eq_true_eq]
  rw [← hadmits]
  exact bind_eq_ok.mpr ⟨_, Constraint.read_of_spells (Version.canonical_of_read hread) h, rfl⟩

theorem Version.satisfies_iff (hv : v.Ordinary) (hc : c.Ordinary)
    (h : Constraint.Spells t bound c) : v.satisfies t = .ok true ↔ bound.Holds v c := by
  rw [Version.satisfies_eq hv hc h, Except.ok.injEq, decide_eq_true_eq]

end Satisfies

/-- Of three bounds exactly one holds. -/
theorem Bound.existsUnique_holds (v c : Version) :
    ∃! bound : Bound, (bound = .below ∨ bound = .same ∨ bound = .above) ∧ bound.Holds v c := by
  rcases lt_trichotomy v.key c.key with h | h | h
  · refine ⟨.below, ⟨.inl rfl, h⟩, ?_⟩
    rintro _ ⟨rfl | rfl | rfl, hholds⟩
    · rfl
    · obtain rfl : v = c := hholds
      exact absurd h (lt_irrefl _)
    · exact absurd hholds h.not_gt
  · refine ⟨.same, ⟨.inr (.inl rfl), Version.key_injective h⟩, ?_⟩
    rintro _ ⟨rfl | rfl | rfl, hholds⟩
    · exact absurd h (ne_of_lt hholds)
    · rfl
    · exact absurd h (ne_of_gt hholds)
  · refine ⟨.above, ⟨.inr (.inr rfl), h⟩, ?_⟩
    rintro _ ⟨rfl | rfl | rfl, hholds⟩
    · exact absurd hholds h.not_gt
    · obtain rfl : v = c := hholds
      exact absurd h (lt_irrefl _)
    · rfl

/-- **Constraints mean what they say**, for versions without negative parts. However a constraint is
spaced, it is read without an error, and a version satisfies it exactly if it stands in the relation
that the operator names. So `~` is stricter than `^`, and `^` is stricter than `>=`. A version is below
another, the same or above it, and only one of these. What lies between two versions that satisfy a
constraint satisfies it too. -/
theorem constraints_mean_what_they_say {v c : Version} (hv : v.Ordinary) (hc : c.Ordinary) :
    (∀ bound t, Constraint.Spells t bound c → v.satisfies t = .ok (decide (bound.Holds v c))) ∧
    (∀ t t', Constraint.Spells t .sameMinor c → Constraint.Spells t' .sameMajor c →
      v.satisfies t = .ok true → v.satisfies t' = .ok true) ∧
    (∀ t t', Constraint.Spells t .sameMajor c → Constraint.Spells t' .atLeast c →
      v.satisfies t = .ok true → v.satisfies t' = .ok true) ∧
    (∃! bound : Bound, (bound = .below ∨ bound = .same ∨ bound = .above) ∧
      ∀ t, Constraint.Spells t bound c → v.satisfies t = .ok true) ∧
    ∀ (bound : Bound) (t : Text) (low high : Version), low.Ordinary → high.Ordinary →
      Constraint.Spells t bound c →
      low.key ≤ v.key → v.key ≤ high.key → low.satisfies t = .ok true →
      high.satisfies t = .ok true → v.satisfies t = .ok true := by
  have hiff : ∀ bound, (∀ t, Constraint.Spells t bound c → v.satisfies t = .ok true) ↔
      bound.Holds v c := by
    intro bound
    have hplain := Constraint.spells_plain bound c
    exact ⟨fun h => (Version.satisfies_iff hv hc hplain).mp (h _ hplain),
      fun h t ht => (Version.satisfies_iff hv hc ht).mpr h⟩
  refine ⟨fun bound t => Version.satisfies_eq hv hc, fun t t' ht ht' h => ?_,
    fun t t' ht ht' h => ?_, ?_, fun bound t low high hlow hhigh ht hle hle' h h' => ?_⟩
  · obtain ⟨hle, hmajor, -⟩ := (Version.satisfies_iff hv hc ht).mp h
    exact (Version.satisfies_iff hv hc ht').mpr ⟨hle, hmajor⟩
  · obtain ⟨hle, -⟩ := (Version.satisfies_iff hv hc ht).mp h
    exact (Version.satisfies_iff hv hc ht').mpr hle
  · simp only [hiff]
    exact Bound.existsUnique_holds v c
  · rw [Version.satisfies_iff hlow hc ht] at h
    rw [Version.satisfies_iff hhigh hc ht] at h'
    exact (Version.satisfies_iff hv hc ht).mpr (h.between h' hle hle')

/-- Constraints to a beta of `1.2.3`, spaced in several ways, and a later version with the same major
and minor number. -/
theorem constraints_mean_what_they_say_beta :
    ∃ v c, Version.read "v1.2.10" = .ok v ∧ Version.read "1.2.3-beta.4" = .ok c ∧
      v.Ordinary ∧ c.Ordinary ∧
      Constraint.Spells "\u00a0~ 1.2.3-beta.4\n" .sameMinor c ∧
      v.satisfies "\u00a0~ 1.2.3-beta.4\n" = .ok true ∧
      v.satisfies "^\t1.2.3-beta.4" = .ok true ∧ v.satisfies ">=1.2.3-beta.4" = .ok true ∧
      v.satisfies " < 1.2.3-beta.4" = .ok false := by
  let v : Version := ⟨1, 2, 10, .release, 0⟩
  let c : Version := ⟨1, 2, 3, .beta, 4⟩
  have hv : v.Ordinary := ⟨⟨"v1.2.10", rfl⟩, by decide, by decide, by decide, by decide⟩
  have hc : c.Ordinary := ⟨⟨"1.2.3-beta.4", rfl⟩, by decide, by decide, by decide, by decide⟩
  have htilde : Constraint.Spells "\u00a0~ 1.2.3-beta.4\n" .sameMinor c :=
    ⟨"\u00a0", " ", "\n", by decide, by decide, by decide, by decide +kernel⟩
  have hcaret : Constraint.Spells "^\t1.2.3-beta.4" .sameMajor c :=
    ⟨"", "\t", "", by decide, by decide, by decide, by decide +kernel⟩
  have hatLeast : Constraint.Spells ">=1.2.3-beta.4" .atLeast c :=
    ⟨"", "", "", by decide, by decide, by decide, by decide +kernel⟩
  have hbelow : Constraint.Spells " < 1.2.3-beta.4" .below c :=
    ⟨" ", " ", "", by decide, by decide, by decide, by decide +kernel⟩
  obtain ⟨hmeans, hminor, hmajor, -, -⟩ := constraints_mean_what_they_say hv hc
  have htrue : v.satisfies "\u00a0~ 1.2.3-beta.4\n" = .ok true := hmeans _ _ htilde
  have htrue' := hminor _ _ htilde hcaret htrue
  exact ⟨v, c, rfl, rfl, hv, hc, htilde, htrue, htrue',
    hmajor _ _ hcaret hatLeast htrue', hmeans _ _ hbelow⟩

end TinyLang
