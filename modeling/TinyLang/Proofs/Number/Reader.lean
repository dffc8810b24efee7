import TinyLang.Proofs.Number.Numeral

/-!
# What is read as a number

The interpreter accepts three forms of number text: a word for infinity and a numeral, each with a
sign or without, and `nan` without one (`Number.readPlain?_eq_some_iff`). The forms exclude one
another, since a numeral begins with neither letter.

* `dropWord?_eq_some_iff`, `dropWord?_append`: a word at the head of a text, in any case.
* `Number.read?_eq_some_iff`: what is read where there are no underscores.
-/

namespace TinyLang

open Text (byte)

/-- A property of bytes is a property of 256 numbers. -/
theorem Text.forall_byte {P : UInt8 → Prop} (h : ∀ i : Fin 256, P (UInt8.ofFin i)) (b : UInt8) :
    P b :=
  h b.toFin

/-! ## Words at the head of a text -/

namespace Numeral

theorem dropWord?_eq_some_iff {word t r : Text} :
    dropWord? word t = some r ↔
      t.map Text.lowerAscii = word ++ r.map Text.lowerAscii ∧ r = t.drop word.length := by
  unfold dropWord?
  constructor
  · intro h
    split_ifs at h with hprefix
    obtain rfl := Option.some.inj h
    obtain ⟨rest, hrest⟩ := List.isPrefixOf_iff_prefix.1 hprefix
    refine ⟨?_, rfl⟩
    rw [List.map_drop, ← hrest, List.drop_left]
  · rintro ⟨h, rfl⟩
    rw [if_pos (List.isPrefixOf_iff_prefix.2 ⟨_, h.symm⟩)]

theorem dropWord?_eq_nil_iff {word t : Text} :
    dropWord? word t = some [] ↔ t.map Text.lowerAscii = word := by
  rw [dropWord?_eq_some_iff, List.map_nil, List.append_nil]
  refine and_iff_left_of_imp fun h => ?_
  rw [← h, List.length_map, List.drop_length]

theorem lower_ne_of_dropWord? {word t : Text} (h : dropWord? word t = none) :
    t.map Text.lowerAscii ≠ word := by
  rw [ne_eq, ← dropWord?_eq_nil_iff, h]
  exact (Option.some_ne_none _).symm

theorem isPrefixOf_append {word tail : Text} (htail : ∀ b ∈ tail.head?, b ∉ word) (t : Text) :
    word.isPrefixOf (t ++ tail) = word.isPrefixOf t := by
  induction word generalizing t with
  | nil => rfl
  | cons c word ih =>
    cases t with
    | nil =>
      cases tail with
      | nil => rfl
      | cons b tail =>
        have hb : c ≠ b := fun h => htail b rfl (h ▸ List.mem_cons_self)
        simp [List.isPrefixOf_cons_cons, hb]
    | cons b t =>
      simp only [List.cons_append, List.isPrefixOf_cons_cons]
      rw [ih fun b hb hmem => htail b hb (List.mem_cons_of_mem _ hmem)]

/-- What follows a word does not matter, as long as it does not go on with it. -/
theorem dropWord?_append {word tail : Text}
    (htail : ∀ b ∈ tail.head?, Text.lowerAscii b ∉ word) (t : Text) :
    dropWord? word (t ++ tail) = (dropWord? word t).map (· ++ tail) := by
  unfold dropWord?
  have hhead : ∀ b ∈ (tail.map Text.lowerAscii).head?, b ∉ word := by
    cases tail with
    | nil => exact fun b hb => absurd hb (Option.not_mem_none b)
    | cons b tail =>
      rintro _ ⟨⟩
      exact htail b rfl
  rw [List.map_append, isPrefixOf_append hhead]
  split_ifs with hprefix
  · have hlen := (List.isPrefixOf_iff_prefix.1 hprefix).length_le
    rw [List.length_map] at hlen
    rw [Option.map_some, List.drop_append_of_le_length hlen]
  · rfl

/-- A numeral begins with a digit or a point. -/
theorem take?_head {b : UInt8} {t : Text} (hdigit : ¬ Text.isDigit b) (hpoint : b ≠ byte '.') :
    take? (b :: t) = none := by
  simp [take?, takeDigits, takeFraction, hdigit, hpoint]

theorem dropWord?_nil_iff {word t r : Text} (h : Numeral.dropWord? word t = some r) :
    r = [] ↔ t.map Text.lowerAscii = word := by
  rw [← Numeral.dropWord?_eq_nil_iff, h, Option.some.injEq]

theorem dropWord?_suffix {word t r : Text} (h : Numeral.dropWord? word t = some r) : r <:+ t := by
  obtain ⟨-, rfl⟩ := Numeral.dropWord?_eq_some_iff.1 h
  exact List.drop_suffix _ _

end Numeral

/-! ## Number text -/

theorem lower_spec : ∀ b : UInt8, Text.lowerAscii b = byte 'i' ∨ Text.lowerAscii b = byte 'n' →
    ¬ Text.isDigit b ∧ b ≠ byte '.' ∧ b ≠ byte '-' ∧ b ≠ byte '+' :=
  Text.forall_byte (by decide +kernel)

/-- A text that begins like a word is no numeral and has no sign. -/
theorem not_numeral {c : UInt8} {t word : Text} (hc : c = byte 'i' ∨ c = byte 'n')
    (h : t.map Text.lowerAscii = c :: word) :
    Numeral.take? t = none ∧ Numeral.takeSign t = (false, t) := by
  cases t with
  | nil => exact absurd h (List.cons_ne_nil _ _).symm
  | cons b t =>
    have hb : Text.lowerAscii b = c := (List.cons.inj h).1
    obtain ⟨hdigit, hpoint, hminus, hplus⟩ := lower_spec b (hb ▸ hc)
    refine ⟨Numeral.take?_head hdigit hpoint, ?_⟩
    simp only [Numeral.takeSign, if_neg hminus, if_neg hplus]

/-- The words for infinity. -/
def IsInfinityWord (t : Text) : Prop :=
  t.map Text.lowerAscii = ("inf" : Text) ∨ t.map Text.lowerAscii = ("infinity" : Text)

/-- The word for what is no number. -/
def IsNaNWord (t : Text) : Prop := t.map Text.lowerAscii = ("nan" : Text)

instance : DecidablePred IsInfinityWord := fun _ => inferInstanceAs (Decidable (_ ∨ _))

instance : DecidablePred IsNaNWord := fun _ => inferInstanceAs (Decidable (_ = _))

theorem IsInfinityWord.not_numeral {t : Text} (h : IsInfinityWord t) : Numeral.take? t = none := by
  rcases h with h | h
  · exact (TinyLang.not_numeral (.inl rfl) h).1
  · exact (TinyLang.not_numeral (.inl rfl) h).1

theorem IsInfinityWord.not_nan {t : Text} (h : IsInfinityWord t) : ¬ IsNaNWord t := by
  intro hnan
  rcases h with h | h
  · exact absurd (h.symm.trans hnan) (by decide)
  · exact absurd (h.symm.trans hnan) (by decide)

theorem IsNaNWord.spec {t : Text} (h : IsNaNWord t) :
    Numeral.take? t = none ∧ Numeral.takeSign t = (false, t) := TinyLang.not_numeral (.inr rfl) h

/-- **What the interpreter takes for a number**: a word for infinity or a numeral, with a sign or
without, or `nan` without one. -/
theorem Number.readPlain?_eq_some_iff {t : Text} {v : Number} :
    readPlain? t = some v ↔
      IsInfinityWord (Numeral.takeSign t).2 ∧ v = infinity (Numeral.takeSign t).1 ∨
      IsNaNWord t ∧ v = nan ∨
      ∃ n, Numeral.take? (Numeral.takeSign t).2 = some (n, []) ∧
        v = ofNumeral (Numeral.takeSign t).1 n := by
  simp only [readPlain?, Bool.or_eq_true, decide_eq_true_eq]
  change (if IsInfinityWord _ then _ else if IsNaNWord _ then _ else _) = _ ↔ _
  by_cases hinf : IsInfinityWord (Numeral.takeSign t).2
  · have hnan : ¬ IsNaNWord t := by
      intro hnan
      rw [hnan.spec.2] at hinf
      exact hinf.not_nan hnan
    rw [if_pos hinf]
    simp [hinf, hnan, hinf.not_numeral, eq_comm]
  · rw [if_neg hinf]
    by_cases hnan : IsNaNWord t
    · have hinf : ¬ IsInfinityWord t := fun h => h.not_nan hnan
      rw [if_pos hnan]
      simp [hinf, hnan, hnan.spec, eq_comm]
    · rw [if_neg hnan]
      simp only [hinf, hnan, false_and, false_or]
      constructor
      · intro h
        split at h
        next n htake => exact ⟨n, htake, (Option.some.inj h).symm⟩
        · exact absurd h (Option.some_ne_none v).symm
      · rintro ⟨n, htake, rfl⟩
        rw [htake]

namespace Number

theorem underscoresSeparate_eq_true {t : Text} (h : byte '_' ∉ t) (digitBefore : Bool) :
    underscoresSeparate digitBefore t = true := by
  induction t generalizing digitBefore with
  | nil => rfl
  | cons b t ih =>
    rw [List.mem_cons, not_or] at h
    have hb : (b != byte '_') = true := bne_iff_ne.2 (Ne.symm h.1)
    rw [underscoresSeparate, hb, Bool.true_or, Bool.true_and, ih h.2]

theorem read?_eq_some_iff {t : Text} {v : Number} (h : byte '_' ∉ t) :
    read? t = some v ↔ ¬ hasHexMark t ∧ readPlain? t = some v := by
  have hfilter : t.filter (· != byte '_') = t :=
    List.filter_eq_self.2 fun b hb => bne_iff_ne.2 fun hb' => h (hb' ▸ hb)
  unfold read? read
  rw [underscoresSeparate_eq_true h, if_pos rfl, hfilter]
  by_cases hhex : hasHexMark t
  · simp [hhex, Except.toOption]
  · cases readPlain? t <;> simp [hhex, Except.toOption]

end Number

end TinyLang
