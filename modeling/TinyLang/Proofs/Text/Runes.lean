import TinyLang.Text.Space

/-!
# Runes of texts put together

A text is decoded from the left, and whether a byte starts a rune of several bytes depends on the
bytes behind it. It does not depend on what stands behind a place where no rune can go on, that is,
in front of a byte that continues nothing (`StartsRune`). So a text can be taken apart at such
places (`Text.runes_append`), above all around every ASCII byte. It can also be taken apart between
any two of its own runes (`Text.runes_of_append`), since a rune depends on nothing behind its bytes.
-/

namespace TinyLang

/-- The text does not begin with a byte that continues a rune. -/
def StartsRune (t : Text) : Prop := ∀ b r, t = b :: r → Rune.isContinuation b = false

theorem StartsRune.nil : StartsRune [] := nofun

theorem isContinuation_ascii {b : UInt8} (h : b < 0x80) : Rune.isContinuation b = false := by
  have : ¬ 0x80 ≤ b := by simpa using h
  simp [Rune.isContinuation, this]

theorem StartsRune.ascii {b : UInt8} (h : b < 0x80) (r : Text) : StartsRune (b :: r) := by
  rintro _ _ ⟨⟩
  exact isContinuation_ascii h

namespace Rune

theorem isContinuation_of_mayFollow {b c : UInt8} (h : mayFollow b c = true) :
    isContinuation c = true := by
  unfold mayFollow secondRange at h
  unfold isContinuation
  rw [Bool.and_eq_true, decide_eq_true_eq, decide_eq_true_eq] at h ⊢
  simp only [UInt8.le_iff_toNat_le] at h ⊢
  split at h
  · simp at h ⊢; omega
  split at h
  · simp at h ⊢; omega
  split at h
  · simp at h ⊢; omega
  split at h
  · simp at h ⊢; omega
  · exact h

theorem mayFollow_eq_false {b c : UInt8} (h : isContinuation c = false) : mayFollow b c = false :=
  Bool.eq_false_iff.mpr fun hm => Bool.false_ne_true (h.symm.trans (isContinuation_of_mayFollow hm))

/-- The rune at the head of a text does not depend on what a rune cannot go on in. -/
theorem first_append (b : UInt8) (r : Text) {t : Text} (ht : StartsRune t) :
    first b (r ++ t) = first b r := by
  cases t with
  | nil => rw [List.append_nil]
  | cons x t =>
    have hx : isContinuation x = false := ht x t rfl
    match r with
    | [] =>
      rw [List.nil_append]
      cases t with
      | nil => simp [first, hx]
      | cons y t => cases t <;> simp [first, hx, mayFollow_eq_false hx]
    | [c] => cases t <;> simp [first, hx]
    | [c, d] => simp [first, hx]
    | c :: d :: e :: r => rfl

/-- A rune depends on nothing behind its own bytes. -/
theorem first_of_le {b : UInt8} {r t : Text}
    (h : (first b (r ++ t)).bytes.length ≤ r.length + 1) : first b r = first b (r ++ t) := by
  unfold first at h ⊢
  match r with
  | [] => rcases t with _ | ⟨c, _ | ⟨d, _ | ⟨e, t⟩⟩⟩ <;> grind [stray]
  | [c] => rcases t with _ | ⟨d, _ | ⟨e, t⟩⟩ <;> grind [stray]
  | [c, d] => rcases t with _ | ⟨e, t⟩ <;> grind [stray]
  | c :: d :: e :: r => rfl

theorem first_of_ascii {b : UInt8} (h : b < 0x80) (r : Text) :
    first b r = ⟨some b.toNat, [b]⟩ := by
  unfold first
  rw [if_pos h]

theorem first_of_code? {b : UInt8} {r : Text} (h : (first b r).code? = none) :
    first b r = stray b := by
  have hhead := heads_first b r
  generalize first b r = x at h hhead ⊢
  cases hhead with
  | stray => rfl
  | one => cases h
  | two => cases h
  | three => cases h
  | four => cases h

/-- A separator starts with no continuation byte. -/
theorem startsRune_of_separator {b : UInt8} {r : Text} (h : (first b r).isSeparator = true) :
    StartsRune (b :: r) := by
  rintro _ _ ⟨⟩
  rw [Bool.eq_false_iff]
  intro hcont
  have hcode : (first b r).code? = none := by
    rw [isContinuation, Bool.and_eq_true, decide_eq_true_eq, decide_eq_true_eq] at hcont
    simp only [UInt8.le_iff_toNat_le] at hcont
    have h1 : ¬ b < 0x80 := by rw [UInt8.lt_iff_toNat_lt]; simp at hcont ⊢; omega
    have h2 : ¬ 0xC2 ≤ b := by rw [UInt8.le_iff_toNat_le]; simp at hcont ⊢; omega
    have h3 : ¬ 0xE0 ≤ b := by rw [UInt8.le_iff_toNat_le]; simp at hcont ⊢; omega
    have h4 : ¬ 0xF0 ≤ b := by rw [UInt8.le_iff_toNat_le]; simp at hcont ⊢; omega
    simp [first, h1, h2, h3, h4, stray]
  rw [isSeparator, hcode] at h
  cases h

end Rune

namespace Text

/-! ## Taking texts apart -/

theorem runesFrom_length (a t : Text) : runesFrom a.length (a ++ t) = runes t := by
  induction a with
  | nil => rfl
  | cons b a ih => exact ih

/-- The head of a text is its first rune, and the others are those of what is left. -/
theorem runes_cons (b : UInt8) (r : Text) :
    ∃ s u, r = s ++ u ∧ (Rune.first b r).bytes = b :: s ∧
      runes (b :: r) = Rune.first b r :: runes u := by
  obtain ⟨s, hs, u, rfl⟩ := Rune.first_bytes b r
  refine ⟨s, u, rfl, hs, ?_⟩
  rw [runes, runesFrom, hs, List.length_cons, Nat.add_sub_cancel, runesFrom_length]

theorem runesFrom_append {skip : Nat} {a t : Text} (ht : StartsRune t) (hskip : skip ≤ a.length) :
    runesFrom skip (a ++ t) = runesFrom skip a ++ runes t := by
  induction a generalizing skip with
  | nil =>
    obtain rfl : skip = 0 := Nat.le_zero.mp hskip
    rfl
  | cons b a ih =>
    cases skip with
    | succ skip => exact ih (Nat.le_of_succ_le_succ hskip)
    | zero =>
      obtain ⟨s, hs, hpre⟩ := Rune.first_bytes b a
      have hle : (Rune.first b a).bytes.length - 1 ≤ a.length := by
        rw [hs, List.length_cons, Nat.add_sub_cancel]
        exact hpre.length_le
      rw [List.cons_append, runesFrom, runesFrom, Rune.first_append b a ht, ih hle]
      rfl

/-- **A text is decoded piece by piece** where no rune can go on. -/
theorem runes_append (a : Text) {t : Text} (ht : StartsRune t) :
    runes (a ++ t) = runes a ++ runes t :=
  runesFrom_append ht (Nat.zero_le _)

theorem runes_ascii {b : UInt8} (h : b < 0x80) (t : Text) :
    runes (b :: t) = ⟨some b.toNat, [b]⟩ :: runes t := by
  rw [runes, runesFrom, Rune.first_of_ascii h]
  rfl

theorem ofRunes_append (xs ys : List Rune) : ofRunes (xs ++ ys) = ofRunes xs ++ ofRunes ys :=
  List.flatMap_append

/-- **A text may be taken apart between any two of its runes.** -/
theorem runes_of_append {t : Text} {xs ys : List Rune} (h : t.runes = xs ++ ys) :
    (ofRunes xs).runes = xs ∧ (ofRunes ys).runes = ys := by
  induction xs generalizing t with
  | nil => exact ⟨rfl, by rw [← List.nil_append ys, ← h, ofRunes_runes]⟩
  | cons x xs ih =>
    cases t with
    | nil => cases h
    | cons b r =>
      obtain ⟨s, u, rfl, hbytes, hrunes⟩ := runes_cons b r
      rw [hrunes, List.cons_append] at h
      obtain ⟨rfl, hrest⟩ := List.cons.inj h
      obtain ⟨hxs, hys⟩ := ih hrest
      refine ⟨?_, hys⟩
      have hu : u = ofRunes xs ++ ofRunes ys := by
        rw [← ofRunes_append, ← hrest, ofRunes_runes]
      have hfirst : Rune.first b (s ++ ofRunes xs) = Rune.first b (s ++ u) := by
        rw [hu, ← List.append_assoc] at hbytes ⊢
        refine Rune.first_of_le ?_
        rw [hbytes, List.length_cons, List.length_append]
        omega
      have hcons : ofRunes (Rune.first b (s ++ u) :: xs) = b :: (s ++ ofRunes xs) := by
        show (Rune.first b (s ++ u)).bytes ++ ofRunes xs = _
        rw [hbytes, List.cons_append]
      rw [hcons, runes, runesFrom, hfirst, hbytes, List.length_cons, Nat.add_sub_cancel,
        runesFrom_length, hxs]

/-- A rune without a code point is a stray byte. -/
theorem stray_of_mem_runes {t : Text} {r : Rune} (hr : r ∈ t.runes) (hcode : r.code? = none) :
    ∃ b, r = Rune.stray b := by
  obtain ⟨xs, ys, hsplit⟩ := List.append_of_mem hr
  have hrest := (runes_of_append hsplit).2
  generalize ofRunes (r :: ys) = u at hrest
  cases u with
  | nil => cases hrest
  | cons b u =>
    obtain ⟨_, _, -, -, hrunes⟩ := runes_cons b u
    obtain ⟨rfl, -⟩ := List.cons.inj (hrunes.symm.trans hrest)
    exact ⟨b, Rune.first_of_code? hcode⟩

/-- An ASCII byte of a text is a rune of it. -/
theorem mem_runes_of_ascii {t : Text} {b : UInt8} (hb : b ∈ t) (h : b < 0x80) :
    ⟨some b.toNat, [b]⟩ ∈ t.runes := by
  obtain ⟨a, c, rfl⟩ := List.append_of_mem hb
  rw [runes_append a (.ascii h c), runes_ascii h]
  exact List.mem_append_right _ List.mem_cons_self

end Text

end TinyLang
