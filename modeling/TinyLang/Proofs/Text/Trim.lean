import TinyLang.Proofs.Text.Runes

/-!
# Trimming and lines

Of an ASCII text, trimming removes the white space bytes at the two ends: it gives the middle part
of any way to write the text as white space, a part that does not begin or end with white space,
and white space again (`trim_eq`), and there is such a way (`exists_trim`). White space of any kind
is removed around a text that begins and ends with other ASCII characters (`trim_solid`). The first
line of a text ends at its first newline (`takeLine?_line`).
-/

namespace TinyLang

namespace Text

/-- Whether a byte is an ASCII white space character. -/
def isSpaceByte (b : UInt8) : Bool := isSpaceCode b.toNat

/-- Whether a text neither begins nor ends with white space. -/
def Trimmed (t : Text) : Prop :=
  (∀ b ∈ t.head?, ¬ isSpaceByte b) ∧ ∀ b ∈ t.getLast?, ¬ isSpaceByte b

theorem runes_of_ascii {t : Text} (h : ∀ b ∈ t, b < 0x80) :
    t.runes = t.map fun b => ⟨some b.toNat, [b]⟩ := by
  induction t with
  | nil => rfl
  | cons b t ih =>
    rw [List.forall_mem_cons] at h
    rw [runes_ascii h.1, ih h.2, List.map_cons]

theorem ofRunes_ascii (t : Text) : ofRunes (t.map fun b => ⟨some b.toNat, [b]⟩) = t := by
  induction t with
  | nil => rfl
  | cons b t ih =>
    unfold ofRunes at ih ⊢
    rw [List.map_cons, List.flatMap_cons, ih]
    rfl

/-- Of an ASCII text, trimming removes bytes. -/
theorem trim_ascii {t : Text} (h : ∀ b ∈ t, b < 0x80) :
    t.trim = ((t.dropWhile isSpaceByte).reverse.dropWhile isSpaceByte).reverse := by
  have hspace : Rune.isSpace ∘ (fun b : UInt8 => (⟨some b.toNat, [b]⟩ : Rune)) = isSpaceByte := rfl
  unfold trim
  rw [runes_of_ascii h, List.dropWhile_map, ← List.map_reverse, List.dropWhile_map,
    ← List.map_reverse, ofRunes_ascii, hspace]

theorem dropWhile_of_head {p : UInt8 → Bool} {t : Text} (h : ∀ b ∈ t.head?, ¬ p b) :
    t.dropWhile p = t := by
  cases t with
  | nil => rfl
  | cons b t => exact List.dropWhile_cons_of_neg (h b rfl)

/-- The part between white space at both ends is what is left. -/
theorem trim_eq {l t r : Text} (hascii : ∀ b ∈ l ++ t ++ r, b < 0x80)
    (hl : ∀ b ∈ l, isSpaceByte b) (hr : ∀ b ∈ r, isSpaceByte b) (ht : Trimmed t) :
    (l ++ t ++ r).trim = t := by
  rw [trim_ascii hascii, List.append_assoc, List.dropWhile_append_of_pos hl]
  rcases List.eq_nil_or_concat t with rfl | ⟨s, c, rfl⟩
  · have hnil : r.dropWhile isSpaceByte = [] := by
      rw [← List.append_nil r, List.dropWhile_append_of_pos hr, List.dropWhile_nil]
    rw [List.nil_append, hnil]
    rfl
  · rw [List.concat_eq_append] at ht ⊢
    have hlast : ¬ isSpaceByte c := ht.2 c (by rw [List.getLast?_concat]; rfl)
    have hhead : (s ++ [c] ++ r).dropWhile isSpaceByte = s ++ [c] ++ r := by
      refine dropWhile_of_head ?_
      cases s <;> exact ht.1
    rw [hhead, List.reverse_append, List.dropWhile_append_of_pos (by simpa using hr),
      List.reverse_concat, List.dropWhile_cons_of_neg hlast, ← List.reverse_concat,
      List.reverse_reverse]

theorem exists_head (t : Text) : ∃ l u, t = l ++ u ∧ (∀ b ∈ l, isSpaceByte b) ∧
    ∀ b ∈ u.head?, ¬ isSpaceByte b := by
  induction t with
  | nil => exact ⟨[], [], rfl, List.forall_mem_nil _, fun b hb => absurd hb (Option.not_mem_none b)⟩
  | cons b t ih =>
    by_cases hb : isSpaceByte b
    · obtain ⟨l, u, rfl, hl, hu⟩ := ih
      exact ⟨b :: l, u, rfl, List.forall_mem_cons.2 ⟨hb, hl⟩, hu⟩
    · refine ⟨[], b :: t, rfl, List.forall_mem_nil _, ?_⟩
      rintro _ ⟨⟩
      exact hb

/-- A text is white space, a trimmed part and white space. -/
theorem exists_trim (t : Text) : ∃ l c r, t = l ++ c ++ r ∧ (∀ b ∈ l, isSpaceByte b) ∧
    (∀ b ∈ r, isSpaceByte b) ∧ Trimmed c := by
  obtain ⟨l, u, rfl, hl, hu⟩ := exists_head t
  obtain ⟨r, c, hrc, hr, hc⟩ := exists_head u.reverse
  obtain rfl : u = c.reverse ++ r.reverse := by
    rw [← List.reverse_append, ← hrc, List.reverse_reverse]
  refine ⟨l, c.reverse, r.reverse, (List.append_assoc _ _ _).symm, hl, ?_, ?_, ?_⟩
  · intro b hb
    exact hr b (List.mem_reverse.1 hb)
  · intro b hb
    rw [List.head?_append, Option.mem_def.1 hb] at hu
    exact hu b rfl
  · intro b hb
    rw [List.getLast?_reverse] at hb
    exact hc b hb

/-! ## White space of any kind -/

/-- Whether a text is white space. -/
def IsSpace (t : Text) : Prop := ∀ r ∈ t.runes, r.isSpace = true

instance : DecidablePred IsSpace := fun t =>
  inferInstanceAs (Decidable (∀ r ∈ t.runes, r.isSpace = true))

/-- Whether a text begins and ends with ASCII characters other than white space. -/
structure Solid (t : Text) : Prop where
  first : ∃ b s, t = b :: s ∧ b < 0x80 ∧ isSpaceByte b = false
  last : ∃ s b, t = s ++ [b] ∧ b < 0x80 ∧ isSpaceByte b = false

theorem IsSpace.nil : IsSpace [] := nofun

theorem IsSpace.startsRune {t : Text} (h : IsSpace t) : StartsRune t := by
  cases t with
  | nil => exact .nil
  | cons b r =>
    obtain ⟨s, u, -, -, hrunes⟩ := runes_cons b r
    have hspace : (Rune.first b r).isSpace = true := h _ (by rw [hrunes]; exact List.mem_cons_self)
    refine Rune.startsRune_of_separator ?_
    unfold Rune.isSpace at hspace
    unfold Rune.isSeparator separatesWords
    cases hcode : (Rune.first b r).code? with
    | none => simp [hcode] at hspace
    | some c =>
      rw [hcode] at hspace
      simp only [Option.any_some] at hspace ⊢
      rw [hspace, Bool.true_or]

theorem Solid.startsRune {t : Text} (h : Solid t) : StartsRune t := by
  obtain ⟨b, s, rfl, hb, -⟩ := h.first
  exact .ascii hb s

theorem IsSpace.append {a b : Text} (ha : IsSpace a) (hb : IsSpace b) : IsSpace (a ++ b) := by
  unfold IsSpace
  rw [runes_append a hb.startsRune]
  exact List.forall_mem_append.mpr ⟨ha, hb⟩

/-- **White space around a text is removed.** -/
theorem trim_solid {l t r : Text} (hl : IsSpace l) (hr : IsSpace r) (ht : Solid t) :
    (l ++ t ++ r).trim = t := by
  have hhead : (t.runes ++ r.runes).dropWhile Rune.isSpace = t.runes ++ r.runes := by
    obtain ⟨b, s, rfl, hb, hspace⟩ := ht.first
    rw [runes_ascii hb, List.cons_append]
    exact List.dropWhile_cons_of_neg fun h => Bool.false_ne_true (hspace.symm.trans h)
  have hlast : t.runes.reverse.dropWhile Rune.isSpace = t.runes.reverse := by
    obtain ⟨s, b, rfl, hb, hspace⟩ := ht.last
    rw [runes_append s (.ascii hb []), runes_ascii hb, List.reverse_append]
    exact List.dropWhile_cons_of_neg fun h => Bool.false_ne_true (hspace.symm.trans h)
  unfold trim
  rw [runes_append (l ++ t) hr.startsRune, runes_append l ht.startsRune, List.append_assoc,
    List.dropWhile_append_of_pos hl, hhead, List.reverse_append,
    List.dropWhile_append_of_pos (fun x hx => hr x (List.mem_reverse.mp hx)), hlast,
    List.reverse_reverse, ofRunes_runes]

/-! ## Lines -/

/-- The first line of a text ends at the first newline. -/
theorem takeLine?_line {line : Text} (h : byte '\n' ∉ line) (rest : Text) :
    takeLine? (line ++ byte '\n' :: rest) = some (line ++ [byte '\n'], rest) := by
  induction line with
  | nil => simp [takeLine?]
  | cons b line ih =>
    rw [List.mem_cons, not_or] at h
    simp only [List.cons_append, takeLine?, if_neg (Ne.symm h.1), ih h.2]

end Text

end TinyLang
