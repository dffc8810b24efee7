import TinyLang.Machine.Basic
import TinyLang.Native.Support
import TinyLang.Proofs.Number.Reader
import TinyLang.Proofs.Text.Trim
import Mathlib.Data.List.TakeWhile

/-!
# Input lines, compiled and interpreted

A compiled program and the interpreter read numbers by different rules. The interpreter trims a line
and reads the whole of what is left; a compiled program skips blanks, takes the longest number it
finds and looks whether only blanks follow. On an ordinary line, printable ASCII and tabs without
underscores and parentheses, that comes to the same except in three cases.

* `readPlain?_eq_some_iff`, `takeNumber?_eq_some_nil_iff`: the texts that each of them accepts as a
  number, in the same terms.
* `readChunk?_eq_some_iff`: a compiled program reads the text between the blanks of a line.
* `input_agrees_iff`: the headline. A call for input and the interpreter agree on a line, both with
  the same number or both with the error for illegal input, exactly if the line is not blank, not a
  signed `nan`, and no numeral with so many digits before its point that the interpreter misreads
  it; and what each does in those cases.
-/

namespace TinyLang

open Text (byte)

namespace Native

/-! ## Bytes of a line -/

/-- A byte of an ordinary input line: printable ASCII or a tab, but no `_`, `(` or `)`. -/
def IsOrdinary (b : UInt8) : Prop :=
  (b = 9 ∨ 32 ≤ b ∧ b ≤ 126) ∧ b ≠ byte '_' ∧ b ≠ byte '(' ∧ b ≠ byte ')'

instance : DecidablePred IsOrdinary := fun b =>
  inferInstanceAs (Decidable ((b = 9 ∨ 32 ≤ b ∧ b ≤ 126) ∧ _))

theorem IsOrdinary.of_all {line : Text} (h : (line.all fun b => IsOrdinary b) = true) :
    ∀ b ∈ line, IsOrdinary b :=
  fun b hb => of_decide_eq_true (List.all_eq_true.1 h b hb)

theorem IsOrdinary.spec : ∀ b, IsOrdinary b → b < 0x80 ∧ b ≠ 0 ∧ b ≠ byte '\n' ∧
    Text.isSpaceByte b = isBlank b ∧ isTrailing b = isBlank b ∧ isLeadingSpace b = isBlank b :=
  Text.forall_byte (by decide +kernel)

/-- A byte that may stand after a number goes on with none, and is no letter. -/
theorem isTrailing_spec : ∀ b, isTrailing b →
    b ≠ 0 ∧ b ≠ byte '(' ∧
      (¬ Text.isDigit b ∧ b ≠ byte '.' ∧ Text.lowerAscii b ≠ byte 'e' ∧ b ≠ byte '-' ∧
        b ≠ byte '+') ∧ Text.lowerAscii b = b ∧ b < 48 :=
  Text.forall_byte (by decide +kernel)

/-! ## Taking a line -/

theorem takeChunk_line {size : Nat} {line : Text} (h : byte '\n' ∉ line) (hlen : line.length < size)
    (rest : Text) :
    takeChunk size (line ++ byte '\n' :: rest) = (line ++ [byte '\n'], rest) := by
  induction line generalizing size with
  | nil =>
    cases size with
    | zero => exact absurd hlen (Nat.not_lt_zero _)
    | succ size => simp [takeChunk]
  | cons b line ih =>
    rw [List.mem_cons, not_or] at h
    cases size with
    | zero => exact absurd hlen (Nat.not_lt_zero _)
    | succ size =>
      simp only [List.cons_append, takeChunk, if_neg (Ne.symm h.1),
        ih h.2 (Nat.lt_of_succ_lt_succ hlen)]

/-! ## The texts that are accepted -/

theorem dropTag_eq {t : Text} (h : byte '(' ∉ t) : dropTag t = t := by
  cases t with
  | nil => rfl
  | cons b t =>
    rw [List.mem_cons, not_or] at h
    simp only [dropTag, if_neg (Ne.symm h.1)]

/-- **What a compiled program takes for a number**: a word for infinity, `nan` or a numeral, each
with a sign or without. -/
theorem takeNumber?_eq_some_nil_iff {t : Text} {v : Number}
    (hhead : ∀ b ∈ t.head?, ¬ isLeadingSpace b) (hparen : byte '(' ∉ t) :
    takeNumber? t = some (v, []) ↔
      IsInfinityWord (Numeral.takeSign t).2 ∧ v = .infinity (Numeral.takeSign t).1 ∨
      IsNaNWord (Numeral.takeSign t).2 ∧ v = .nan ∨
      ∃ n, Numeral.take? (Numeral.takeSign t).2 = some (n, []) ∧
        v = (n.toDecimal (Numeral.takeSign t).1).toNumber := by
  have hparen' : byte '(' ∉ (Numeral.takeSign t).2 :=
    fun h => hparen ((Numeral.takeSign_leaves t).suffix.subset h)
  simp only [takeNumber?, Text.dropWhile_of_head hhead]
  generalize (Numeral.takeSign t).1 = negative
  generalize (Numeral.takeSign t).2 = body at hparen' ⊢
  cases h1 : Numeral.dropWord? "infinity" body with
  | some r =>
    have hlower := (Numeral.dropWord?_eq_some_iff.1 h1).1
    have hword : r = [] ↔ IsInfinityWord body := by
      rw [Numeral.dropWord?_nil_iff h1]
      refine ⟨.inr, fun h => h.resolve_left fun h => ?_⟩
      have hlen := congrArg List.length (hlower.symm.trans h)
      have hlong : ("infinity" : Text).length = 8 := by decide
      have hshort : ("inf" : Text).length = 3 := by decide
      rw [List.length_append] at hlen
      omega
    have hnan : ¬ IsNaNWord body :=
      fun h => absurd (List.cons.inj (hlower.symm.trans h)).1 (by decide)
    simp [hword, hnan, (not_numeral (.inl rfl) hlower).1, and_comm, eq_comm]
  | none =>
    have hlong := Numeral.lower_ne_of_dropWord? h1
    cases h2 : Numeral.dropWord? "inf" body with
    | some r =>
      have hlower := (Numeral.dropWord?_eq_some_iff.1 h2).1
      have hword : r = [] ↔ IsInfinityWord body := by
        rw [Numeral.dropWord?_nil_iff h2]
        exact ⟨.inl, fun h => h.resolve_right hlong⟩
      have hnan : ¬ IsNaNWord body :=
        fun h => absurd (List.cons.inj (hlower.symm.trans h)).1 (by decide)
      simp [hword, hnan, (not_numeral (.inl rfl) hlower).1, and_comm, eq_comm]
    | none =>
      have hshort := Numeral.lower_ne_of_dropWord? h2
      have hinf : ¬ IsInfinityWord body := fun h => h.elim hshort hlong
      cases h3 : Numeral.dropWord? "nan" body with
      | some r =>
        have hlower := (Numeral.dropWord?_eq_some_iff.1 h3).1
        have htag : dropTag r = r :=
          dropTag_eq fun h => hparen' ((Numeral.dropWord?_suffix h3).subset h)
        have hword : r = [] ↔ IsNaNWord body := Numeral.dropWord?_nil_iff h3
        simp [htag, hword, hinf, (not_numeral (.inr rfl) hlower).1, and_comm, eq_comm]
      | none =>
        have hnan : ¬ IsNaNWord body := Numeral.lower_ne_of_dropWord? h3
        simp only [hinf, hnan, false_and, false_or]
        constructor
        · intro h
          obtain ⟨⟨n, rest⟩, htake, hpair⟩ := Option.map_eq_some_iff.1 h
          obtain ⟨rfl, rfl⟩ := Prod.mk.inj hpair
          exact ⟨n, htake, rfl⟩
        · rintro ⟨n, htake, rfl⟩
          rw [htake]
          rfl

/-! ## Reading a line -/

/-- What follows a number on its line does not matter for what is taken. -/
theorem takeNumber?_append {t tail : Text} (ht : t ≠ []) (hhead : ∀ b ∈ t.head?, ¬ isLeadingSpace b)
    (hparen : byte '(' ∉ t) (htail : ∀ b ∈ tail, isTrailing b) :
    takeNumber? (t ++ tail) = (takeNumber? t).map fun p => (p.1, p.2 ++ tail) := by
  have hspec {b : UInt8} (hb : b ∈ tail.head?) :=
    isTrailing_spec b (htail b (List.mem_of_mem_head? hb))
  have hstops : Numeral.Stops tail := fun b hb => (hspec hb).2.2.1
  have hletters (word : Text) (hword : word.all (48 ≤ ·) = true) :
      ∀ b ∈ tail.head?, Text.lowerAscii b ∉ word := by
    intro b hb hmem
    obtain ⟨-, -, -, hlower, hsmall⟩ := hspec hb
    rw [hlower] at hmem
    have hlarge : 48 ≤ b := of_decide_eq_true (List.all_eq_true.1 hword b hmem)
    exact absurd hlarge (by simpa using hsmall)
  have hhead' : ∀ b ∈ (t ++ tail).head?, ¬ isLeadingSpace b := by
    obtain ⟨b, t, rfl⟩ := List.exists_cons_of_ne_nil ht
    exact hhead
  have hparen' : byte '(' ∉ (Numeral.takeSign t).2 :=
    fun h => hparen ((Numeral.takeSign_leaves t).suffix.subset h)
  simp only [takeNumber?, Text.dropWhile_of_head hhead, Text.dropWhile_of_head hhead',
    Numeral.takeSign_append hstops, Numeral.take?_append hstops,
    Numeral.dropWord?_append (hletters "infinity" (by decide)),
    Numeral.dropWord?_append (hletters "inf" (by decide)),
    Numeral.dropWord?_append (hletters "nan" (by decide))]
  generalize (Numeral.takeSign t).2 = body at hparen' ⊢
  cases h1 : Numeral.dropWord? "infinity" body with
  | some r => rfl
  | none =>
    cases h2 : Numeral.dropWord? "inf" body with
    | some r => rfl
    | none =>
      cases h3 : Numeral.dropWord? "nan" body with
      | none => cases Numeral.take? body <;> rfl
      | some r =>
        have hr : byte '(' ∉ r := fun h => hparen' ((Numeral.dropWord?_suffix h3).subset h)
        have hrtail : byte '(' ∉ r ++ tail := by
          rw [List.mem_append, not_or]
          exact ⟨hr, fun h => (isTrailing_spec _ (htail _ h)).2.1 rfl⟩
        simp [dropTag_eq hr, dropTag_eq hrtail]

theorem takeNumber?_suffix {t r : Text} {v : Number} (hparen : byte '(' ∉ t)
    (h : takeNumber? t = some (v, r)) : r <:+ t := by
  have hbody : (Numeral.takeSign (t.dropWhile isLeadingSpace)).2 <:+ t :=
    (Numeral.takeSign_leaves _).suffix.trans (List.dropWhile_suffix _)
  refine List.IsSuffix.trans ?_ hbody
  simp only [takeNumber?] at h
  generalize (Numeral.takeSign (t.dropWhile isLeadingSpace)).2 = body at hbody h ⊢
  split at h
  next rest _ _ hword =>
    obtain ⟨-, rfl⟩ := Prod.mk.inj (Option.some.inj h)
    exact Numeral.dropWord?_suffix hword
  next rest _ _ hword =>
    obtain ⟨-, rfl⟩ := Prod.mk.inj (Option.some.inj h)
    exact Numeral.dropWord?_suffix hword
  next rest _ _ hword =>
    obtain ⟨-, rfl⟩ := Prod.mk.inj (Option.some.inj h)
    rw [dropTag_eq fun hmem => hparen (hbody.subset ((Numeral.dropWord?_suffix hword).subset hmem))]
    exact Numeral.dropWord?_suffix hword
  next =>
    obtain ⟨⟨n, rest⟩, htake, hpair⟩ := Option.map_eq_some_iff.1 h
    obtain ⟨-, rfl⟩ := Prod.mk.inj hpair
    exact (Numeral.take?_leaves htake).suffix

/-- A part of a line, with blanks in front of it and behind it. -/
structure Framed (l body tail : Text) : Prop where
  blank : ∀ b ∈ l, isBlank b
  trailing : ∀ b ∈ tail, isTrailing b
  ordinary : ∀ b ∈ body, IsOrdinary b
  trimmed : Text.Trimmed body

namespace Framed

variable {l body tail : Text} (h : Framed l body tail)
include h

theorem upToZero_eq : upToZero (l ++ body ++ tail) = l ++ body ++ tail := by
  unfold upToZero
  rw [List.takeWhile_eq_self_iff]
  intro b hb
  rw [bne_iff_ne]
  rw [List.mem_append, List.mem_append] at hb
  rcases hb with (hb | hb) | hb
  · exact (isTrailing_spec b (by simp [isTrailing, h.blank b hb])).1
  · exact (IsOrdinary.spec b (h.ordinary b hb)).2.1
  · exact (isTrailing_spec b (h.trailing b hb)).1

theorem head_spec : ∀ b ∈ body.head?, ¬ isBlank b ∧ ¬ isTrailing b ∧ ¬ isLeadingSpace b := by
  intro b hb
  obtain ⟨-, -, -, hspace, htrail, hlead⟩ :=
    IsOrdinary.spec b (h.ordinary b (List.mem_of_mem_head? hb))
  have hnot := h.trimmed.1 b hb
  rw [htrail, hlead, ← hspace]
  exact ⟨hnot, hnot, hnot⟩

theorem last_spec : ∀ b ∈ body.getLast?, ¬ isTrailing b := by
  intro b hb
  obtain ⟨-, -, -, hspace, htrail, -⟩ :=
    IsOrdinary.spec b (h.ordinary b (List.mem_of_mem_getLast? hb))
  rw [htrail, ← hspace]
  exact h.trimmed.2 b hb

theorem no_paren : byte '(' ∉ body := fun hmem => (h.ordinary _ hmem).2.2.1 rfl

/-- What is skipped up to the number. -/
theorem start_eq (hne : body ≠ []) :
    (upToZero (l ++ body ++ tail)).dropWhile isBlank = body ++ tail := by
  rw [h.upToZero_eq, List.append_assoc, List.dropWhile_append_of_pos h.blank]
  refine Text.dropWhile_of_head fun b hb => ?_
  obtain ⟨c, body, rfl⟩ := List.exists_cons_of_ne_nil hne
  exact (h.head_spec b hb).1

theorem hexMark_eq : ((body ++ tail).any fun b => Text.lowerAscii b = byte 'x') =
    Number.hasHexMark body := by
  have htail : (tail.any fun b => Text.lowerAscii b = byte 'x') = false := by
    rw [List.any_eq_false]
    intro b hb
    obtain ⟨-, -, -, hlower, hsmall⟩ := isTrailing_spec b (h.trailing b hb)
    rw [decide_eq_true_eq, hlower]
    rintro rfl
    exact absurd hsmall (by decide)
  rw [List.any_append, htail, Bool.or_false]
  rfl

/-- What is left behind the number is skipped only if it is nothing but what stands behind the
text. -/
theorem tail_isEmpty {r : Text} (hr : r <:+ body) :
    ((r ++ tail).dropWhile isTrailing).isEmpty ↔ r = [] := by
  rw [List.isEmpty_iff, List.dropWhile_eq_nil_iff]
  constructor
  · intro hall
    rcases List.eq_nil_or_concat r with rfl | ⟨s, c, rfl⟩
    · rfl
    · obtain ⟨p, rfl⟩ := hr
      refine absurd (hall c (by simp)) (h.last_spec c ?_)
      rw [List.concat_eq_append, ← List.append_assoc, List.getLast?_concat]
      rfl
  · rintro rfl
    exact h.trailing

end Framed

/-- **What a compiled program reads from a line** with a number text between blanks. -/
theorem readChunk?_eq_some_iff {l body tail : Text} {v : Number} (h : Framed l body tail)
    (hne : body ≠ []) :
    readChunk? (l ++ body ++ tail) = some v ↔
      ¬ Number.hasHexMark body ∧ takeNumber? body = some (v, []) := by
  have hlead : ∀ b ∈ body.head?, ¬ isLeadingSpace b := fun b hb => (h.head_spec b hb).2.2
  have hstart : (body ++ tail).dropWhile isTrailing = body ++ tail := by
    obtain ⟨b, body, rfl⟩ := List.exists_cons_of_ne_nil hne
    exact List.dropWhile_cons_of_neg (h.head_spec b rfl).2.1
  simp only [readChunk?, h.start_eq hne, h.hexMark_eq,
    takeNumber?_append hne hlead h.no_paren h.trailing]
  by_cases hhex : Number.hasHexMark body
  · simp [hhex]
  · rw [if_neg hhex]
    cases htake : takeNumber? body with
    | none => simp [hstart]
    | some p =>
      obtain ⟨w, r⟩ := p
      have hempty := h.tail_isEmpty (takeNumber?_suffix h.no_paren htake)
      simp only [Option.map_some, Option.getD_some]
      by_cases hr : r = []
      · subst hr
        have hnil : tail.dropWhile isTrailing = [] := List.isEmpty_iff.1 (hempty.2 rfl)
        have hlen : ¬ 0 = body.length + tail.length := by
          have := List.length_pos_of_ne_nil hne
          omega
        simp [hnil, hhex, hlen]
      · have hnot : ((r ++ tail).dropWhile isTrailing).isEmpty = false := by
          rw [← Bool.not_eq_true]
          exact mt hempty.1 hr
        simp only [hnot, Bool.not_false, Bool.or_true]
        simp [hr]

/-- A blank line is read as zero. -/
theorem readChunk?_blank {l : Text} (hl : ∀ b ∈ l, isBlank b) :
    readChunk? (l ++ [byte '\n']) = some .zero := by
  have hframed : Framed l [] [byte '\n'] :=
    ⟨hl, List.forall_mem_singleton.2 rfl, List.forall_mem_nil _,
      fun b hb => absurd hb (Option.not_mem_none b), fun b hb => absurd hb (Option.not_mem_none b)⟩
  have hstart : (upToZero (l ++ [byte '\n'])).dropWhile isBlank = [byte '\n'] := by
    have hzero := hframed.upToZero_eq
    rw [List.append_nil] at hzero
    rw [hzero, List.dropWhile_append_of_pos hl]
    rfl
  unfold readChunk?
  rw [hstart]
  decide

/-! ## Both readers on one line -/

/-- `nan` in any case with a sign in front of it. -/
def IsSignedNaN (t : Text) : Prop :=
  t.map Text.lowerAscii = ("-nan" : Text) ∨ t.map Text.lowerAscii = ("+nan" : Text)

instance : DecidablePred IsSignedNaN := fun _ => inferInstanceAs (Decidable (_ ∨ _))

/-- If a text is a numeral, the digits before its point fit into the interpreter's buffer. -/
def FitsBuffer (t : Text) : Prop :=
  ∀ k, Numeral.take? (Numeral.takeSign t).2 = some (k, []) →
    (k.whole.dropWhile Number.isZeroDigit).length ≤ Number.bufferedDigits

/-- A text is a numeral that the interpreter takes for another number than the nearest, because more
digits stand before its point than its buffer holds. -/
def IsMisread (t : Text) (k : Numeral) : Prop :=
  Numeral.take? (Numeral.takeSign t).2 = some (k, []) ∧
    Number.bufferedDigits < (k.whole.dropWhile Number.isZeroDigit).length ∧
    Number.ofNumeral (Numeral.takeSign t).1 k ≠ (k.toDecimal (Numeral.takeSign t).1).toNumber

theorem lower_sign : ∀ b : UInt8,
    (Text.lowerAscii b = byte '-' ↔ b = byte '-') ∧ (Text.lowerAscii b = byte '+' ↔ b = byte '+') :=
  Text.forall_byte (by decide +kernel)

theorem isSignedNaN_iff {t : Text} :
    IsSignedNaN t ↔ IsNaNWord (Numeral.takeSign t).2 ∧ ¬ IsNaNWord t := by
  have hminus : ("-nan" : Text) = byte '-' :: ("nan" : Text) := by decide
  have hplus : ("+nan" : Text) = byte '+' :: ("nan" : Text) := by decide
  unfold IsSignedNaN
  rw [hminus, hplus]
  cases t with
  | nil => simp [Numeral.takeSign]
  | cons b t =>
    rw [List.map_cons, List.cons.injEq, List.cons.injEq, (lower_sign b).1, (lower_sign b).2,
      ← or_and_right]
    change _ ∧ IsNaNWord t ↔ _
    by_cases hsign : b = byte '-' ∨ b = byte '+'
    · have htake : (Numeral.takeSign (b :: t)).2 = t := by
        rcases hsign with rfl | rfl <;> rfl
      have hnot : ¬ IsNaNWord (b :: t) := by
        intro h
        have hself := congrArg Prod.snd h.spec.2
        rw [htake] at hself
        exact List.cons_ne_self b t hself.symm
      rw [htake]
      simp [hsign, hnot]
    · have htake : (Numeral.takeSign (b :: t)).2 = b :: t := by
        rw [not_or] at hsign
        simp [Numeral.takeSign, hsign]
      rw [htake]
      simp [hsign]

theorem IsSignedNaN.not_hexMark {t : Text} (h : IsSignedNaN t) : ¬ Number.hasHexMark t := by
  have hmap : Number.hasHexMark t = (t.map Text.lowerAscii).any (· = byte 'x') := by
    rw [List.any_map]
    rfl
  rw [hmap]
  rcases h with h | h <;> rw [h] <;> decide

theorem numeralByte_spec : ∀ b, Numeral.isNumeralByte b → Text.lowerAscii b ≠ byte 'x' :=
  Text.forall_byte (by decide +kernel)

theorem IsMisread.not_hexMark {t : Text} {k : Numeral} (h : IsMisread t k) :
    ¬ Number.hasHexMark t := by
  obtain ⟨p, hp, hall⟩ := (Numeral.takeSign_leaves t).trans (Numeral.take?_leaves h.1)
  rw [List.append_nil] at hp
  subst hp
  unfold Number.hasHexMark
  rw [List.any_eq_true]
  rintro ⟨b, hb, hx⟩
  exact numeralByte_spec b (hall b hb) (of_decide_eq_true hx)

theorem FitsBuffer.not_misread {t : Text} (h : FitsBuffer t) : ¬ ∃ k, IsMisread t k := by
  rintro ⟨k, htake, hlong, -⟩
  exact absurd hlong (not_lt.2 (h k htake))

theorem IsMisread.ofNumeral_eq {t : Text} {k : Numeral} (h : IsMisread t k) :
    Number.ofNumeral (Numeral.takeSign t).1 k =
      (Number.buffered (Numeral.takeSign t).1 k).toNumber :=
  (Number.ofNumeral_cases _ (Numeral.take?_digits h.1)).resolve_left h.2.2

/-- An ordinary line with its end is a number text between blanks. -/
theorem exists_framed {line : Text} (hline : ∀ b ∈ line, IsOrdinary b) :
    (line ++ [byte '\n']).trim = line.trim ∧
      ∃ l r, line = l ++ line.trim ++ r ∧ Framed l line.trim (r ++ [byte '\n']) := by
  obtain ⟨l, c, r, rfl, hl, hr, hc⟩ := Text.exists_trim line
  have hspec {b : UInt8} (hb : b ∈ l ++ c ++ r) := IsOrdinary.spec b (hline b hb)
  have hascii : ∀ b ∈ l ++ c ++ r, b < 0x80 := fun b hb => (hspec hb).1
  have hend : ∀ b ∈ r ++ [byte '\n'], Text.isSpaceByte b :=
    List.forall_mem_append.2 ⟨hr, List.forall_mem_singleton.2 rfl⟩
  have htrim : (l ++ c ++ r).trim = c := Text.trim_eq hascii hl hr hc
  have hascii' : ∀ b ∈ l ++ c ++ (r ++ [byte '\n']), b < 0x80 := by
    rw [← List.append_assoc]
    exact List.forall_mem_append.2 ⟨hascii, List.forall_mem_singleton.2 (by decide)⟩
  have htrim' : (l ++ c ++ r ++ [byte '\n']).trim = c := by
    rw [List.append_assoc _ r]
    exact Text.trim_eq hascii' hl hend hc
  rw [htrim, htrim']
  refine ⟨rfl, l, r, rfl, ?_, ?_, ?_, hc⟩
  · intro b hb
    rw [← (hspec (by simp [hb])).2.2.2.1]
    exact hl b hb
  · refine List.forall_mem_append.2 ⟨fun b hb => ?_, List.forall_mem_singleton.2 rfl⟩
    obtain ⟨-, -, -, hspace, htrail, -⟩ := hspec (b := b) (by simp [hb])
    rw [htrail, ← hspace]
    exact hr b hb
  · exact fun b hb => hline b (by simp [hb])

theorem interpreted_iff {t : Text} {v : Number} (h : ∀ b ∈ t, IsOrdinary b) :
    Number.read? t = some v ↔ ¬ Number.hasHexMark t ∧
      (IsInfinityWord (Numeral.takeSign t).2 ∧ v = .infinity (Numeral.takeSign t).1 ∨
        IsNaNWord t ∧ v = .nan ∨
        ∃ k, Numeral.take? (Numeral.takeSign t).2 = some (k, []) ∧
          v = .ofNumeral (Numeral.takeSign t).1 k) := by
  rw [Number.read?_eq_some_iff fun hmem => (h _ hmem).2.1 rfl, Number.readPlain?_eq_some_iff]

theorem compiled_iff {l t tail : Text} {v : Number} (h : Framed l t tail) (hne : t ≠ []) :
    readChunk? (l ++ t ++ tail) = some v ↔ ¬ Number.hasHexMark t ∧
      (IsInfinityWord (Numeral.takeSign t).2 ∧ v = .infinity (Numeral.takeSign t).1 ∨
        IsNaNWord (Numeral.takeSign t).2 ∧ v = .nan ∨
        ∃ k, Numeral.take? (Numeral.takeSign t).2 = some (k, []) ∧
          v = (k.toDecimal (Numeral.takeSign t).1).toNumber) := by
  rw [readChunk?_eq_some_iff h hne,
    takeNumber?_eq_some_nil_iff (fun b hb => (h.head_spec b hb).2.2) h.no_paren]

section

variable {line : Text} (hline : ∀ b ∈ line, IsOrdinary b)
include hline

theorem blank_line (h : line.trim = []) :
    readChunk? (line ++ [byte '\n']) = some .zero ∧
      Number.read? (line ++ [byte '\n']).trim = none := by
  obtain ⟨htrim, l, r, hsplit, hframed⟩ := exists_framed hline
  rw [htrim, h]
  refine ⟨readChunk?_blank fun b hb => ?_, by decide⟩
  rw [h, List.append_nil] at hsplit
  rw [hsplit, List.mem_append] at hb
  rcases hb with hb | hb
  · exact hframed.blank b hb
  · have htrail := (IsOrdinary.spec b (hline b (hsplit ▸ List.mem_append_right l hb))).2.2.2.2.1
    rw [← htrail]
    exact hframed.trailing b (List.mem_append_left _ hb)

theorem signedNaN_line (h : IsSignedNaN line.trim) :
    readChunk? (line ++ [byte '\n']) = some .nan ∧
      Number.read? (line ++ [byte '\n']).trim = none := by
  have hnan := isSignedNaN_iff.1 h
  have hne : line.trim ≠ [] := by
    intro hnil
    rw [hnil] at h
    exact absurd h (by decide)
  obtain ⟨htrim, l, r, hsplit, hframed⟩ := exists_framed hline
  rw [htrim]
  constructor
  · have hcompiled := (compiled_iff hframed hne).2 ⟨h.not_hexMark, .inr (.inl ⟨hnan.1, rfl⟩)⟩
    rwa [← List.append_assoc, ← hsplit] at hcompiled
  · rw [Option.eq_none_iff_forall_ne_some]
    intro v hv
    rcases ((interpreted_iff hframed.ordinary).1 hv).2 with h | h | ⟨k, h, -⟩
    · exact h.1.not_nan hnan.1
    · exact hnan.2 h.1
    · rw [hnan.1.spec.1] at h
      exact Option.some_ne_none _ h.symm

theorem misread_line {k : Numeral} (h : IsMisread line.trim k) :
    readChunk? (line ++ [byte '\n']) = some (k.toDecimal (Numeral.takeSign line.trim).1).toNumber ∧
      Number.read? (line ++ [byte '\n']).trim =
        some (Number.buffered (Numeral.takeSign line.trim).1 k).toNumber := by
  have hne : line.trim ≠ [] := by
    intro hnil
    have htake := h.1
    rw [hnil] at htake
    exact absurd htake (Option.some_ne_none _).symm
  obtain ⟨htrim, l, r, hsplit, hframed⟩ := exists_framed hline
  rw [htrim]
  constructor
  · have hcompiled := (compiled_iff hframed hne).2 ⟨h.not_hexMark, .inr (.inr ⟨k, h.1, rfl⟩)⟩
    rwa [← List.append_assoc, ← hsplit] at hcompiled
  · rw [interpreted_iff hframed.ordinary]
    exact ⟨h.not_hexMark, .inr (.inr ⟨k, h.1, h.ofNumeral_eq.symm⟩)⟩

theorem other_line
    (h : ¬ (line.trim = [] ∨ IsSignedNaN line.trim ∨ ∃ k, IsMisread line.trim k)) :
    readChunk? (line ++ [byte '\n']) = Number.read? (line ++ [byte '\n']).trim := by
  rw [not_or, not_or, not_exists] at h
  obtain ⟨hne, hsigned, hmisread⟩ := h
  obtain ⟨htrim, l, r, hsplit, hframed⟩ := exists_framed hline
  rw [htrim]
  refine Option.ext fun v => ?_
  conv_lhs => rw [hsplit, List.append_assoc]
  rw [compiled_iff hframed hne, interpreted_iff hframed.ordinary]
  refine and_congr_right' (or_congr_right
    (or_congr (and_congr_left' ?_) (exists_congr fun k => ?_)))
  · rw [isSignedNaN_iff, not_and_not_right] at hsigned
    refine ⟨hsigned, fun hnan => ?_⟩
    rwa [hnan.spec.2]
  · refine and_congr_right fun htake => ?_
    have heq : Number.ofNumeral (Numeral.takeSign line.trim).1 k =
        (k.toDecimal (Numeral.takeSign line.trim).1).toNumber := by
      by_contra hdiffer
      refine hmisread k ⟨htake, ?_, hdiffer⟩
      by_contra hfits
      exact hdiffer (Number.ofNumeral_eq _ (Numeral.take?_digits htake) (not_lt.1 hfits))
    rw [heq]

end

/-! ## Calls for input -/

/-- The state after a number was read, with the rest of the input. -/
def State.received (s : State) (rest : Text) (v : Number) : State :=
  { s with input := rest, numbers := v :: s.numbers }

/-- The state after a line was refused: the program has ended with the message for illegal input. -/
def State.refused (s : State) (rest : Text) (n : Int) : State :=
  { s with input := rest }.fail .inputError [] n

/-- A call for input on source line `n` does what the interpreter does: it ends the program with the
message for illegal input where the interpreter stops with that error, and otherwise gives the same
number. -/
def Agree (s : State) (m : Machine) (n : Int) (rest : Text) : Prop :=
  (m.readNumber n).2 = .error (.failed ⟨n, .badInput⟩) ∧ s.call (.input n) = s.refused rest n ∨
    ∃ v, (m.readNumber n).2 = .ok v ∧ s.call (.input n) = s.received rest v

section

variable {line rest : Text} (hline : ∀ b ∈ line, IsOrdinary b)
include hline

theorem newline_not_mem : byte '\n' ∉ line :=
  fun hmem => (IsOrdinary.spec _ (hline _ hmem)).2.2.1 rfl

theorem readNumber_line {m : Machine} (hm : m.input = line ++ byte '\n' :: rest) (n : Int) :
    (m.readNumber n).2 = (Number.read? (line ++ [byte '\n']).trim).elim
      (.error (.failed ⟨n, .badInput⟩)) .ok := by
  simp only [Machine.readNumber, hm, Text.takeLine?_line (newline_not_mem hline)]
  cases Number.read? (line ++ [byte '\n']).trim <;> rfl

theorem call_line {s : State} (hs : s.input = line ++ byte '\n' :: rest)
    (hrunning : s.ended = false) (hlen : line.length ≤ 1022) (n : Int) :
    s.call (.input n) =
      (readChunk? (line ++ [byte '\n'])).elim (s.refused rest n) (s.received rest) := by
  have hchunk : takeChunk chunkSize s.input = (line ++ [byte '\n'], rest) := by
    rw [hs]
    exact takeChunk_line (newline_not_mem hline) (Nat.lt_succ_of_le hlen) rest
  obtain ⟨b, chunk, hcons⟩ := List.exists_cons_of_ne_nil (List.append_ne_nil_of_right_ne_nil line
    (List.cons_ne_nil (byte '\n') []))
  rw [hcons] at hchunk ⊢
  rw [State.call, if_neg (by rw [hrunning]; exact Bool.false_ne_true)]
  simp only [hchunk]
  cases readChunk? (b :: chunk) <;> rfl

end

theorem State.received_ne_refused (s : State) (rest : Text) (v : Number) (n : Int) :
    s.received rest v ≠ s.refused rest n :=
  fun h => List.cons_ne_self _ _ (congrArg State.written h).symm

theorem State.received_inj {s : State} {rest : Text} {v w : Number} :
    s.received rest v = s.received rest w ↔ v = w := by
  refine ⟨fun h => (List.cons.inj (congrArg State.numbers h)).1, fun h => ?_⟩
  rw [h]

theorem agree_iff {s : State} {m : Machine} {n : Int} {rest : Text} {a b : Option Number}
    (hs : s.call (.input n) = a.elim (s.refused rest n) (s.received rest))
    (hm : (m.readNumber n).2 = b.elim (.error (.failed ⟨n, .badInput⟩)) .ok) :
    Agree s m n rest ↔ a = b := by
  unfold Agree
  rw [hs, hm]
  cases a with
  | none => cases b <;> simp [(s.received_ne_refused rest _ n).symm]
  | some v => cases b <;> simp [s.received_ne_refused, State.received_inj]

/-- A machine that is about to read an input. -/
def readerOf (input : Text) : Machine := ⟨[], [], 0, input, .empty none, []⟩

/-- A numeral of 802 digits whose exponent takes most of them back. Its value lies just above the
midpoint of two doubles. -/
def overlongLine : Text :=
  ("9007199254740993" : Text) ++ List.replicate 785 (byte '0') ++ ("1e-786" : Text)

theorem isMisread_overlongLine : IsMisread overlongLine.trim
    ⟨("9007199254740993" : Text) ++ List.replicate 785 (byte '0') ++ ("1" : Text), [], -786⟩ :=
  ⟨by decide +kernel, by decide +kernel, by decide +kernel⟩

/-- **Compiled programs read a line like the interpreter**, except in three cases: a blank line,
which they read as zero, a signed `nan`, which they accept, and a numeral that the interpreter takes
for another number than the nearest. If the digits before the point fit into the buffer, the first
two are all. -/
theorem input_agrees_iff (s : State) (m : Machine) (n : Int) (line rest : Text)
    (hs : s.input = line ++ byte '\n' :: rest) (hm : m.input = line ++ byte '\n' :: rest)
    (hrunning : s.ended = false) (hlen : line.length ≤ 1022) (hline : ∀ b ∈ line, IsOrdinary b) :
    (Agree s m n rest ↔
      ¬ (line.trim = [] ∨ IsSignedNaN line.trim ∨ ∃ k, IsMisread line.trim k)) ∧
    (FitsBuffer line.trim →
      (Agree s m n rest ↔ ¬ (line.trim = [] ∨ IsSignedNaN line.trim))) ∧
    (line.trim = [] →
      s.call (.input n) = s.received rest .zero ∧
        (m.readNumber n).2 = .error (.failed ⟨n, .badInput⟩)) ∧
    (IsSignedNaN line.trim →
      s.call (.input n) = s.received rest .nan ∧
        (m.readNumber n).2 = .error (.failed ⟨n, .badInput⟩)) ∧
    ∀ k, IsMisread line.trim k →
      s.call (.input n) =
          s.received rest (k.toDecimal (Numeral.takeSign line.trim).1).toNumber ∧
        (m.readNumber n).2 = .ok (Number.buffered (Numeral.takeSign line.trim).1 k).toNumber := by
  have hcall := call_line hline hs hrunning hlen n
  have hread := readNumber_line hline hm n
  have hagree : Agree s m n rest ↔
      ¬ (line.trim = [] ∨ IsSignedNaN line.trim ∨ ∃ k, IsMisread line.trim k) := by
    rw [agree_iff hcall hread]
    refine ⟨?_, other_line hline⟩
    rintro heq (h | h | ⟨k, h⟩)
    · rw [(blank_line hline h).1, (blank_line hline h).2] at heq
      exact Option.some_ne_none _ heq
    · rw [(signedNaN_line hline h).1, (signedNaN_line hline h).2] at heq
      exact Option.some_ne_none _ heq
    · rw [(misread_line hline h).1, (misread_line hline h).2, ← h.ofNumeral_eq] at heq
      exact h.2.2 (Option.some.inj heq).symm
  refine ⟨hagree, fun hfits => ?_, fun h => ?_, fun h => ?_, fun k h => ?_⟩
  · rw [hagree, or_iff_left hfits.not_misread]
  · rw [hcall, hread, (blank_line hline h).1, (blank_line hline h).2]
    exact ⟨rfl, rfl⟩
  · rw [hcall, hread, (signedNaN_line hline h).1, (signedNaN_line hline h).2]
    exact ⟨rfl, rfl⟩
  · rw [hcall, hread, (misread_line hline h).1, (misread_line hline h).2]
    exact ⟨rfl, rfl⟩

theorem input_agrees_iff_samples :
    Agree (.start " -2.5E3\t\n") (readerOf " -2.5E3\t\n") 7 [] ∧
      ¬ Agree (.start (overlongLine ++ [byte '\n'])) (readerOf (overlongLine ++ [byte '\n']))
        7 [] := by
  constructor
  · have h := input_agrees_iff (.start " -2.5E3\t\n") (readerOf " -2.5E3\t\n") 7 " -2.5E3\t" []
      (by decide) (by decide) rfl (by decide) (IsOrdinary.of_all (by decide))
    refine h.1.2 ?_
    have htrim : (" -2.5E3\t" : Text).trim = "-2.5E3" := by decide
    have htake : Numeral.take? (Numeral.takeSign "-2.5E3").2 = some (⟨"2", "5", 3⟩, []) := by decide
    rw [htrim]
    rintro (h | h | ⟨k, h, hlong, -⟩)
    · exact absurd h (by decide)
    · exact absurd h (by decide)
    · rw [htake] at h
      obtain rfl := (Prod.mk.inj (Option.some.inj h)).1
      exact absurd hlong (by decide)
  · have h := input_agrees_iff (.start (overlongLine ++ [byte '\n']))
      (readerOf (overlongLine ++ [byte '\n'])) 7 overlongLine [] rfl rfl rfl (by decide +kernel)
      (IsOrdinary.of_all (by decide +kernel))
    exact fun hagree => h.1.1 hagree (.inr (.inr ⟨_, isMisread_overlongLine⟩))

theorem input_blank_line_differs :
    (State.start "\n").call (.input 1) = (State.start "\n").received [] .zero ∧
      ((readerOf "\n").readNumber 1).2 = .error (.failed ⟨1, .badInput⟩) ∧
      ¬ Agree (.start "\n") (readerOf "\n") 1 [] := by
  have hcall : (State.start "\n").call (.input 1) = (State.start "\n").received [] .zero := rfl
  have hread : ((readerOf "\n").readNumber 1).2 = .error (.failed ⟨1, .badInput⟩) := by decide
  refine ⟨hcall, hread, ?_⟩
  rintro (⟨-, h⟩ | ⟨v, h, -⟩)
  · exact State.received_ne_refused _ _ _ _ (hcall.symm.trans h)
  · rw [hread] at h
    cases h

end Native

end TinyLang
