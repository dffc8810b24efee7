import TinyLang.Yaml.Scalar
import TinyLang.Proofs.Yaml.Input

/-!
# Scalars on one line

What is taken from a stream where a scalar stands on one line.

* `Input.Shows.plainScalar_line`, `Input.Shows.plainScalar_key`: words with spaces between them, up to
  the end of the line, and a word before a colon.
* `Input.Shows.quotedScalar`: characters in quotes, each spelled in one of the ways that the kind of
  quotes allows (`Spells`).
-/

namespace TinyLang.Yaml

namespace Input.Shows

variable {i : Input} {size n : Nat} {m : Mark} {cs : List Char}

theorem atDocumentMark_eq_false (h : i.Shows size (n + 1) m cs)
    (hcs : m.column ≠ 0 ∨ nextOf cs ≠ '-' ∧ nextOf cs ≠ '.') : i.atDocumentMark = false := by
  unfold Input.atDocumentMark
  rcases hcs with hcolumn | ⟨hdash, hdot⟩
  · simp [h.mark, hcolumn]
  · have hhead := h.head_eq
    rw [Input.head] at hhead
    cases hahead : i.ahead with
    | nil => simp
    | cons c rest =>
      rw [hahead, List.headD_cons] at hhead
      have h1 : '-' ≠ c := by rintro rfl; exact hdash hhead.symm
      have h2 : '.' ≠ c := by rintro rfl; exact hdot hhead.symm
      simp [List.isPrefixOf, h1, h2]

/-! ## Gaps -/

/-- A gap of spaces. Behind a line break they do not count. -/
theorem takeGap_spaces {a : Nat} (hblank : isBlank (nextOf cs) = false)
    (hbreak : isBreak (nextOf cs) = false) (h : i.Shows size 0 m (List.replicate a ' ' ++ cs))
    (limit : Nat) (start : Mark) (fuel : Nat) (hfuel : a < fuel) (g : Gap) :
    ∃ j, (Scan.takeGap limit start fuel g).run i = .ok
        (if g.broken then g else { g with blanks := List.replicate a ' ' ++ g.blanks }, j) ∧
      j.Shows size 1 (m.forward a) cs := by
  induction a generalizing i m g fuel with
  | zero =>
    obtain ⟨fuel, rfl⟩ := Nat.exists_eq_add_one_of_ne_zero (Nat.ne_zero_of_lt hfuel)
    obtain ⟨j, hneed, hj⟩ := h.need 1
    have hhead : j.head = nextOf cs := hj.head_eq
    refine ⟨j, ?_, hj⟩
    rw [Scan.takeGap, run_bind_ok hneed, run_bind_ok (Scan.head_run j), hhead,
      if_neg (by simp [hblank]), if_neg (by simp [hbreak])]
    simp
    rfl
  | succ a ih =>
    obtain ⟨fuel, rfl⟩ := Nat.exists_eq_add_one_of_ne_zero (Nat.ne_zero_of_lt hfuel)
    obtain ⟨j, hneed, hj⟩ := h.need 1
    have hhead : j.head = ' ' := hj.head_eq
    obtain ⟨k, hrun, hk⟩ := ih hj.skip fuel (Nat.lt_of_succ_lt_succ hfuel) (g.addBlank ' ')
    refine ⟨k, ?_, by rwa [Mark.right_forward] at hk⟩
    rw [Scan.takeGap, run_bind_ok hneed, run_bind_ok (Scan.head_run j), hhead, if_pos (by rfl),
      run_bind_ok (Scan.mark_run j)]
    dsimp only
    rw [if_neg (by simp), run_bind_ok (Scan.skip_run j), hrun]
    cases hg : g.broken <;> simp [Gap.addBlank, hg, List.replicate_succ']

/-- A gap with a line break, and the indentation of the next line. -/
theorem takeGap_line {b : Nat} (hblank : isBlank (nextOf cs) = false)
    (hbreak : isBreak (nextOf cs) = false)
    (h : i.Shows size 0 m ('\n' :: (List.replicate b ' ' ++ cs)))
    (limit : Nat) (start : Mark) (fuel : Nat) (hfuel : b + 1 < fuel) :
    ∃ g j, (Scan.takeGap limit start fuel .empty).run i = .ok (g, j) ∧ g.broken = true ∧
      j.Shows size 1 ((m.down 1).forward b) cs := by
  obtain ⟨fuel, rfl⟩ := Nat.exists_eq_add_one_of_ne_zero (Nat.ne_zero_of_lt hfuel)
  obtain ⟨j, hneed, hj⟩ := h.need 1
  have hhead : j.head = '\n' := hj.head_eq
  obtain ⟨k, htake, hk⟩ := (hj.mono (Nat.zero_le 1)).takeBreak
  obtain ⟨l, hrun, hl⟩ :=
      hk.takeGap_spaces hblank hbreak limit start fuel (Nat.lt_of_succ_lt_succ hfuel)
    (Gap.empty.addBreak ['\n'])
  refine ⟨⟨[], true, ['\n'], []⟩, l, ?_, rfl, hl⟩
  rw [Scan.takeGap, run_bind_ok hneed, run_bind_ok (Scan.head_run j), hhead, if_neg (by decide),
    if_pos (by decide), run_bind_ok htake, hrun]
  rfl

end Input.Shows

/-! ## Plain scalars -/

/-- A word of a plain scalar. A colon at its end would end the scalar. -/
structure PlainWord (w : List Char) : Prop where
  ne_nil : w ≠ []
  inside : ∀ c ∈ w, isBlankOrEnd c = false
  last : w.getLast? ≠ some ':'

/-- Words with spaces between them. Behind a space a number sign would start a comment. -/
inductive PlainText : List Char → Prop
  | word {w : List Char} (hw : PlainWord w) : PlainText w
  | more {w u : List Char} {k : Nat} (hw : PlainWord w) (hu : PlainText u) (hhash : nextOf u ≠ '#') :
    PlainText (w ++ (List.replicate (k + 1) ' ' ++ u))

theorem isBlank_eq_false {c : Char} (h : isBlankOrEnd c = false) : isBlank c = false := by
  unfold isBlankOrEnd at h
  exact (Bool.or_eq_false_iff.mp h).1

theorem isBreak_eq_false {c : Char} (h : isBlankOrEnd c = false) : isBreak c = false := by
  unfold isBlankOrEnd isBreakOrEnd at h
  exact (Bool.or_eq_false_iff.mp (Bool.or_eq_false_iff.mp h).2).1

theorem PlainText.next {u : List Char} (hu : PlainText u) (rest : List Char) :
    isBlankOrEnd (nextOf (u ++ rest)) = false ∧ nextOf (u ++ rest) = nextOf u := by
  cases hu with
  | word hw =>
    obtain ⟨c, w, rfl⟩ := List.exists_cons_of_ne_nil hw.ne_nil
    exact ⟨hw.inside c (by simp), rfl⟩
  | more hw =>
    obtain ⟨c, w, rfl⟩ := List.exists_cons_of_ne_nil hw.ne_nil
    exact ⟨hw.inside c (by simp), rfl⟩

namespace Input.Shows

variable {i : Input} {size n : Nat} {m : Mark} {cs w : List Char}

/-- A word is taken as a whole, up to a blank, the end of the line, or a colon that ends it. -/
theorem takePlainRun (hw : ∀ c ∈ w, isBlankOrEnd c = false) (hlast : w.getLast? ≠ some ':')
    (hcs : isBlankOrEnd (nextOf cs) = true ∨ nextOf cs = ':' ∧ isBlankOrEnd (nextOf cs.tail) = true)
    (h : i.Shows size 2 m (w ++ cs)) (fuel : Nat) (hfuel : w.length < fuel) (run : List Char) :
    ∃ j, (Scan.takePlainRun false fuel run).run i = .ok (w.reverse ++ run, j) ∧
      j.Shows size 2 (m.forward w.length) cs := by
  induction w generalizing i m fuel run with
  | nil =>
    obtain ⟨fuel, rfl⟩ := Nat.exists_eq_add_one_of_ne_zero (Nat.ne_zero_of_lt hfuel)
    have hhead : i.head = nextOf cs := h.head_eq
    have hnext : i.get 1 = nextOf cs.tail := by
      rw [h.get_eq (by omega)]
      cases cs with
      | nil => rfl
      | cons c cs => cases cs <;> rfl
    refine ⟨i, ?_, h⟩
    rw [Scan.takePlainRun, run_bind_ok (Scan.head_run i), hhead,
      run_bind_ok (Scan.look_run 1 i), hnext, if_pos]
    · rfl
    · rcases hcs with hcs | ⟨hcolon, hcs⟩
      · simp [hcs]
      · simp [Scan.endsPlain, hcolon, hcs]
  | cons c w ih =>
    obtain ⟨fuel, rfl⟩ := Nat.exists_eq_add_one_of_ne_zero (Nat.ne_zero_of_lt hfuel)
    have hhead : i.head = c := h.head_eq
    have hnext : i.get 1 = nextOf (w ++ cs) := by
      rw [h.get_eq (by omega)]
      cases hrest : w ++ cs <;> simp [hrest]
    have hc := hw c (by simp)
    -- a colon stands before another character of the word
    have hends : Scan.endsPlain false c (nextOf (w ++ cs)) = false := by
      cases w with
      | nil =>
        have : c ≠ ':' := by rintro rfl; exact hlast rfl
        simp [Scan.endsPlain, this]
      | cons d w => simp [Scan.endsPlain, hw d (by simp)]
    obtain ⟨j, hneed, hj⟩ := (h.skip.mono (Nat.zero_le 1)).need 2
    have hlast' : w.getLast? ≠ some ':' := by
      cases w with
      | nil => simp
      | cons d w => simpa [List.getLast?_cons_cons] using hlast
    obtain ⟨k, hrun, hk⟩ := ih (fun d hd => hw d (by simp [hd])) hlast' hj fuel
      (Nat.lt_of_succ_lt_succ hfuel) (c :: run)
    refine ⟨k, ?_, by rwa [Mark.right_forward] at hk⟩
    rw [Scan.takePlainRun, run_bind_ok (Scan.head_run i), hhead,
      run_bind_ok (Scan.look_run 1 i), hnext,
      if_neg (by simp [hc, hends]), run_bind_ok (Scan.skip_run i), run_bind_ok hneed, hrun]
    simp

/-- One round of a plain scalar: a word, and what stands behind it. -/
theorem plainFrom_word (hw : PlainWord w)
    (hcs : isBlankOrEnd (nextOf cs) = true ∨ nextOf cs = ':' ∧ isBlankOrEnd (nextOf cs.tail) = true)
    (hhash : nextOf w ≠ '#') (hmark : m.column ≠ 0 ∨ nextOf w ≠ '-' ∧ nextOf w ≠ '.')
    (h : i.Shows size 0 m (w ++ cs)) (indent : Nat) (start : Mark) (fuel : Nat) (chars : List Char)
    (gap : Gap) :
    ∃ j, j.Shows size 2 (m.forward w.length) cs ∧
      (Scan.plainFrom false indent start (fuel + 1) chars gap).run i =
        (let chars := w.reverse ++ (gap.text ++ chars)
         if !(isBlank (nextOf cs) || isBreak (nextOf cs)) then
           pure ⟨chars.reverse, false⟩
         else do
           let gap ← Scan.takeGap indent start (j.size + 2) .empty
           if (← Scan.mark).column < indent then
             return ⟨chars.reverse, gap.broken⟩
           Scan.plainFrom false indent start fuel chars gap : Scan Scanned).run j := by
  obtain ⟨j, hneed, hj⟩ := h.need 4
  obtain ⟨c, w', rfl⟩ := List.exists_cons_of_ne_nil hw.ne_nil
  have hhead : j.head = c := hj.head_eq
  have hdoc : j.atDocumentMark = false := hj.atDocumentMark_eq_false hmark
  have hsize := hj.size_le
  obtain ⟨k, hrun, hk⟩ := (hj.mono (by omega)).takePlainRun hw.inside hw.last hcs (j.size + 2)
    (by simp at hsize ⊢; omega) []
  refine ⟨k, hk, ?_⟩
  rw [Scan.plainFrom, run_bind_ok hneed, run_get_bind, hdoc, hhead, if_neg (by simpa using hhash),
    run_bind_ok (Scan.fuel_run j), run_bind_ok hrun]
  simp only [List.append_nil, List.isEmpty_reverse, List.isEmpty_cons, Bool.false_eq_true, if_false]
  rw [run_bind_ok (Scan.head_run k), hk.head_eq]
  simp only [Bool.not_false, Bool.true_and, decide_eq_true_eq]
  split
  · rfl
  · rw [run_bind_ok (Scan.fuel_run k)]

/-- **A plain scalar up to the end of its line.** The next line is not indented enough to continue
it. -/
theorem plainFrom_line {u : List Char} (hu : PlainText u) (hhash : nextOf u ≠ '#') {b indent : Nat}
    (hb : b < indent) (hindent : indent ≤ m.column) (hblank : isBlank (nextOf cs) = false)
    (hbreak : isBreak (nextOf cs) = false)
    (h : i.Shows size 0 m (u ++ '\n' :: (List.replicate b ' ' ++ cs)))
    (start : Mark) (fuel : Nat) (hfuel : u.length ≤ fuel) (chars : List Char) (gap : Gap) :
    ∃ j, (Scan.plainFrom false indent start fuel chars gap).run i =
        .ok (⟨chars.reverse ++ gap.text.reverse ++ u, true⟩, j) ∧
      j.Shows size 1 (((m.forward u.length).down 1).forward b) cs := by
  induction hu generalizing i m fuel chars gap with
  | @word w hw =>
    obtain ⟨fuel, rfl⟩ : ∃ k, fuel = k + 1 :=
      Nat.exists_eq_add_one_of_ne_zero (by have := List.length_pos_iff.mpr hw.ne_nil; omega)
    obtain ⟨j, hj, hrun⟩ := h.plainFrom_word hw (.inl rfl) hhash (.inl (by omega)) indent start fuel
      chars gap
    have hsize := hj.size_le
    obtain ⟨g, k, hgap, hbroken, hk⟩ :=
        (hj.mono (Nat.zero_le 2)).takeGap_line hblank hbreak indent start
      (j.size + 2) (by simp at hsize; omega)
    refine ⟨k, ?_, hk⟩
    rw [hrun]
    dsimp only
    rw [if_neg (by simp [isBreak]), run_bind_ok hgap, run_bind_ok (Scan.mark_run k), hk.mark,
      if_pos (by simpa [Mark.forward, Mark.down] using hb), run_pure_ok, hbroken]
    simp
  | @more w u k hw hu hhash' ih =>
    obtain ⟨fuel, rfl⟩ : ∃ k, fuel = k + 1 :=
      Nat.exists_eq_add_one_of_ne_zero (by simp at hfuel; omega)
    rw [List.append_assoc, List.append_assoc] at h
    have hnext : nextOf w = nextOf (w ++ (List.replicate (k + 1) ' ' ++ u)) := by
      obtain ⟨c, w', rfl⟩ := List.exists_cons_of_ne_nil hw.ne_nil
      rfl
    obtain ⟨j, hj, hrun⟩ :=
        h.plainFrom_word hw (.inl rfl) (by rwa [hnext]) (.inl (by omega)) indent start
      fuel chars gap
    have hstart := hu.next ('\n' :: (List.replicate b ' ' ++ cs))
    have hsize := hj.size_le
    obtain ⟨l, hgap, hl⟩ := (hj.mono (Nat.zero_le 2)).takeGap_spaces (isBlank_eq_false hstart.1)
      (isBreak_eq_false hstart.1) indent start (j.size + 2) (by simp at hsize; omega) .empty
    have hcolumn : indent ≤ ((m.forward w.length).forward (k + 1)).column := by
      simp only [Mark.forward]
      omega
    obtain ⟨r, hrest, hr⟩ := ih hhash' hcolumn (hl.mono (Nat.zero_le 1)) fuel
      (by have := List.length_pos_iff.mpr hw.ne_nil; simp at hfuel; omega)
      (w.reverse ++ (gap.text ++ chars)) ⟨List.replicate (k + 1) ' ', false, [], []⟩
    refine ⟨r, ?_, ?_⟩
    · rw [hrun]
      dsimp only
      rw [if_neg (by simp [List.replicate_succ, isBlank]), run_bind_ok hgap,
        run_bind_ok (Scan.mark_run l), hl.mark, if_neg (Nat.not_lt.mpr hcolumn)]
      simpa [Gap.empty, Gap.text] using hrest
    · simpa [Mark.forward_forward, Nat.add_assoc] using hr

theorem plainScalar_line {u : List Char} (hu : PlainText u) (hhash : nextOf u ≠ '#') {b indent : Nat}
    (hb : b < indent) (hindent : indent ≤ m.column) (hblank : isBlank (nextOf cs) = false)
    (hbreak : isBreak (nextOf cs) = false)
    (h : i.Shows size 0 m (u ++ '\n' :: (List.replicate b ' ' ++ cs))) :
    ∃ j, (Scan.plainScalar false indent).run i = .ok (⟨u, true⟩, j) ∧
      j.Shows size 1 (((m.forward u.length).down 1).forward b) cs := by
  have hsize := h.size_le
  obtain ⟨j, hrun, hj⟩ := h.plainFrom_line hu hhash hb hindent hblank hbreak i.mark (i.size + 2)
    (by simp at hsize; omega) [] .empty
  refine ⟨j, ?_, hj⟩
  rw [Scan.plainScalar, run_bind_ok (Scan.mark_run i), run_bind_ok (Scan.fuel_run i), hrun]
  rfl

/-- **A plain scalar before a colon.** -/
theorem plainScalar_key (hw : PlainWord w) (hhash : nextOf w ≠ '#')
    (hmark : m.column ≠ 0 ∨ nextOf w ≠ '-' ∧ nextOf w ≠ '.') (hcs : isBlankOrEnd (nextOf cs) = true)
    (indent : Nat) (h : i.Shows size 0 m (w ++ ':' :: cs)) :
    ∃ j, (Scan.plainScalar false indent).run i = .ok (⟨w, false⟩, j) ∧
      j.Shows size 2 (m.forward w.length) (':' :: cs) := by
  have hstop : isBlankOrEnd (nextOf (':' :: cs)) = true ∨
      nextOf (':' :: cs) = ':' ∧ isBlankOrEnd (nextOf (':' :: cs).tail) = true := .inr ⟨rfl, hcs⟩
  obtain ⟨j, hj, hrun⟩ := h.plainFrom_word hw hstop hhash hmark indent i.mark (i.size + 1) [] .empty
  refine ⟨j, ?_, hj⟩
  rw [Scan.plainScalar, run_bind_ok (Scan.mark_run i), run_bind_ok (Scan.fuel_run i), hrun]
  dsimp only
  rw [if_pos (by rfl), run_pure_ok]
  simp [Gap.text, Gap.empty]

end Input.Shows

/-! ## Quoted scalars -/

/-- What may stand for a character in quotes of a kind: the character itself, two single quotes, or a
backslash with a letter and perhaps digits. -/
inductive Spells (single : Bool) : Char → List Char → Prop
  | literal {c : Char} (hc : isBlankOrEnd c = false) (hquote : c ≠ Scan.quoteOf single)
      (hslash : single = true ∨ c ≠ '\\') : Spells single c [c]
  | doubled (hsingle : single = true) : Spells single '\'' ['\'', '\'']
  | escaped {c letter : Char} (hdouble : single = false) (hbreak : isBreak letter = false)
      (hletter : Scan.escapeChar? letter = some c) : Spells single c ['\\', letter]
  | coded {c letter : Char} {digits : List Char} (hdouble : single = false)
      (hletter : Scan.escapeDigits? letter = some digits.length)
      (hdigits : Scan.hexNumber? digits = some c.toNat) : Spells single c ('\\' :: letter :: digits)

theorem Scan.escapeDigits?_cases {letter : Char} {count : Nat}
    (h : Scan.escapeDigits? letter = some count) :
    Scan.escapeChar? letter = none ∧ isBreak letter = false := by
  unfold Scan.escapeDigits? at h
  split at h
  · decide
  · decide
  · decide
  · cases h

namespace Input.Shows

variable {i : Input} {size n : Nat} {m : Mark} {cs : List Char}

theorem takeEscape_letter {c letter : Char} (hletter : Scan.escapeChar? letter = some c)
    (h : i.Shows size 2 m ('\\' :: letter :: cs)) (start : Mark) :
    ∃ j, (Scan.takeEscape start letter).run i = .ok (c, j) ∧ j.Shows size 0 (m.forward 2) cs := by
  have hadvance : (i.advance 2).Shows size 0 (m.forward 2) cs := h.advance (a := ['\\', letter])
  refine ⟨i.advance 2, ?_, hadvance⟩
  rw [Scan.takeEscape, hletter]
  rfl

theorem takeEscape_digits {c letter : Char} {digits : List Char}
    (hletter : Scan.escapeDigits? letter = some digits.length)
    (hdigits : Scan.hexNumber? digits = some c.toNat)
    (h : i.Shows size 2 m ('\\' :: letter :: (digits ++ cs))) (start : Mark) :
    ∃ j, (Scan.takeEscape start letter).run i = .ok (c, j) ∧
      j.Shows size 0 (m.forward (2 + digits.length)) cs := by
  have hadvance : (i.advance 2).Shows size 0 (m.forward 2) (digits ++ cs) :=
      h.advance (a := ['\\', letter])
  obtain ⟨j, hneed, hj⟩ := hadvance.need digits.length
  have htake : j.ahead.take digits.length = digits := by
    rw [hj.take_ahead (by simp), List.take_left]
  refine ⟨j.advance digits.length, ?_, ?_⟩
  · have hrange : ¬ ((0xD800 ≤ c.toNat && c.toNat ≤ 0xDFFF) || 0x10FFFF < c.toNat) = true := by
      have h1 := toNat_char_not_surrogate c
      have h2 := toNat_char_lt c
      simp
      omega
    rw [Scan.takeEscape, (Scan.escapeDigits?_cases hletter).1, hletter]
    dsimp only
    rw [run_modify_bind, run_bind_ok hneed, run_get_bind, htake, if_pos rfl, hdigits]
    dsimp only
    rw [if_neg hrange, run_modify_bind, run_pure_ok, Char.ofNat_toNat]
  · rw [← Mark.forward_forward]
    exact hj.advance (n := 0)

theorem takeQuotedRun_escape {c letter : Char} {m' : Mark} {cs' : List Char} {j : Input}
    {start : Mark} (hbreak : isBreak letter = false) (h : i.Shows size 2 m ('\\' :: letter :: cs))
    (hescape : (Scan.takeEscape start letter).run i = .ok (c, j)) (hj : j.Shows size 0 m' cs')
    (fuel : Nat) (chars : List Char) :
    ∃ k, (Scan.takeQuotedRun false start (fuel + 1) chars).run i =
        (Scan.takeQuotedRun false start fuel (c :: chars)).run k ∧ k.Shows size 2 m' cs' := by
  have hhead : i.head = '\\' := h.head_eq
  have hnext : i.get 1 = letter := h.get_eq (by omega)
  obtain ⟨k, hneed, hk⟩ := hj.need 2
  refine ⟨k, ?_, hk⟩
  rw [Scan.takeQuotedRun, run_bind_ok (Scan.head_run i), hhead,
    run_bind_ok (Scan.look_run 1 i), hnext,
    if_neg (by decide), if_neg (by simp), if_neg (by decide), if_pos (by decide),
    if_neg (by simp [hbreak]), run_bind_ok hescape, run_bind_ok hneed]

/-- One character of a quoted scalar. -/
theorem takeQuotedRun_spells {single : Bool} {c : Char} {src : List Char} (hc : Spells single c src)
    (h : i.Shows size 2 m (src ++ cs)) (start : Mark) (fuel : Nat) (chars : List Char) :
    ∃ j, (Scan.takeQuotedRun single start (fuel + 1) chars).run i =
        (Scan.takeQuotedRun single start fuel (c :: chars)).run j ∧
      j.Shows size 2 (m.forward src.length) cs := by
  cases hc with
  | literal hc hquote hslash =>
    have hhead : i.head = c := h.head_eq
    obtain ⟨j, hneed, hj⟩ := (h.skip.mono (Nat.zero_le 1)).need 2
    refine ⟨j, ?_, hj⟩
    have hdoubled : ¬ (single && c == '\'' && i.get 1 == '\'') = true := by
      cases single with
      | false => simp
      | true =>
        have : c ≠ '\'' := hquote
        simp [this]
    have hescape : ¬ (!single && c == '\\') = true := by
      rcases hslash with rfl | hslash
      · simp
      · simp [hslash]
    rw [Scan.takeQuotedRun, run_bind_ok (Scan.head_run i), hhead, run_bind_ok (Scan.look_run 1 i),
      if_neg (by simp [hc]), if_neg hdoubled, if_neg (by simpa using hquote), if_neg hescape,
      run_bind_ok (Scan.skip_run i), run_bind_ok hneed]
  | doubled hsingle =>
    have hhead : i.head = '\'' := h.head_eq
    have hnext : i.get 1 = '\'' := h.get_eq (by omega)
    obtain ⟨j, hneed, hj⟩ := (h.advance (a := ['\'', '\''])).need 2
    refine ⟨j, ?_, hj⟩
    rw [Scan.takeQuotedRun, run_bind_ok (Scan.head_run i), hhead,
      run_bind_ok (Scan.look_run 1 i), hnext,
      if_neg (by decide), if_pos (by simp [hsingle]), run_modify_bind]
    exact run_bind_ok hneed
  | escaped hdouble hbreak hletter =>
    subst hdouble
    obtain ⟨j, hescape, hj⟩ := takeEscape_letter hletter h start
    exact takeQuotedRun_escape hbreak h hescape hj fuel chars
  | @coded c letter digits hdouble hletter hdigits =>
    subst hdouble
    obtain ⟨j, hescape, hj⟩ := takeEscape_digits hletter hdigits h start
    rw [Nat.add_comm] at hj
    exact takeQuotedRun_escape (Scan.escapeDigits?_cases hletter).2 h hescape hj fuel chars

/-- The characters of a quoted scalar up to a space or the closing quote. -/
theorem takeQuotedRun {single : Bool} {spell : Char → List Char} {t : List Char}
    (ht : ∀ c ∈ t, Spells single c (spell c))
    (hcs : nextOf cs = ' ' ∨ nextOf cs = Scan.quoteOf single ∧ nextOf cs.tail ≠ '\'')
    (h : i.Shows size 2 m (t.flatMap spell ++ cs)) (start : Mark) (fuel : Nat)
    (hfuel : t.length < fuel) (chars : List Char) :
    ∃ j, (Scan.takeQuotedRun single start fuel chars).run i = .ok ((t.reverse ++ chars, false), j) ∧
      j.Shows size 2 (m.forward (t.flatMap spell).length) cs := by
  induction t generalizing i m fuel chars with
  | nil =>
    obtain ⟨fuel, rfl⟩ := Nat.exists_eq_add_one_of_ne_zero (Nat.ne_zero_of_lt hfuel)
    have hhead : i.head = nextOf cs := h.head_eq
    have hnext : i.get 1 = nextOf cs.tail := by
      rw [h.get_eq (by omega)]
      cases cs with
      | nil => rfl
      | cons c cs => cases cs <;> rfl
    refine ⟨i, ?_, h⟩
    rw [Scan.takeQuotedRun, run_bind_ok (Scan.head_run i), hhead,
      run_bind_ok (Scan.look_run 1 i), hnext]
    rcases hcs with hspace | ⟨hquote, hother⟩
    · rw [if_pos (by rw [hspace]; rfl)]
      rfl
    · rw [if_neg (by rw [hquote]; cases single <;> decide), if_neg (by simp [hother]),
        if_pos (by simp [hquote])]
      rfl
  | cons c t ih =>
    obtain ⟨fuel, rfl⟩ := Nat.exists_eq_add_one_of_ne_zero (Nat.ne_zero_of_lt hfuel)
    rw [List.flatMap_cons, List.append_assoc] at h
    obtain ⟨j, hstep, hj⟩ := h.takeQuotedRun_spells (ht c (by simp)) start fuel chars
    obtain ⟨k, hrun, hk⟩ :=
        ih (fun d hd => ht d (by simp [hd])) hj fuel (Nat.lt_of_succ_lt_succ hfuel)
      (c :: chars)
    refine ⟨k, ?_, ?_⟩
    · rw [hstep, hrun]
      simp
    · rw [Mark.forward_forward] at hk
      rwa [List.flatMap_cons, List.length_append]

end Input.Shows

/-- A text is of one class of characters, or goes over a gap of another character to such a one. -/
theorem exists_gap {q : Char → Prop} {x : Char} {t : List Char} (ht : ∀ c ∈ t, q c ∨ c = x) :
    (∀ c ∈ t, q c) ∨
      ∃ a k u, t = a ++ (List.replicate (k + 1) x ++ u) ∧ (∀ c ∈ a, q c) ∧ (∀ c ∈ u.head?, q c) ∧
        ¬ q x := by
  induction t with
  | nil => exact .inl (by simp)
  | cons c t ih =>
    have ht' := ih fun d hd => ht d (by simp [hd])
    by_cases hc : q c
    · rcases ht' with hall | ⟨a, k, u, rfl, ha, hu, hx⟩
      · exact .inl (by simpa using ⟨hc, hall⟩)
      · exact .inr ⟨c :: a, k, u, rfl, by simpa using ⟨hc, ha⟩, hu, hx⟩
    · obtain rfl : c = x := (ht c (by simp)).resolve_left hc
      rcases ht' with hall | ⟨a, k, u, rfl, ha, hu, hx⟩
      · exact .inr ⟨[], 0, t, rfl, by simp, fun d hd => hall d (List.mem_of_mem_head? hd), hc⟩
      · cases a with
        | nil => exact .inr ⟨[], k + 1, u, rfl, by simp, hu, hc⟩
        | cons d a =>
          refine .inr ⟨[], 0, _, rfl, by simp, fun e he => ?_, hc⟩
          obtain rfl : d = e := by simpa using he
          exact ha d (by simp)

/-- What stands for a character in quotes: a spelling, or the space itself. -/
def SpellsOrSpace (single : Bool) (c : Char) (src : List Char) : Prop :=
  Spells single c src ∨ c = ' ' ∧ src = [' ']

theorem Spells.next {single : Bool} {c : Char} {src : List Char} (h : Spells single c src)
    (rest : List Char) :
    isBlank (nextOf (src ++ rest)) = false ∧ isBreak (nextOf (src ++ rest)) = false := by
  cases h with
  | literal hc => exact ⟨isBlank_eq_false hc, isBreak_eq_false hc⟩
  | doubled => exact ⟨rfl, rfl⟩
  | escaped => exact ⟨rfl, rfl⟩
  | coded => exact ⟨rfl, rfl⟩

theorem SpellsOrSpace.ne_nil {single : Bool} {c : Char} {src : List Char}
    (h : SpellsOrSpace single c src) : src ≠ [] := by
  rcases h with h | ⟨-, rfl⟩
  · cases h <;> simp
  · simp

theorem length_le_flatMap {α β : Type} {spell : α → List β} {t : List α}
    (ht : ∀ c ∈ t, spell c ≠ []) :
    t.length ≤ (t.flatMap spell).length := by
  induction t with
  | nil => simp
  | cons c t ih =>
    have h1 := List.length_pos_iff.mpr (ht c (by simp))
    have h2 := ih fun d hd => ht d (by simp [hd])
    simp only [List.flatMap_cons, List.length_append, List.length_cons]
    omega

namespace Input.Shows

variable {i : Input} {size n : Nat} {m : Mark} {cs : List Char}

/-- One round of a quoted scalar: characters up to a space or the closing quote. -/
theorem quotedFrom_run {single : Bool} {spell : Char → List Char} {t : List Char}
    (ht : ∀ c ∈ t, Spells single c (spell c)) (hcs : cs ≠ [])
    (hnext : nextOf cs = ' ' ∨ nextOf cs = Scan.quoteOf single ∧ nextOf cs.tail ≠ '\'')
    (hcolumn : m.column ≠ 0) (h : i.Shows size 0 m (t.flatMap spell ++ cs)) (start : Mark)
    (fuel : Nat) (chars : List Char) :
    ∃ j, j.Shows size 1 (m.forward (t.flatMap spell).length) cs ∧
      (Scan.quotedFrom single start (fuel + 1) chars).run i =
        (if nextOf cs == Scan.quoteOf single then do
           Scan.skip
           return (t.reverse ++ chars).reverse
         else do
           let gap ← Scan.takeGap 0 start (j.size + 2) .empty
           Scan.quotedFrom single start fuel (gap.text ++ (t.reverse ++ chars)) :
             Scan (List Char)).run j := by
  obtain ⟨j, hneed, hj⟩ := h.need 4
  have hdoc : j.atDocumentMark = false := hj.atDocumentMark_eq_false (.inl hcolumn)
  have hend : j.head ≠ endChar := by
    rw [hj.head_eq]
    cases hall : t.flatMap spell ++ cs with
    | nil => exact absurd (List.append_eq_nil_iff.mp hall).2 hcs
    | cons c rest =>
      rw [hall] at hj
      exact hj.next_ne_endChar
  have hlength := length_le_flatMap fun c hc =>
      (show SpellsOrSpace single c (spell c) from .inl (ht c hc)).ne_nil
  have hsize := hj.size_le
  obtain ⟨k, hrun, hk⟩ := (hj.mono (by omega)).takeQuotedRun ht hnext start (j.size + 2)
    (by rw [List.length_append] at hsize; omega) chars
  obtain ⟨l, hneed', hl⟩ := (hk.mono (Nat.zero_le 2)).need 1
  refine ⟨l, hl, ?_⟩
  rw [Scan.quotedFrom, run_bind_ok hneed, run_get_bind, hdoc]
  dsimp only
  rw [if_neg (by simp), if_neg (by simpa using hend), run_bind_ok (Scan.fuel_run j), run_bind_ok hrun]
  dsimp only
  rw [run_bind_ok hneed', run_bind_ok (Scan.head_run l), hl.head_eq]
  split
  · rfl
  · rw [run_bind_ok (Scan.fuel_run l)]
    rfl

/-- **The rest of a quoted scalar, with the closing quote.** -/
theorem quotedFrom {single : Bool} {spell : Char → List Char} {t : List Char}
    (ht : ∀ c ∈ t, SpellsOrSpace single c (spell c)) (hcs : nextOf cs ≠ '\'') (hcolumn : m.column ≠ 0)
    (h : i.Shows size 0 m (t.flatMap spell ++ Scan.quoteOf single :: cs)) (start : Mark) (fuel : Nat)
    (hfuel : t.length < fuel) (chars : List Char) :
    ∃ j, (Scan.quotedFrom single start fuel chars).run i = .ok (chars.reverse ++ t, j) ∧
      j.Shows size 0 (m.forward ((t.flatMap spell).length + 1)) cs := by
  induction fuel generalizing i m t chars with
  | zero => omega
  | succ fuel ih =>
    rcases exists_gap fun c hc =>
        (ht c hc).imp_right And.left with hall | ⟨a, k, u, rfl, ha, hu, hspace⟩
    · have hclose : nextOf (Scan.quoteOf single :: cs) = ' ' ∨
          nextOf (Scan.quoteOf single :: cs) = Scan.quoteOf single ∧
            nextOf (Scan.quoteOf single :: cs).tail ≠ '\'' := .inr ⟨rfl, hcs⟩
      obtain ⟨j, hj, hrun⟩ := h.quotedFrom_run hall (by simp) hclose hcolumn start fuel chars
      refine ⟨j.skip, ?_, ?_⟩
      · rw [hrun, if_pos (by simp), run_bind_ok (Scan.skip_run j), run_pure_ok]
        simp
      · rw [← Mark.forward_forward]
        exact hj.skip
    · -- the spaces of the gap stand for themselves
      have hself : spell ' ' = [' '] := ((ht ' ' (by simp)).resolve_left hspace).2
      have hspaces : (List.replicate (k + 1) ' ').flatMap spell = List.replicate (k + 1) ' ' := by
        induction k + 1 with
        | zero => rfl
        | succ k ih => rw [List.replicate_succ, List.flatMap_cons, ih, hself]; rfl
      have hnext : isBlank (nextOf (u.flatMap spell ++ Scan.quoteOf single :: cs)) = false ∧
          isBreak (nextOf (u.flatMap spell ++ Scan.quoteOf single :: cs)) = false := by
        cases u with
        | nil => cases single <;> exact ⟨rfl, rfl⟩
        | cons c u =>
          rw [List.flatMap_cons, List.append_assoc]
          exact (hu c rfl).next _
      rw [List.flatMap_append, List.flatMap_append, hspaces, List.append_assoc,
        List.append_assoc] at h
      obtain ⟨j, hj, hrun⟩ :=
          h.quotedFrom_run ha (by simp [List.replicate_succ]) (.inl rfl) hcolumn start
        fuel chars
      have hsize := hj.size_le
      obtain ⟨l, hgap, hl⟩ :=
          (hj.mono (Nat.zero_le 1)).takeGap_spaces hnext.1 hnext.2 0 start (j.size + 2)
        (by simp at hsize; omega) .empty
      obtain ⟨r, hrest, hr⟩ := ih (fun c hc => ht c (by simp [hc])) (by simp [Mark.forward, hcolumn])
        (hl.mono (Nat.zero_le 1)) (by simp at hfuel; omega)
        (List.replicate (k + 1) ' ' ++ (a.reverse ++ chars))
      refine ⟨r, ?_, ?_⟩
      · rw [hrun, if_neg (by cases single <;> simp [List.replicate_succ, Scan.quoteOf]),
          run_bind_ok hgap]
        simpa [Gap.empty, Gap.text] using hrest
      · simp only [Mark.forward_forward] at hr
        rw [List.flatMap_append, List.flatMap_append, hspaces]
        simpa [Nat.add_assoc] using hr

/-- **A quoted scalar.** -/
theorem quotedScalar {single : Bool} {spell : Char → List Char} {t : List Char}
    (ht : ∀ c ∈ t, SpellsOrSpace single c (spell c)) (hcs : nextOf cs ≠ '\'')
    (h : i.Shows size 1 m (Scan.quoteOf single :: (t.flatMap spell ++ Scan.quoteOf single :: cs))) :
    ∃ j, (Scan.quotedScalar single).run i = .ok (⟨t, false⟩, j) ∧
      j.Shows size 0 (m.forward ((t.flatMap spell).length + 2)) cs := by
  have hsize := h.size_le
  have hlength := length_le_flatMap fun c hc => (ht c hc).ne_nil
  have hfuel : t.length < i.skip.size + 2 := by
    have hskip : i.skip.size = i.size := rfl
    rw [List.length_cons, List.length_append] at hsize
    omega
  obtain ⟨j, hrun, hj⟩ :=
      h.skip.quotedFrom ht hcs (by simp [Mark.right]) i.mark (i.skip.size + 2) hfuel []
  refine ⟨j, ?_, by rwa [Mark.right_forward] at hj⟩
  rw [Scan.quotedScalar, run_bind_ok (Scan.mark_run i), run_bind_ok (Scan.skip_run i),
    run_bind_ok (Scan.fuel_run i.skip), run_bind_ok hrun]
  rfl

end Input.Shows

end TinyLang.Yaml
