import TinyLang.Proofs.Token.Cut

/-!
# Scanning a text in one pass

`Text.tokenize` takes a text line by line. A scanner takes it as a whole: at each place the first rule
that matches takes as many runes as it can, the cursor goes past them, and in the end every word is
filed under the line that its cursor names. A run of white space may then span many lines, and nothing
but counting says that the lines of the words are there.

* `Scanner.scan_cut`: the scanner finds a rule everywhere, and its words cut the text.
* `Scanner.lines_eq`: it finds a line for every word, and its lines are those of `tokenize`.
* `tokenize_cuts_exactly`: this, and what the lines and tokens of a text are.
-/

namespace TinyLang

/-- The code point that a scanner sees of a rune: a stray byte looks like the replacement
character. -/
def Rune.seen (r : Rune) : Nat := r.code?.getD 0xFFFD

namespace Scanner

/-! ## The scanner -/

/-- A rule: a class of code points, and whether they make words. -/
structure Rule where
  isWord : Bool
  accepts : Nat → Bool

/-- What a scanner may fail at: no rule matches at a place, or the line of a word is not there. -/
inductive Fault
  | noRule (place : Cursor)
  | noLine (token : Token)
deriving DecidableEq, Repr

/-- The code points between words, class by class: tab, newline, form feed, carriage return and
space; the vertical tab; the information separators; next line; the separators of Unicode. -/
def blankRanges : List (Nat × Nat) :=
  [(0x09, 0x0A), (0x0C, 0x0D), (0x20, 0x20), (0x0B, 0x0B), (0x1C, 0x1F), (0x85, 0x85),
    (0x20, 0x20), (0xA0, 0xA0), (0x1680, 0x1680), (0x2000, 0x200A), (0x2028, 0x2028),
    (0x2029, 0x2029), (0x202F, 0x202F), (0x205F, 0x205F), (0x3000, 0x3000)]

/-- Whether a code point is in the class between words. -/
def isBlankCode (c : Nat) : Bool := blankRanges.any fun (low, high) => low ≤ c && c ≤ high

/-- The two rules, in the order they are tried: words, and what is between them. -/
def rules : List Rule := [⟨true, fun c => !isBlankCode c⟩, ⟨false, isBlankCode⟩]

/-- What a rule matches at the head of a text: as many runes as it accepts. -/
def span (rule : Rule) (rest : Text) : Text :=
  Text.ofRunes (rest.runes.takeWhile fun r => rule.accepts r.seen)

/-- The first rule that matches something, and what it matches. -/
def firstMatch? (rest : Text) : Option (Rule × Text) :=
  rules.findSome? fun rule => if (span rule rest).isEmpty then none else some (rule, span rule rest)

theorem span_ne_nil {rest matched : Text} {rule : Rule}
    (h : firstMatch? rest = some (rule, matched)) : matched ≠ [] := by
  obtain ⟨rule', -, h⟩ := List.exists_of_findSome?_eq_some h
  split at h
  · cases h
  next hne =>
    cases h
    simpa using hne

theorem length_sub_lt {rest matched : Text} {rule : Rule} (hrest : rest ≠ [])
    (h : firstMatch? rest = some (rule, matched)) :
    rest.length - matched.length < rest.length := by
  have hmatched := List.length_pos_iff.mpr (span_ne_nil h)
  have hpos := List.length_pos_iff.mpr hrest
  omega

/-- Scans a text from a place on: takes the first match, and goes on behind it. -/
def scan (p : Cursor) (rest : Text) : Except Fault (List (Rule × Token)) :=
  if hrest : rest = [] then .ok []
  else
    match hmatch : firstMatch? rest with
    | none => .error (.noRule p)
    | some (rule, matched) =>
      have := length_sub_lt hrest hmatch
      do return (rule, p.token matched) :: (← scan (p.past matched) (rest.drop matched.length))
termination_by rest.length

/-- The words among scanned tokens. -/
def wordsAmong (found : List (Rule × Token)) : List Token :=
  (found.filter fun e => e.1.isWord).map Prod.snd

/-- Adds a token to the line that it names. -/
def file (lines : List Line) (t : Token) : Except Fault (List Line) :=
  if 1 ≤ t.line ∧ t.line ≤ lines.length then
    .ok (lines.modify (t.line - 1) fun l => { l with tokens := l.tokens ++ [t] })
  else .error (.noLine t)

/-- The lines of a text, by scanning all of it and filing the words under their lines. -/
def lines (src : Text) : Except Fault (List Line) := do
  let found ← scan .start src
  (wordsAmong found).foldlM file ((List.range' 1 src.countLines).map fun n => ⟨n, []⟩)

/-! ### What the scanner finds -/

theorem isBlankCode_eq (c : Nat) : isBlankCode c = separatesWords c := by
  rw [Bool.eq_iff_iff]
  simp only [isBlankCode, blankRanges, separatesWords, isSpaceCode, List.any_cons, List.any_nil,
    Bool.or_eq_true, Bool.and_eq_true, decide_eq_true_eq, beq_iff_eq, Bool.or_false]
  omega

theorem isBlankCode_seen (r : Rune) : isBlankCode r.seen = r.isSeparator := by
  rw [isBlankCode_eq]
  unfold Rune.seen Rune.isSeparator
  cases r.code? with
  | none => rfl
  | some c => rfl

/-- The head of a text decides which rule matches, and the match goes on while runes are alike. -/
theorem firstMatch?_eq {rest : Text} {r : Rune} {rs : List Rune} (h : rest.runes = r :: rs) :
    ∃ rule, rule.isWord = !r.isSeparator ∧ firstMatch? rest =
      some (rule, Text.ofRunes (rest.runes.takeWhile fun x => x.isSeparator == r.isSeparator)) := by
  have hbytes : r.bytes ≠ [] := by
    cases rest with
    | nil => cases h
    | cons b u =>
      obtain ⟨s, _, -, hs, hrunes⟩ := Text.runes_cons b u
      rw [hrunes] at h
      obtain ⟨rfl, -⟩ := List.cons.inj h
      rw [hs]
      exact List.cons_ne_nil _ _
  unfold firstMatch? rules span
  simp only [List.findSome?_cons, List.findSome?_nil, isBlankCode_seen, h]
  cases hsep : r.isSeparator with
  | true => exact ⟨⟨false, isBlankCode⟩, rfl, by simp [hsep, Text.ofRunes, hbytes]⟩
  | false => exact ⟨⟨true, fun c => !isBlankCode c⟩, rfl, by simp [hsep, Text.ofRunes, hbytes]⟩

theorem wordsAmong_cons (rule : Rule) (t : Token) (found : List (Rule × Token)) :
    wordsAmong ((rule, t) :: found) =
      if rule.isWord then t :: wordsAmong found else wordsAmong found := by
  unfold wordsAmong
  rw [List.filter_cons]
  split <;> rfl

/-- A match that is as long as can be is a gap, or a token. -/
theorem cut_front {p : Cursor} {r : Rune} {front back : List Rune} {ts : List Token}
    (hne : front ≠ []) (halike : ∀ x ∈ front, x.isSeparator = r.isSeparator)
    (hback : ∀ x ∈ back.head?, x.isSeparator = !r.isSeparator) (h : Cut (p.after front) back ts) :
    Cut p (front ++ back)
      (if !r.isSeparator then p.token (Text.ofRunes front) :: ts else ts) := by
  cases hsep : r.isSeparator with
  | true => exact .gaps (by simpa [hsep] using halike) h
  | false => exact .word rfl hne (by simpa [hsep] using halike) (by simpa [hsep] using hback) h

/-- The longest front of runes that are alike, and what stands behind it. -/
theorem exists_front {rs rs' : List Rune} {r : Rune} (h : rs = r :: rs') :
    ∃ front back, rs.takeWhile (fun x => x.isSeparator == r.isSeparator) = front ∧
      rs = front ++ back ∧ front ≠ [] ∧ (∀ x ∈ front, x.isSeparator = r.isSeparator) ∧
      ∀ x ∈ back.head?, x.isSeparator = !r.isSeparator := by
  refine ⟨_, rs.dropWhile fun x => x.isSeparator == r.isSeparator, rfl,
    List.takeWhile_append_dropWhile.symm, by simp [h], fun x hx => ?_, fun x hx => ?_⟩
  · simpa using List.mem_takeWhile_imp hx
  · have hstop := List.head?_dropWhile_not (fun x => x.isSeparator == r.isSeparator) rs
    rw [Option.mem_def.mp hx] at hstop
    have hunlike : ¬ x.isSeparator = r.isSeparator := by simpa using hstop
    exact Bool.eq_not.mpr hunlike

/-- **The scanner finds the tokens of a text**, and a rule everywhere. -/
theorem scan_cut (p : Cursor) (rest : Text) :
    ∃ found, scan p rest = .ok found ∧ Cut p rest.runes (wordsAmong found) := by
  rw [scan]
  by_cases hrest : rest = []
  · subst hrest
    exact ⟨[], by simp, .done p⟩
  obtain ⟨r, rs, hrunes⟩ : ∃ r rs, rest.runes = r :: rs := by
    obtain ⟨b, u, rfl⟩ := List.exists_cons_of_ne_nil hrest
    obtain ⟨_, v, -, -, hrunes⟩ := Text.runes_cons b u
    exact ⟨_, _, hrunes⟩
  obtain ⟨rule, hrule, hmatch⟩ := firstMatch?_eq hrunes
  obtain ⟨front, back, hfront, hsplit, hne, halike, hback⟩ := exists_front hrunes
  rw [hfront] at hmatch
  have hshorter := length_sub_lt hrest hmatch
  obtain ⟨hfrontRunes, hbackRunes⟩ := Text.runes_of_append hsplit
  have hdrop : rest.drop (Text.ofRunes front).length = Text.ofRunes back := by
    have htext : rest = Text.ofRunes front ++ Text.ofRunes back := by
      rw [← Text.ofRunes_append, ← hsplit, Text.ofRunes_runes]
    conv_lhs => rw [htext]
    exact List.drop_left
  obtain ⟨found, hfound, hcut⟩ :=
    scan_cut (p.past (Text.ofRunes front)) (rest.drop (Text.ofRunes front).length)
  rw [hdrop, hbackRunes, Cursor.past_eq_after, hfrontRunes] at hcut
  refine ⟨(rule, p.token (Text.ofRunes front)) :: found, ?_, ?_⟩
  · rw [dif_neg hrest]
    split
    next hnone =>
      rw [hmatch] at hnone
      cases hnone
    next hmatch' =>
      rw [hmatch] at hmatch'
      cases hmatch'
      rw [hfound]
      rfl
  · rw [hsplit, wordsAmong_cons, hrule]
    exact cut_front hne halike hback hcut
termination_by rest.length

/-! ### Filing words under their lines -/

/-- A word is added to the line with its number. -/
theorem modify_lines (n : Nat) (f : Nat → List Token) {t : Token} (hpos : 1 ≤ t.line) :
    ((List.range' 1 n).map fun k => (⟨k, f k⟩ : Line)).modify (t.line - 1)
        (fun l => { l with tokens := l.tokens ++ [t] }) =
      (List.range' 1 n).map fun k => ⟨k, f k ++ [t].filter fun t => t.line = k⟩ := by
  refine List.ext_getElem? fun i => ?_
  rw [List.getElem?_modify, List.getElem?_map, List.getElem?_map]
  by_cases hi : i < n
  · rw [List.getElem?_range' hi]
    by_cases hline : t.line = 1 + i
    · simp [hline]
    · have hne : ¬ t.line - 1 = i := by omega
      simp [hline, hne]
  · rw [List.getElem?_eq_none (by simpa using hi)]
    rfl

/-- **Words that name lines which are there are filed under them**, in order. -/
theorem foldlM_file {n : Nat} {ts : List Token} (h : ∀ t ∈ ts, 1 ≤ t.line ∧ t.line ≤ n) :
    ts.foldlM file ((List.range' 1 n).map fun k => ⟨k, []⟩) =
      .ok ((List.range' 1 n).map fun k => ⟨k, ts.filter fun t => t.line = k⟩) := by
  induction ts using List.reverseRecOn with
  | nil => rfl
  | append_singleton ts t ih =>
    obtain ⟨hts, ht⟩ := List.forall_mem_append.mp h
    obtain ⟨hpos, hle⟩ := ht t (List.mem_singleton_self t)
    have hfile : ∀ lines : List Line, lines.length = n → file lines t =
        .ok (lines.modify (t.line - 1) fun l => { l with tokens := l.tokens ++ [t] }) := by
      intro lines hlength
      exact if_pos ⟨hpos, by omega⟩
    rw [List.foldlM_append, ih hts]
    show file _ t >>= pure = _
    rw [hfile _ (by simp), modify_lines n _ hpos]
    simp only [List.filter_append]
    rfl

/-- If every token names its line and no two lines share a number, the tokens of a line are those that
name it. -/
theorem filter_tokens {ls : List Line} (hline : ∀ l ∈ ls, ∀ t ∈ l.tokens, t.line = l.number)
    (hnumber : (ls.map Line.number).Nodup) {l : Line} (hl : l ∈ ls) :
    (ls.flatMap Line.tokens).filter (fun t => t.line = l.number) = l.tokens := by
  induction ls with
  | nil => cases hl
  | cons l' ls ih =>
    rw [List.forall_mem_cons] at hline
    rw [List.map_cons, List.nodup_cons] at hnumber
    rw [List.flatMap_cons, List.filter_append]
    rcases List.mem_cons.mp hl with rfl | hl
    · rw [List.filter_eq_self.mpr (by simpa using hline.1), List.filter_eq_nil_iff.mpr,
        List.append_nil]
      intro t ht
      obtain ⟨l', hl', ht⟩ := List.mem_flatMap.mp ht
      rw [hline.2 l' hl' t ht]
      simpa using fun heq : l'.number = l.number => hnumber.1 (heq ▸ List.mem_map_of_mem hl')
    · rw [ih hline.2 hnumber.2 hl, List.filter_eq_nil_iff.mpr, List.nil_append]
      intro t ht
      rw [hline.1 t ht]
      simpa using fun heq : l'.number = l.number => hnumber.1 (heq ▸ List.mem_map_of_mem hl)

/-- **The scanner's lines are the lines of the text.** It finds a rule everywhere, and every word
names a line that is there. -/
theorem lines_eq (src : Text) : lines src = .ok src.tokenize := by
  obtain ⟨found, hfound, hcut⟩ := scan_cut .start src
  have hwords : wordsAmong found = src.tokenize.flatMap Line.tokens :=
    hcut.unique (cut_tokenizeFrom 1 0 src)
  have hnumbers : src.tokenize.map Line.number = List.range' 1 src.countLines :=
    Text.map_number_tokenizeFrom 1 0 src.physicalLines
  have hline : ∀ l ∈ src.tokenize, ∀ t ∈ l.tokens, t.line = l.number := fun l hl t ht =>
    Text.line_of_mem_tokenizeFrom (fun _ => Text.no_newline_of_mem_physicalLines) hl ht
  have hbounds : ∀ t ∈ wordsAmong found, 1 ≤ t.line ∧ t.line ≤ src.countLines := by
    rw [hwords]
    intro t ht
    obtain ⟨l, hl, ht⟩ := List.mem_flatMap.mp ht
    have hmem : l.number ∈ List.range' 1 src.countLines := hnumbers ▸ List.mem_map_of_mem hl
    rw [hline l hl t ht]
    rw [List.mem_range'_1] at hmem
    omega
  have hnodup : (src.tokenize.map Line.number).Nodup := hnumbers ▸ List.nodup_range'
  unfold lines
  rw [hfound]
  show List.foldlM _ _ _ = _
  rw [foldlM_file hbounds, hwords, ← hnumbers, List.map_map]
  refine congrArg _ ?_
  conv_rhs => rw [← List.map_id src.tokenize]
  refine List.map_congr_left fun l hl => ?_
  show (⟨l.number, (src.tokenize.flatMap Line.tokens).filter fun t => t.line = l.number⟩ : Line) = l
  rw [filter_tokens hline hnodup hl]

end Scanner

/-- **A text is cut exactly at its newlines and its white space.** Scanning it in one pass, with the
first rule that matches at each place and every word filed under the line that the place names, finds
a rule everywhere and a line for every word, and gives `tokenize`. There is a line for each newline,
and one more for what stands behind the last, numbered from 1. The words of a line are the longest runs
of runes of its piece of the text that separate nothing, and a stray byte is such a rune by itself. A
token stands at its offset, its line is one more than the newlines before it, and its column one more
than the runes between the last of them and it. So tokens stand apart from each other, in increasing
order, and a byte outside of them belongs to a rune that separates words. -/
theorem tokenize_cuts_exactly (src : Text) :
    Scanner.lines src = .ok src.tokenize ∧
    src.countLines =
      (if src = [] then 0 else src.count (Text.byte '\n') + if src.endsWith "\n" then 0 else 1) ∧
    src.tokenize.map Line.number = List.range' 1 src.countLines ∧
    src.tokenize.map Line.words =
      ((src.pieces (Text.byte '\n')).take src.countLines).map Text.runs ∧
    (∀ r ∈ src.runes, r.code? = none → r.bytes.length = 1 ∧ r.isSeparator = false) ∧
    (∀ l ∈ src.tokenize, ∀ t ∈ l.tokens, t.word <+: src.drop t.offset ∧ t.line = l.number ∧
      t.line = 1 + (src.take t.offset).count (Text.byte '\n') ∧
      t.column = 1 + (Text.lastLine (src.take t.offset)).runes.length) ∧
    (src.tokenize.flatMap Line.tokens).Pairwise (fun t t' =>
      t.offset < t'.offset ∧ t.offset + t.word.length ≤ t'.offset) ∧
    ∀ k < src.length, (∀ l ∈ src.tokenize, ∀ t ∈ l.tokens,
        ¬ (t.offset ≤ k ∧ k < t.offset + t.word.length)) →
      ∃ before r after, src.runes = before ++ r :: after ∧ r.isSeparator = true ∧
        (Text.ofRunes before).length ≤ k ∧
        k < (Text.ofRunes before).length + r.bytes.length := by
  have hcut : Cut .start src.runes (src.tokenize.flatMap Line.tokens) := cut_tokenizeFrom 1 0 src
  have hnewline : ∀ p ∈ src.physicalLines, Text.byte '\n' ∉ p :=
    fun _ => Text.no_newline_of_mem_physicalLines
  refine ⟨Scanner.lines_eq src, Text.countLines_eq src,
    Text.map_number_tokenizeFrom 1 0 src.physicalLines, ?_, ?_, ?_, ?_, ?_⟩
  · rw [Text.tokenize, Text.map_words_tokenizeFrom, ← Text.physicalLines_eq_take]
    exact List.map_congr_left fun p hp => Text.words_eq_runs (hnewline p hp)
  · intro r hr hcode
    obtain ⟨b, rfl⟩ := Text.stray_of_mem_runes hr hcode
    exact ⟨rfl, rfl⟩
  · intro l hl t ht
    obtain ⟨hword, hline, hcolumn⟩ := token_placed (List.mem_flatMap.mpr ⟨l, hl, ht⟩)
    exact ⟨hword, Text.line_of_mem_tokenizeFrom hnewline hl ht, hline, hcolumn⟩
  · refine hcut.pairwise.imp_of_mem fun {t t'} ht _ hle => ⟨?_, hle⟩
    obtain ⟨l, hl, ht⟩ := List.mem_flatMap.mp ht
    have hword : IsWord t.word := Text.isWord_of_mem_tokenize hl (List.mem_map_of_mem ht)
    have hpos := List.length_pos_iff.mpr hword.1
    omega
  · intro k hk hout
    refine hcut.outside (by rwa [Text.ofRunes_runes]) fun t ht => ?_
    obtain ⟨l, hl, ht⟩ := List.mem_flatMap.mp ht
    show ¬ (t.offset ≤ 0 + k ∧ 0 + k < _)
    rw [Nat.zero_add]
    exact hout l hl t ht

/-- Words behind a tab, a stray byte and a wide space, and a blank line. -/
theorem tokenize_cuts_exactly_stray :
    let src : Text := ("a\tb\n" : Text) ++ 0xFF :: (" é\u2003c\n \n" : Text)
    Scanner.lines src = .ok [⟨1, [⟨"a", 0, 1, 1⟩, ⟨"b", 2, 1, 3⟩]⟩,
      ⟨2, [⟨[0xFF], 4, 2, 1⟩, ⟨"é", 6, 2, 3⟩, ⟨"c", 11, 2, 5⟩]⟩, ⟨3, []⟩] ∧
    (2 : Nat) = 1 + (src.take 11).count (Text.byte '\n') ∧
    (5 : Nat) = 1 + (Text.lastLine (src.take 11)).runes.length ∧
    ∃ before r after, src.runes = before ++ r :: after ∧ r.isSeparator = true ∧
      (Text.ofRunes before).length ≤ 9 ∧ 9 < (Text.ofRunes before).length + r.bytes.length := by
  intro src
  have htokens : src.tokenize = [⟨1, [⟨"a", 0, 1, 1⟩, ⟨"b", 2, 1, 3⟩]⟩,
      ⟨2, [⟨[0xFF], 4, 2, 1⟩, ⟨"é", 6, 2, 3⟩, ⟨"c", 11, 2, 5⟩]⟩, ⟨3, []⟩] := by decide +kernel
  obtain ⟨hlines, -, -, -, -, hplaced, -, houtside⟩ := tokenize_cuts_exactly src
  rw [htokens] at hlines hplaced houtside
  obtain ⟨-, -, hline, hcolumn⟩ := hplaced _ (.tail _ (.head _)) _ (.tail _ (.tail _ (.head _)))
  exact ⟨hlines, hline, hcolumn, houtside 9 (by decide) (by decide)⟩

end TinyLang
