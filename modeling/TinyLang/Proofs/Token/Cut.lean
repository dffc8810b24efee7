import TinyLang.Token
import TinyLang.Proofs.Text.Lines
import Mathlib.Data.List.DropRight

/-!
# Cutting a text into tokens

`Cut` says what it means to cut a sequence of runes into tokens, without saying how: the tokens are
the longest runs of runes that separate nothing, in order, and each of them carries the place that a
cursor has come to. A cursor goes on rune by rune (`Cursor.step`) or over a whole span of text at once
(`Cursor.past`), with the same result (`Cursor.past_eq_after`).

* `Cut.unique`: there is only one way to cut.
* `Cut.words`, `Cut.placed`, `Cut.pairwise`, `Cut.outside`: what the tokens are, where they stand,
  that they stand apart, and what is between them.
* `cut_tokenizeFrom`: the tokens that are found line by line cut the whole text.
* `token_placed`: line and column of a token, told from the text before it.
-/

namespace TinyLang

/-! ## Cursors -/

/-- A place in a text, as it is counted. -/
structure Cursor where
  /-- Bytes of the text before the place. -/
  offset : Nat
  /-- The line, from 1. -/
  line : Nat
  /-- The column in runes, from 1. -/
  column : Nat
deriving DecidableEq, Repr

/-- What stands behind the last newline of a text. -/
def Text.lastLine (t : Text) : Text := t.rtakeWhile (· != Text.byte '\n')

namespace Cursor

/-- The first place of a text. -/
def start : Cursor := ⟨0, 1, 1⟩

/-- The place behind a span of text. -/
def past (p : Cursor) (span : Text) : Cursor where
  offset := p.offset + span.length
  line := p.line + span.count (Text.byte '\n')
  column := (if span.contains (Text.byte '\n') then 1 else p.column) + span.lastLine.runes.length

/-- The place behind a rune. -/
def step (p : Cursor) (r : Rune) : Cursor :=
  if r.bytes = [Text.byte '\n'] then ⟨p.offset + 1, p.line + 1, 1⟩
  else ⟨p.offset + r.bytes.length, p.line, p.column + 1⟩

/-- The place behind a sequence of runes. -/
def after (p : Cursor) (rs : List Rune) : Cursor := rs.foldl step p

/-- The token of a word that stands at a place. -/
def token (p : Cursor) (word : Text) : Token := ⟨word, p.offset, p.line, p.column⟩

theorem after_append (p : Cursor) (xs ys : List Rune) :
    p.after (xs ++ ys) = (p.after xs).after ys := List.foldl_append

theorem offset_step (p : Cursor) (r : Rune) : (p.step r).offset = p.offset + r.bytes.length := by
  unfold step
  split
  next h => rw [h]; rfl
  · rfl

theorem offset_after (p : Cursor) (rs : List Rune) :
    (p.after rs).offset = p.offset + (Text.ofRunes rs).length := by
  induction rs generalizing p with
  | nil => rfl
  | cons r rs ih =>
    have hcons : Text.ofRunes (r :: rs) = r.bytes ++ Text.ofRunes rs := rfl
    show ((p.step r).after rs).offset = _
    rw [ih, offset_step, hcons, List.length_append, Nat.add_assoc]

/-- Without a newline, the line stays and the column counts the runes. -/
theorem after_of_no_newline (p : Cursor) {rs : List Rune}
    (h : Text.byte '\n' ∉ Text.ofRunes rs) :
    p.after rs = ⟨p.offset + (Text.ofRunes rs).length, p.line, p.column + rs.length⟩ := by
  induction rs generalizing p with
  | nil => rfl
  | cons r rs ih =>
    have hcons : Text.ofRunes (r :: rs) = r.bytes ++ Text.ofRunes rs := rfl
    rw [hcons, List.mem_append, not_or] at h
    have hne : r.bytes ≠ [Text.byte '\n'] := by
      intro heq
      exact h.1 (by rw [heq]; exact List.mem_singleton_self _)
    show (p.step r).after rs = _
    rw [ih _ h.2, step, if_neg hne, hcons]
    simp only [List.length_append, List.length_cons, Cursor.mk.injEq, true_and]
    omega

theorem step_newline (p : Cursor) {r : Rune} (h : r.bytes = [Text.byte '\n']) :
    p.step r = ⟨p.offset + 1, p.line + 1, 1⟩ := if_pos h

end Cursor

theorem Text.lastLine_of_no_newline {t : Text} (h : Text.byte '\n' ∉ t) : t.lastLine = t := by
  unfold Text.lastLine
  rw [List.rtakeWhile_eq_self_iff]
  intro b hb
  simpa using fun heq : b = Text.byte '\n' => h (heq ▸ hb)

theorem Text.lastLine_append (a b : Text) :
    Text.lastLine (a ++ Text.byte '\n' :: b) = b.lastLine := by
  unfold Text.lastLine List.rtakeWhile
  rw [List.reverse_append, List.reverse_cons, List.append_assoc, List.singleton_append,
    List.takeWhile_append]
  split
  next hall =>
    rw [List.takeWhile_cons_of_neg (by simp), List.append_nil,
      (List.takeWhile_prefix _).eq_of_length hall]
  · rfl

/-- **The place behind a span** is found rune by rune. -/
theorem Cursor.past_eq_after (p : Cursor) (t : Text) : p.past t = p.after t.runes := by
  by_cases hnewline : Text.byte '\n' ∈ t
  · obtain ⟨a, b, rfl, ha⟩ := List.eq_append_cons_of_mem hnewline
    have hlt : b.length < (a ++ Text.byte '\n' :: b).length := by
      rw [List.length_append, List.length_cons]
      omega
    have hascii : Text.byte '\n' < 0x80 := by decide
    rw [Text.runes_append a (.ascii hascii b), Text.runes_ascii hascii, Cursor.after_append,
      Cursor.after_of_no_newline p (by rwa [Text.ofRunes_runes])]
    show _ = (Cursor.step _ _).after (Text.runes b)
    rw [Cursor.step_newline _ rfl, ← Cursor.past_eq_after, Cursor.past, Cursor.past,
      Text.lastLine_append, List.count_append, List.count_cons_self,
      List.count_eq_zero_of_not_mem ha, if_pos (by simp), ite_self, Text.ofRunes_runes,
      List.length_append, List.length_cons]
    simp only [Cursor.mk.injEq, and_true]
    omega
  · have hofRunes : Text.byte '\n' ∉ Text.ofRunes t.runes := by rwa [Text.ofRunes_runes]
    rw [Cursor.after_of_no_newline p hofRunes, Cursor.past, Text.ofRunes_runes,
      Text.lastLine_of_no_newline hnewline, List.count_eq_zero_of_not_mem hnewline, Nat.add_zero,
      if_neg (by simpa using hnewline)]
termination_by t.length

theorem Cursor.past_start (t : Text) :
    start.past t = ⟨t.length, 1 + t.count (Text.byte '\n'), 1 + t.lastLine.runes.length⟩ := by
  unfold Cursor.past start
  rw [ite_self, Nat.zero_add]

/-! ## Cutting -/

/-- Runes from a place on, cut into tokens: the longest runs of runes that separate nothing, in
order, each with the place it stands at. -/
inductive Cut : Cursor → List Rune → List Token → Prop
  | done (p : Cursor) : Cut p [] []
  | gap {p : Cursor} {r : Rune} {rs : List Rune} {ts : List Token} (hsep : r.isSeparator = true)
      (h : Cut (p.step r) rs ts) : Cut p (r :: rs) ts
  | word {p : Cursor} {rs run rest : List Rune} {ts : List Token} (hrs : rs = run ++ rest)
      (hne : run ≠ []) (hplain : ∀ r ∈ run, r.isSeparator = false)
      (hend : ∀ r ∈ rest.head?, r.isSeparator = true) (h : Cut (p.after run) rest ts) :
      Cut p rs (p.token (Text.ofRunes run) :: ts)

/-- The longest runs of runes of a text that separate nothing, in order. -/
def Text.runs (t : Text) : List Text :=
  ((t.runes.splitOnP Rune.isSeparator).filter fun run => !run.isEmpty).map Text.ofRunes

namespace Cut

variable {p : Cursor} {rs : List Rune} {ts : List Token}

/-- Separators in front belong to no token. -/
theorem gaps {xs : List Rune} (hsep : ∀ r ∈ xs, r.isSeparator = true) (h : Cut (p.after xs) rs ts) :
    Cut p (xs ++ rs) ts := by
  induction xs generalizing p with
  | nil => exact h
  | cons r xs ih =>
    rw [List.forall_mem_cons] at hsep
    exact .gap hsep.1 (ih hsep.2 h)

/-- What stands on the two sides of a separator is cut apart from each other. -/
theorem append {r : Rune} {ys : List Rune} {ts' : List Token} (h : Cut p rs ts)
    (hsep : r.isSeparator = true) (h' : Cut ((p.after rs).step r) ys ts') :
    Cut p (rs ++ r :: ys) (ts ++ ts') := by
  induction h with
  | done p => exact .gap hsep h'
  | gap hsep' _ ih => exact .gap hsep' (ih h')
  | @word p rs run rest ts hrs hne hplain hend _ ih =>
    subst hrs
    rw [Cursor.after_append] at h'
    refine .word (List.append_assoc ..) hne hplain ?_ (ih h')
    cases rest with
    | nil => simpa using hsep
    | cons r' rest => exact hend

/-- A longest run is what can be taken before the first separator. -/
theorem takeWhile_run {run rest : List Rune} (hplain : ∀ r ∈ run, r.isSeparator = false)
    (hend : ∀ r ∈ rest.head?, r.isSeparator = true) :
    (run ++ rest).takeWhile (fun r => !r.isSeparator) = run := by
  rw [List.takeWhile_append_of_pos (by simpa using hplain)]
  cases rest with
  | nil => simp
  | cons r rest => rw [List.takeWhile_cons_of_neg (by simpa using hend), List.append_nil]

/-- **There is only one way to cut.** -/
theorem unique {ts' : List Token} (h : Cut p rs ts) (h' : Cut p rs ts') : ts = ts' := by
  induction h generalizing ts' with
  | done p =>
    cases h' with
    | done => rfl
    | word hrs hne => exact absurd (List.append_eq_nil_iff.mp hrs.symm).1 hne
  | @gap p r rs ts hsep _ ih =>
    cases h' with
    | gap _ h' => exact ih h'
    | @word _ _ run _ _ hrs hne hplain =>
      obtain ⟨r', run, rfl⟩ := List.exists_cons_of_ne_nil hne
      obtain ⟨rfl, -⟩ := List.cons.inj hrs
      rw [hplain r List.mem_cons_self] at hsep
      cases hsep
  | @word p rs run rest ts hrs hne hplain hend _ ih =>
    cases h' with
    | done => exact absurd (List.append_eq_nil_iff.mp hrs.symm).1 hne
    | gap hsep =>
      obtain ⟨r', run, rfl⟩ := List.exists_cons_of_ne_nil hne
      obtain ⟨rfl, -⟩ := List.cons.inj hrs
      rw [hplain _ List.mem_cons_self] at hsep
      cases hsep
    | @word _ _ run' rest' ts' hrs' hne' hplain' hend' h' =>
      have hrun : run = run' := by
        rw [← takeWhile_run hplain hend, ← hrs, hrs', takeWhile_run hplain' hend']
      subst hrun
      rw [hrs] at hrs'
      obtain rfl := List.append_cancel_left hrs'
      rw [ih h']

/-! ### Where tokens stand -/

/-- A token is a run of the runes, at the place that the runes before it lead to. -/
theorem placed (h : Cut p rs ts) {t : Token} (ht : t ∈ ts) :
    ∃ before run after, rs = before ++ (run ++ after) ∧
      t = (p.after before).token (Text.ofRunes run) := by
  induction h with
  | done p => cases ht
  | @gap p r rs ts hsep _ ih =>
    obtain ⟨before, run, after, rfl, rfl⟩ := ih ht
    exact ⟨r :: before, run, after, rfl, rfl⟩
  | @word p rs run rest ts hrs hne hplain hend _ ih =>
    subst hrs
    rcases List.mem_cons.mp ht with rfl | ht
    · exact ⟨[], run, rest, rfl, rfl⟩
    · obtain ⟨before, run', after, rfl, rfl⟩ := ih ht
      exact ⟨run ++ before, run', after, by rw [List.append_assoc], by rw [Cursor.after_append]⟩

theorem offset_le (h : Cut p rs ts) {t : Token} (ht : t ∈ ts) : p.offset ≤ t.offset := by
  obtain ⟨before, run, after, -, rfl⟩ := h.placed ht
  show p.offset ≤ (p.after before).offset
  rw [Cursor.offset_after]
  exact Nat.le_add_right _ _

/-- Tokens come one behind the other. -/
theorem pairwise (h : Cut p rs ts) :
    ts.Pairwise fun t t' => t.offset + t.word.length ≤ t'.offset := by
  induction h with
  | done p => exact .nil
  | gap _ _ ih => exact ih
  | @word p rs run rest ts hrs hne hplain hend h ih =>
    refine .cons (fun t ht => ?_) ih
    have hle := h.offset_le ht
    rwa [Cursor.offset_after] at hle

/-- A byte outside of all tokens belongs to a separator. -/
theorem outside (h : Cut p rs ts) {k : Nat} (hk : k < (Text.ofRunes rs).length)
    (hout : ∀ t ∈ ts, ¬ (t.offset ≤ p.offset + k ∧ p.offset + k < t.offset + t.word.length)) :
    ∃ before r after, rs = before ++ r :: after ∧ r.isSeparator = true ∧
      (Text.ofRunes before).length ≤ k ∧ k < (Text.ofRunes before).length + r.bytes.length := by
  induction h generalizing k with
  | done p => cases hk
  | @gap p r rs ts hsep _ ih =>
    have hcons : Text.ofRunes (r :: rs) = r.bytes ++ Text.ofRunes rs := rfl
    rw [hcons, List.length_append] at hk
    by_cases hfirst : k < r.bytes.length
    · exact ⟨[], r, rs, rfl, hsep, Nat.zero_le _, by simpa [Text.ofRunes] using hfirst⟩
    · have hplace : p.offset + k = (p.step r).offset + (k - r.bytes.length) := by
        rw [Cursor.offset_step]
        omega
      rw [hplace] at hout
      obtain ⟨before, r', after, rfl, hsep', hle, hlt⟩ := ih (by omega) hout
      have hcons' : Text.ofRunes (r :: before) = r.bytes ++ Text.ofRunes before := rfl
      refine ⟨r :: before, r', after, rfl, hsep', ?_, ?_⟩ <;> rw [hcons', List.length_append] <;>
        omega
  | @word p rs run rest ts hrs hne hplain hend _ ih =>
    subst hrs
    rw [Text.ofRunes_append, List.length_append] at hk
    rw [List.forall_mem_cons] at hout
    have hbehind : (Text.ofRunes run).length ≤ k := by
      have hfirst : ¬ (p.offset ≤ p.offset + k ∧
        p.offset + k < p.offset + (Text.ofRunes run).length) := hout.1
      omega
    have hplace : p.offset + k = (p.after run).offset + (k - (Text.ofRunes run).length) := by
      rw [Cursor.offset_after]
      omega
    rw [hplace] at hout
    obtain ⟨before, r, after, rfl, hsep, hle, hlt⟩ := ih (by omega) hout.2
    refine ⟨run ++ before, r, after, by rw [List.append_assoc], hsep, ?_, ?_⟩ <;>
      rw [Text.ofRunes_append, List.length_append] <;> omega

/-- **The words are the longest runs.** -/
theorem words (h : Cut p rs ts) :
    ts.map Token.word =
      ((rs.splitOnP Rune.isSeparator).filter fun run => !run.isEmpty).map Text.ofRunes := by
  induction h with
  | done p => rfl
  | @gap p r rs ts hsep _ ih =>
    rw [List.splitOnP_cons_eq_if_modifyHead, if_pos hsep, ih]
    rfl
  | @word p rs run rest ts hrs hne hplain hend _ ih =>
    subst hrs
    rw [List.map_cons, ih]
    have hempty : (!run.isEmpty) = true := by simpa using hne
    cases rest with
    | nil => simp [List.splitOnP_eq_singleton hplain, List.splitOnP_nil, hempty, Cursor.token]
    | cons r rest =>
      have hsep : r.isSeparator = true := hend r rfl
      rw [List.splitOnP_append_cons_of_forall_mem hplain r hsep,
        List.splitOnP_cons_eq_if_modifyHead, if_pos hsep]
      simp [hempty, Cursor.token]

end Cut

/-! ## Cutting line by line -/

theorem Cursor.step_of_no_newline (p : Cursor) {r : Rune} (h : Text.byte '\n' ∉ r.bytes) :
    p.step r = ⟨p.offset + r.bytes.length, p.line, p.column + 1⟩ :=
  if_neg fun heq => h (by rw [heq]; exact List.mem_singleton_self _)

/-- A rune that separates nothing is a token of its own, or goes to the token right behind it. -/
theorem Cut.cons {p : Cursor} {r : Rune} {rs : List Rune} {ts : List Token} {joined : Bool}
    (hplain : r.isSeparator = false) (hnewline : Text.byte '\n' ∉ r.bytes)
    (h : Cut (p.step r) rs ts) (hjoined : ∀ r' ∈ rs.head?, r'.isSeparator = !joined)
    (hempty : joined = true → rs ≠ []) :
    Cut p (r :: rs) (addToTokens p.line ⟨r, p.offset, p.column⟩ (joined, ts)).2 := by
  cases joined with
  | false =>
    have hadd : (addToTokens p.line ⟨r, p.offset, p.column⟩ (false, ts)).2 =
        p.token r.bytes :: ts := by simp [addToTokens, hplain, Cursor.token]
    have hrun : Text.ofRunes [r] = r.bytes := by simp [Text.ofRunes]
    have hcut : Cut p (r :: rs) (p.token (Text.ofRunes [r]) :: ts) :=
      .word rfl (List.cons_ne_nil _ _) (by simpa using hplain) hjoined h
    rwa [hadd, ← hrun]
  | true =>
    obtain ⟨r', rs, rfl⟩ := List.exists_cons_of_ne_nil (hempty rfl)
    have hplain' : r'.isSeparator = false := hjoined r' rfl
    cases h with
    | gap hsep =>
      rw [hplain'] at hsep
      cases hsep
    | @word _ _ run rest ts hrs hne hrun hend h =>
      have hadd : (addToTokens p.line ⟨r, p.offset, p.column⟩
          (true, (p.step r).token (Text.ofRunes run) :: ts)).2 =
            p.token (Text.ofRunes (r :: run)) :: ts := by
        rw [Cursor.step_of_no_newline p hnewline]
        simp [addToTokens, hplain, Cursor.token, Text.ofRunes]
      rw [hadd]
      refine .word (by rw [hrs]; rfl) (List.cons_ne_nil _ _) ?_ hend h
      exact List.forall_mem_cons.mpr ⟨hplain, hrun⟩

/-- The tokens of runes without a newline, and whether the first of them starts at once. -/
theorem Cut.of_foldr (number offset column : Nat) {rs : List Rune}
    (h : Text.byte '\n' ∉ Text.ofRunes rs) :
    Cut ⟨offset, number, column⟩ rs
        ((placeRunes offset column rs).foldr (addToTokens number) (false, [])).2 ∧
      (∀ r ∈ rs.head?, r.isSeparator =
        !((placeRunes offset column rs).foldr (addToTokens number) (false, [])).1) ∧
      (((placeRunes offset column rs).foldr (addToTokens number) (false, [])).1 = true →
        rs ≠ []) := by
  induction rs generalizing offset column with
  | nil => exact ⟨.done _, by simp, fun h => absurd h Bool.false_ne_true⟩
  | cons r rs ih =>
    have hcons : Text.ofRunes (r :: rs) = r.bytes ++ Text.ofRunes rs := rfl
    rw [hcons, List.mem_append, not_or] at h
    have hstep : (⟨offset, number, column⟩ : Cursor).step r =
        ⟨offset + r.bytes.length, number, column + 1⟩ := Cursor.step_of_no_newline _ h.1
    obtain ⟨hcut, hhead, hne⟩ := ih (offset + r.bytes.length) (column + 1) h.2
    rw [placeRunes, List.foldr_cons]
    rcases hst : (placeRunes (offset + r.bytes.length) (column + 1) rs).foldr (addToTokens number)
      (false, []) with ⟨joined, tokens⟩
    rw [hst] at hcut hhead hne
    rw [← hstep] at hcut
    cases hsep : r.isSeparator with
    | true =>
      have hskip : addToTokens number ⟨r, offset, column⟩ (joined, tokens) = (false, tokens) := by
        simp [addToTokens, hsep]
      rw [hskip]
      exact ⟨.gap hsep hcut, by simpa using hsep, fun h => absurd h Bool.false_ne_true⟩
    | false =>
      have hjoined : (addToTokens number ⟨r, offset, column⟩ (joined, tokens)).1 = true := by
        cases joined <;> cases tokens <;> simp [addToTokens, hsep]
      refine ⟨Cut.cons hsep h.1 hcut hhead hne, ?_, fun _ => List.cons_ne_nil _ _⟩
      rw [hjoined]
      simpa using hsep

/-- **The tokens of a line** cut its runes. -/
theorem cut_tokensOf (number offset : Nat) {piece : Text} (h : Text.byte '\n' ∉ piece) :
    Cut ⟨offset, number, 1⟩ piece.runes (tokensOf number offset piece) :=
  (Cut.of_foldr number offset 1 (by rwa [Text.ofRunes_runes])).1

/-- The words of a line are its longest runs. -/
theorem Text.words_eq_runs {t : Text} (h : Text.byte '\n' ∉ t) : t.words = t.runs := by
  rw [← Text.words_tokensOf 1 0, (cut_tokensOf 1 0 h).words]
  rfl

/-- **The tokens of all lines** cut the runes of the text. -/
theorem cut_tokenizeFrom (number offset : Nat) (src : Text) :
    Cut ⟨offset, number, 1⟩ src.runes
      ((Text.tokenizeFrom number offset src.physicalLines).flatMap Line.tokens) := by
  by_cases hnewline : Text.byte '\n' ∈ src
  · obtain ⟨line, rest, rfl, hline⟩ := List.eq_append_cons_of_mem hnewline
    have hlt : rest.length < (line ++ Text.byte '\n' :: rest).length := by
      rw [List.length_append, List.length_cons]
      omega
    have hascii : Text.byte '\n' < 0x80 := by decide
    have hplace : (Cursor.after ⟨offset, number, 1⟩ (Text.runes line)).step
        ⟨some (Text.byte '\n').toNat, [Text.byte '\n']⟩ =
          ⟨offset + line.length + 1, number + 1, 1⟩ := by
      rw [Cursor.after_of_no_newline _ (by rwa [Text.ofRunes_runes]), Text.ofRunes_runes,
        Cursor.step_newline _ rfl]
    rw [Text.runes_append line (.ascii hascii rest), Text.runes_ascii hascii,
      Text.physicalLines_line hline, Text.tokenizeFrom, List.flatMap_cons]
    refine (cut_tokensOf number offset hline).append (by decide) ?_
    rw [hplace]
    exact cut_tokenizeFrom (number + 1) (offset + line.length + 1) rest
  · by_cases hnil : src = []
    · subst hnil
      exact .done _
    · rw [Text.physicalLines_single hnewline hnil, Text.tokenizeFrom, Text.tokenizeFrom,
        List.flatMap_singleton]
      exact cut_tokensOf number offset hnewline
termination_by src.length

/-- **Where a token stands** can be told from the text before it. -/
theorem token_placed {src : Text} {t : Token} (ht : t ∈ src.tokenize.flatMap Line.tokens) :
    t.word <+: src.drop t.offset ∧
      t.line = 1 + (src.take t.offset).count (Text.byte '\n') ∧
      t.column = 1 + (Text.lastLine (src.take t.offset)).runes.length := by
  obtain ⟨before, run, after, hrunes, rfl⟩ := (cut_tokenizeFrom 1 0 src).placed ht
  have hsrc : src = Text.ofRunes before ++ (Text.ofRunes run ++ Text.ofRunes after) := by
    rw [← Text.ofRunes_append, ← Text.ofRunes_append, ← hrunes, Text.ofRunes_runes]
  have hplace : Cursor.after ⟨0, 1, 1⟩ before = Cursor.start.past (Text.ofRunes before) := by
    rw [Cursor.past_eq_after, (Text.runes_of_append hrunes).1]
    rfl
  rw [hplace, Cursor.past_start, Cursor.token, hsrc, List.take_left, List.drop_left]
  exact ⟨List.prefix_append _ _, rfl, rfl⟩

namespace Text

/-- The tokens of a line name that line. -/
theorem line_tokensOf {number offset : Nat} {piece : Text} (h : byte '\n' ∉ piece) {t : Token}
    (ht : t ∈ tokensOf number offset piece) : t.line = number := by
  obtain ⟨before, run, after, hrunes, rfl⟩ := (cut_tokensOf number offset h).placed ht
  have hbefore : byte '\n' ∉ ofRunes before := by
    intro hmem
    apply h
    rw [← ofRunes_runes piece, hrunes, ofRunes_append]
    exact List.mem_append_left _ hmem
  rw [Cursor.after_of_no_newline _ hbefore]
  rfl

theorem line_of_mem_tokenizeFrom {number offset : Nat} {ps : List Text}
    (h : ∀ p ∈ ps, byte '\n' ∉ p) {l : Line} (hl : l ∈ tokenizeFrom number offset ps) {t : Token}
    (ht : t ∈ l.tokens) : t.line = l.number := by
  induction ps generalizing number offset with
  | nil => cases hl
  | cons p ps ih =>
    rw [List.forall_mem_cons] at h
    rcases List.mem_cons.mp hl with rfl | hl
    · exact line_tokensOf h.1 ht
    · exact ih h.2 hl

end Text

end TinyLang
