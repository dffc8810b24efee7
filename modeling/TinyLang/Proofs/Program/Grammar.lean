import Mathlib.Order.Bounds.Basic
import TinyLang.Proofs.Program.Source

/-!
# The grammar of a program

Which texts are programs, said without a reader: `Grammar.Line` is the form of a line, as its words.
A line is blank or a statement, which may stand behind a label. The reader goes by position and looks
at words more than once. It counts the words of a condition from the end of the line, and cuts what
is printed again after it has put it together. It accepts the grammar all the same, and nothing else.

* `Expr.exists_ofWords`, `PrintItem.exists_ofPiece`, `Action.exists_ofWords`,
  `Slot.exists_ofWords`: each reader succeeds exactly on its form.
* `Program.load_eq_error`: loading fails as the first line that is not of the form.
* `load_accepts_exactly_grammar`: the headline.
-/

namespace TinyLang

/-! ## The forms -/

namespace Grammar

/-- The ten operators. -/
def operators : List Text := ["+", "-", "*", "/", "<", ">", "<=", ">=", "==", "!="]

/-- A term is a word that starts with a letter, holds a double quote or is a number. -/
def Term (w : Text) : Prop :=
  w.startsWithLetter = true ∨ Text.byte '"' ∈ w ∨ ∃ v, Number.read? w = some v

/-- An expression is a term, or an operator between two terms. -/
inductive Expression : List Text → Prop
  | term {w : Text} (h : Term w) : Expression [w]
  | binary {l op r : Text} (hl : Term l) (hop : op ∈ operators) (hr : Term r) :
    Expression [l, op, r]

/-- A piece of a print list holds two double quotes or more, or none and is an expression. -/
def Piece (t : Text) : Prop :=
  2 ≤ t.count (Text.byte '"') ∨ Text.byte '"' ∉ t ∧ Expression t.words

/-- The four statements. What is printed is the words with single spaces between them, and its
pieces are what stands between the commas. -/
inductive Statement : List Text → Prop
  | assign (target : Text) {value : List Text} (h : Expression value) :
    Statement (("let" : Text) :: target :: ("=" : Text) :: value)
  | branch {condition : List Text} (h : Expression condition) (word label : Text) :
    Statement (("if" : Text) :: (condition ++ [word, label]))
  | input (target : Text) : Statement [("input" : Text), target]
  | print {words pieces : List Text} (hne : pieces ≠ [])
    (hcut : ∀ piece ∈ pieces, Text.byte ',' ∉ piece)
    (hjoin : Text.join "," pieces = Text.join " " words) (h : ∀ piece ∈ pieces, Piece piece) :
    Statement (("print" : Text) :: words)

/-- A line is blank, or a statement, or a statement behind a label that is not empty. -/
inductive Line : List Text → Prop
  | blank : Line []
  | plain {words : List Text} (h : Statement words) : Line words
  | labelled {label : Text} (hne : label ≠ []) {words : List Text} (h : Statement words) :
    Line ((label ++ (":" : Text)) :: words)

/-- The numbers of the lines that are not of the form. -/
def faulty (src : Text) : Set Nat :=
  {n | ∃ line, (line, n) ∈ src.physicalLines.zipIdx 1 ∧ ¬ Line line.words}

theorem Statement.ne_nil {words : List Text} (h : Statement words) : words ≠ [] := by
  rintro rfl
  cases h

/-- No statement starts with a label. -/
theorem Statement.unlabelled {first : Text} {rest : List Text} (h : Statement (first :: rest)) :
    first.endsWith ":" = false := by
  cases h <;> decide

end Grammar

/-! ## Expressions -/

theorem Operator.exists_ofWord? {w : Text} :
    (∃ op, Operator.ofWord? w = some op) ↔ w ∈ Grammar.operators := by
  have hspelt : Grammar.operators = Operator.spellings.map fun q => Text.ofString q.2 := rfl
  unfold Operator.ofWord?
  rw [hspelt, List.mem_map, ← Option.isSome_iff_exists, Option.isSome_map, List.find?_isSome]
  simp only [decide_eq_true_eq]

theorem Expr.exists_ofTerm {w : Text} : (∃ e, Expr.ofTerm w = .ok e) ↔ Grammar.Term w := by
  unfold Expr.ofTerm Grammar.Term
  by_cases hletter : w.startsWithLetter = true
  · rw [if_pos hletter]
    exact ⟨fun _ => .inl hletter, fun _ => ⟨_, rfl⟩⟩
  rw [if_neg hletter]
  by_cases hquote : Text.byte '"' ∈ w
  · rw [if_pos (by simpa using hquote)]
    exact ⟨fun _ => .inr (.inl hquote), fun _ => ⟨_, rfl⟩⟩
  rw [if_neg (by simpa using hquote)]
  cases hread : Number.read? w with
  | some v => exact ⟨fun _ => .inr (.inr ⟨v, rfl⟩), fun _ => ⟨_, rfl⟩⟩
  | none => exact ⟨nofun, by rintro (h | h | ⟨v, ⟨⟩⟩) <;> contradiction⟩

/-- **Words are an expression** exactly in one of the two forms. -/
theorem Expr.exists_ofWords {ws : List Text} :
    (∃ e, Expr.ofWords ws = .ok e) ↔ Grammar.Expression ws := by
  constructor
  · rintro ⟨e, h⟩
    unfold Expr.ofWords at h
    split at h
    · cases h
    · exact .term (Expr.exists_ofTerm.mp ⟨e, h⟩)
    next left op right =>
      split at h
      · cases h
      next o ho =>
        obtain ⟨l, hl, h⟩ := bind_eq_ok.mp h
        obtain ⟨r, hr, -⟩ := bind_eq_ok.mp h
        exact .binary (Expr.exists_ofTerm.mp ⟨l, hl⟩) (Operator.exists_ofWord?.mp ⟨o, ho⟩)
          (Expr.exists_ofTerm.mp ⟨r, hr⟩)
    · cases h
  · intro h
    cases h with
    | term h => exact Expr.exists_ofTerm.mpr h
    | binary hl hop hr =>
      obtain ⟨l, hl⟩ := Expr.exists_ofTerm.mpr hl
      obtain ⟨op, hop⟩ := Operator.exists_ofWord?.mpr hop
      obtain ⟨r, hr⟩ := Expr.exists_ofTerm.mpr hr
      refine ⟨.binary op l r, ?_⟩
      simp only [Expr.ofWords, hop]
      exact bind_eq_ok.mpr ⟨l, hl, bind_eq_ok.mpr ⟨r, hr, rfl⟩⟩

/-! ## Print lists -/

/-- There is text between quotes exactly if there are two quotes. -/
theorem exists_betweenQuotes? {t : Text} :
    (∃ text, betweenQuotes? t = some text) ↔ 2 ≤ t.count (Text.byte '"') := by
  constructor
  · rintro ⟨text, h⟩
    obtain ⟨-, a, b, rfl⟩ := betweenQuotes?_eq_some h
    simp only [List.count_append, List.count_cons_self]
    omega
  · intro h
    have hopen : Text.byte '"' ∈ t := List.count_pos_iff.mp (by omega)
    obtain ⟨a, rest, rfl, ha⟩ := List.eq_append_cons_of_mem hopen
    have hcount : 0 < rest.count (Text.byte '"') := by
      rw [List.count_append, List.count_eq_zero.mpr ha, List.count_cons_self] at h
      omega
    obtain ⟨text, b, rfl, htext⟩ := List.eq_append_cons_of_mem (List.count_pos_iff.mp hcount)
    exact ⟨text, betweenQuotes?_quoted htext ha b⟩

theorem PrintItem.exists_ofPiece {piece : Text} :
    (∃ item, PrintItem.ofPiece piece = .ok item) ↔ Grammar.Piece piece := by
  unfold PrintItem.ofPiece Grammar.Piece
  by_cases hquote : Text.byte '"' ∈ piece
  · rw [if_pos (by simpa using hquote), ← exists_betweenQuotes?]
    cases hbetween : betweenQuotes? piece with
    | some text => exact ⟨fun _ => .inl ⟨text, rfl⟩, fun _ => ⟨_, rfl⟩⟩
    | none => exact ⟨nofun, by rintro (⟨text, ⟨⟩⟩ | ⟨hno, -⟩); exact absurd hquote hno⟩
  · rw [if_neg (by simpa using hquote), List.count_eq_zero.mpr hquote, ← Expr.exists_ofWords]
    constructor
    · rintro ⟨item, h⟩
      obtain ⟨e, he, -⟩ := bind_eq_ok.mp h
      exact .inr ⟨hquote, e, he⟩
    · rintro (h | ⟨-, e, he⟩)
      · omega
      · exact ⟨.value e, bind_eq_ok.mpr ⟨e, he, rfl⟩⟩

/-- The pieces that a print list is cut into are the only ones that it is put together from. -/
theorem Grammar.statement_print {words : List Text} :
    Grammar.Statement (("print" : Text) :: words) ↔
      ∀ piece ∈ (Text.join " " words).pieces (Text.byte ','), Grammar.Piece piece := by
  have hcomma : ("," : Text) = [Text.byte ','] := rfl
  constructor
  · intro h
    cases h with
    | print hne hcut hjoin h =>
      rw [hcomma] at hjoin
      rw [← hjoin, Text.pieces_join hne hcut]
      exact h
  · exact .print (Text.pieces_ne_nil _ _) (fun piece hpiece => (Text.mem_pieces hpiece).1)
      (Text.join_pieces _ _)

/-! ## Statements -/

/-- **Words are an action** exactly in one of the four forms. -/
theorem Action.exists_ofWords {ws : List Text} :
    (∃ a, Action.ofWords ws = .ok a) ↔ Grammar.Statement ws := by
  constructor
  · rintro ⟨a, h⟩
    obtain ⟨target, es, e, rfl, he, -⟩ | ⟨es, word, label, e, rfl, he, -⟩ |
      ⟨words, items, rfl, hitems, -⟩ | ⟨target, rfl, -⟩ := Action.ofWords_cases h
    · exact .assign target (Expr.exists_ofWords.mp ⟨e, he⟩)
    · exact .branch (Expr.exists_ofWords.mp ⟨e, he⟩) word label
    · refine Grammar.statement_print.mpr fun piece hpiece => ?_
      exact PrintItem.exists_ofPiece.mp (exists_mapM_eq_ok.mp ⟨items, hitems⟩ piece hpiece)
    · exact .input target
  · intro h
    cases h with
    | assign target h =>
      obtain ⟨e, he⟩ := Expr.exists_ofWords.mpr h
      refine ⟨.assign target e, ?_⟩
      cases h <;> exact bind_eq_ok.mpr ⟨e, he, rfl⟩
    | branch h word label =>
      obtain ⟨e, he⟩ := Expr.exists_ofWords.mpr h
      refine ⟨.branch e label, ?_⟩
      cases h <;> exact bind_eq_ok.mpr ⟨e, he, rfl⟩
    | input target => exact ⟨.input target, rfl⟩
    | print hne hcut hjoin h =>
      have hpieces := Grammar.statement_print.mp (.print hne hcut hjoin h)
      obtain ⟨items, hitems⟩ := exists_mapM_eq_ok.mpr fun piece hpiece =>
        PrintItem.exists_ofPiece.mpr (hpieces piece hpiece)
      exact ⟨.print items, bind_eq_ok.mpr ⟨items, hitems, rfl⟩⟩

theorem Stmt.exists_ofWords {ws : List Text} {line : Int} :
    (∃ s, Stmt.ofWords ws line = .ok s) ↔ Grammar.Statement ws := by
  rw [← Action.exists_ofWords]
  simp only [Stmt.ofWords_eq_ok]
  constructor
  · rintro ⟨s, -, h⟩
    exact ⟨s.action, h⟩
  · rintro ⟨a, h⟩
    exact ⟨⟨line, a⟩, rfl, h⟩

/-! ## Lines -/

/-- **Words are a slot** exactly if they are of the form of a line. -/
theorem Slot.exists_ofWords {ws : List Text} {line : Int} :
    (∃ slot, Slot.ofWords ws line = .ok slot) ↔ Grammar.Line ws := by
  constructor
  · rintro ⟨slot, h⟩
    cases ws with
    | nil => exact .blank
    | cons first rest =>
      obtain ⟨hcolon, hlabel, -, s, hs, -⟩ | ⟨-, s, hs, -⟩ := Slot.ofWords_cons.mp h
      · rw [← Text.dropLast_append_colon hcolon]
        exact .labelled hlabel (Stmt.exists_ofWords.mp ⟨s, hs⟩)
      · exact .plain (Stmt.exists_ofWords.mp ⟨s, hs⟩)
  · intro h
    cases h with
    | blank => exact ⟨.blank, rfl⟩
    | plain h =>
      obtain ⟨s, hs⟩ := Stmt.exists_ofWords.mpr h
      obtain ⟨first, rest, rfl⟩ := List.exists_cons_of_ne_nil h.ne_nil
      exact ⟨_, Slot.ofWords_cons.mpr (.inr ⟨h.unlabelled, s, hs, rfl⟩)⟩
    | @labelled label hne words h =>
      obtain ⟨s, hs⟩ := Stmt.exists_ofWords.mpr h
      have hcolon : Text.endsWith (label ++ (":" : Text)) ":" = true :=
        List.isSuffixOf_iff_suffix.mpr (List.suffix_append _ _)
      have hlabel : (label ++ (":" : Text)).dropLast = label :=
        List.append_cancel_right (Text.dropLast_append_colon hcolon)
      refine ⟨_, Slot.ofWords_cons.mpr (.inl ⟨hcolon, ?_, h.ne_nil, s, hs, rfl⟩)⟩
      rwa [hlabel]

/-- A line that is no slot is malformed, and its number is told. -/
theorem Slot.ofWords_eq_error {ws : List Text} {line : Int} {d : Diagnostic}
    (h : Slot.ofWords ws line = .error d) : ∃ fault : SyntaxFault, d = fault.on line := by
  have hstmt : ∀ {ws : List Text}, Stmt.ofWords ws line = .error d →
      ∃ fault : SyntaxFault, d = fault.on line := by
    intro ws h
    unfold Stmt.ofWords at h
    split at h
    · cases h
    next fault _ =>
      cases h
      exact ⟨fault, rfl⟩
  unfold Slot.ofWords at h
  split at h
  · cases h
  split at h
  · dsimp only at h
    split at h
    · cases h
      exact ⟨_, rfl⟩
    split at h
    · cases h
      exact ⟨_, rfl⟩
    obtain h | ⟨s, -, ⟨⟩⟩ := bind_eq_error.mp h
    exact hstmt h
  · obtain h | ⟨s, -, ⟨⟩⟩ := bind_eq_error.mp h
    exact hstmt h

/-! ## Programs -/

/-- What is done with the words and the number of every line, in terms of the text alone. -/
theorem Text.mapM_tokenizeFrom {ε β : Type} (f : List Text → Nat → Except ε β)
    (number offset : Nat) (ps : List Text) :
    (Text.tokenizeFrom number offset ps).mapM (fun l => f l.words l.number) =
      (ps.zipIdx number).mapM fun q => f q.1.words q.2 := by
  induction ps generalizing number offset with
  | nil => rfl
  | cons p ps ih =>
    rw [Text.tokenizeFrom, List.zipIdx_cons, List.mapM_cons, List.mapM_cons, ih, Line.words,
      Text.words_tokensOf]

theorem Program.load_eq_bind (name src : Text) :
    Program.load name src =
      ((src.physicalLines.zipIdx 1).mapM fun q => Slot.ofWords q.1.words (q.2 : Nat)) >>=
        fun slots => .ok ⟨name, slots.toArray⟩ := by
  unfold Program.load Text.tokenize
  rw [Text.mapM_tokenizeFrom fun ws number => Slot.ofWords ws number]
  rfl

theorem Program.exists_load {name src : Text} :
    (∃ p, Program.load name src = .ok p) ↔ ∀ line ∈ src.physicalLines, Grammar.Line line.words := by
  have hlines : (∀ line ∈ src.physicalLines, Grammar.Line line.words) ↔
      ∀ q ∈ src.physicalLines.zipIdx 1, ∃ slot, Slot.ofWords q.1.words (q.2 : Nat) = .ok slot := by
    simp only [Slot.exists_ofWords]
    conv_lhs => rw [← List.zipIdx_map_fst 1 src.physicalLines, List.forall_mem_map]
  rw [hlines, ← exists_mapM_eq_ok, Program.load_eq_bind]
  constructor
  · rintro ⟨p, h⟩
    obtain ⟨slots, hslots, -⟩ := bind_eq_ok.mp h
    exact ⟨slots, hslots⟩
  · rintro ⟨slots, hslots⟩
    exact ⟨_, bind_eq_ok.mpr ⟨slots, hslots, rfl⟩⟩

/-- **Loading fails as the first line that is not of the form.** -/
theorem Program.load_eq_error {name src : Text} {d : Diagnostic} :
    Program.load name src = .error d ↔ ∃ i line, src.physicalLines[i]? = some line ∧
      Slot.ofWords line.words (i + 1 : Nat) = .error d ∧
        ∀ before ∈ src.physicalLines.take i, Grammar.Line before.words := by
  have hfails : Program.load name src = .error d ↔
      ((src.physicalLines.zipIdx 1).mapM fun q => Slot.ofWords q.1.words (q.2 : Nat)) =
        .error d := by
    rw [Program.load_eq_bind, bind_eq_error]
    exact ⟨by rintro (h | ⟨slots, -, ⟨⟩⟩); exact h, .inl⟩
  have hbefore : ∀ i, (∀ q ∈ (src.physicalLines.zipIdx 1).take i,
      ∃ slot, Slot.ofWords q.1.words (q.2 : Nat) = .ok slot) ↔
        ∀ before ∈ src.physicalLines.take i, Grammar.Line before.words := by
    intro i
    simp only [Slot.exists_ofWords]
    conv_rhs => rw [← List.zipIdx_map_fst 1 src.physicalLines, ← List.map_take, List.forall_mem_map]
  rw [hfails, mapM_eq_error]
  simp only [hbefore, List.getElem?_zipIdx, Option.map_eq_some_iff]
  constructor
  · rintro ⟨i, _, ⟨line, hline, rfl⟩, hfail, h⟩
    rw [Nat.add_comm] at hfail
    exact ⟨i, line, hline, hfail, h⟩
  · rintro ⟨i, line, hline, hfail, h⟩
    rw [Nat.add_comm] at hfail
    exact ⟨i, _, ⟨line, hline, rfl⟩, hfail, h⟩

/-- A line that is not of the form is the first if all before it are. -/
theorem Grammar.isLeast_faulty {src line : Text} {i : Nat}
    (hline : src.physicalLines[i]? = some line) (hfault : ¬ Grammar.Line line.words)
    (hbefore : ∀ before ∈ src.physicalLines.take i, Grammar.Line before.words) :
    IsLeast (Grammar.faulty src) (i + 1) := by
  constructor
  · exact ⟨line, List.mk_mem_zipIdx_iff_le_and_getElem?_sub.mpr ⟨by omega, hline⟩, hfault⟩
  · rintro n ⟨other, hmem, hother⟩
    obtain ⟨hn, hget⟩ := List.mk_mem_zipIdx_iff_le_and_getElem?_sub.mp hmem
    by_contra hlt
    have htake : (src.physicalLines.take i)[n - 1]? = some other := by
      rw [List.getElem?_take_of_lt (by omega), hget]
    exact hother (hbefore other (List.mem_of_getElem? htake))

/-- **Loading accepts exactly the grammar and reports the first line that is not of it.** A text is
loaded if and only if each of its lines has the form of a line. If it is not, the diagnostic is a
syntax error on the first line that has not, and every text with the same lines up to there gives the
same diagnostic, whatever follows. -/
theorem load_accepts_exactly_grammar (name src : Text) :
    ((∃ p, Program.load name src = .ok p) ↔
      ∀ line ∈ src.physicalLines, Grammar.Line line.words) ∧
    ∀ d, Program.load name src = .error d →
      d.report.kind = .syntaxError ∧
        ∃ n : Nat, d.line = n ∧ IsLeast (Grammar.faulty src) n ∧
          ∀ name' src' : Text, src'.physicalLines.take n = src.physicalLines.take n →
            Program.load name' src' = .error d := by
  refine ⟨Program.exists_load, fun d hd => ?_⟩
  obtain ⟨i, line, hline, hfail, hbefore⟩ := Program.load_eq_error.mp hd
  obtain ⟨fault, rfl⟩ := Slot.ofWords_eq_error hfail
  have hfault : ¬ Grammar.Line line.words := by
    intro h
    obtain ⟨slot, hslot⟩ := Slot.exists_ofWords.mpr h
    rw [hfail] at hslot
    cases hslot
  refine ⟨rfl, i + 1, rfl, Grammar.isLeast_faulty hline hfault hbefore, fun name' src' hsame => ?_⟩
  refine Program.load_eq_error.mpr ⟨i, line, ?_, hfail, ?_⟩
  · rw [← List.getElem?_take_of_lt (Nat.lt_succ_self i), hsame,
      List.getElem?_take_of_lt (Nat.lt_succ_self i), hline]
  · have htake : src'.physicalLines.take i = src.physicalLines.take i := by
      simpa [List.take_take] using congrArg (List.take i) hsame
    rwa [htake]

/-- A text with every form, and one whose third line has a quote that is cut off by a comma: it is the
first that is wrong, though the fifth is too. -/
theorem load_accepts_exactly_grammar_open_quote :
    let good : Text := "let a = 1\n\nl: print \"a\" , a + 1\nif a < 3 goto l\ninput b\n"
    let bad : Text := "let a = 1\n\nl: print \"x, y\"\nif a goto l\nlet b\n"
    (∀ line ∈ good.physicalLines, Grammar.Line line.words) ∧
      ∃ d, Program.load "bad" bad = .error d ∧ d.report.kind = .syntaxError ∧
        IsLeast (Grammar.faulty bad) 3 := by
  intro good bad
  have hgood : (Program.load "good" good).toOption.isSome = true := by decide +kernel
  have hbad : Program.load "bad" bad =
      .error ((SyntaxFault.openQuote ("\"x" : Text)).on 3) := by decide +kernel
  constructor
  · refine (load_accepts_exactly_grammar "good" good).1.mp ?_
    cases hload : Program.load "good" good with
    | ok p => exact ⟨p, rfl⟩
    | error d =>
      rw [hload] at hgood
      cases hgood
  · obtain ⟨hkind, n, hline, hleast, -⟩ := (load_accepts_exactly_grammar "bad" bad).2 _ hbad
    have hn : n = 3 := Int.ofNat_inj.mp hline.symm
    exact ⟨_, hbad, hkind, hn ▸ hleast⟩

end TinyLang
