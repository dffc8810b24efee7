import TinyLang.Proofs.Machine.Findings
import TinyLang.Proofs.Machine.Unbounded
import TinyLang.Proofs.Program.Source

/-!
# Why a run stops

Executing a statement can fail in more ways than a loaded program has: a number may be unreadable,
an operator unlisted, an expression missing, the output full. Loading rules out the first three, and
an output without a bound the last. What is left are the four reasons that the language names
(`NamedReason`), each on the line of the statement, and the limit on the number of statements.

* `Expr.eval_stop`: an expression of a loaded program has no value if it reads a variable without a
  value, or holds quoted text.
* `PrintItem.quotations_ofPiece`: quoted text never stands in the expressions of a print list.
* `Machine.exec_stop`: a statement of a loaded program stops for a named reason.
* `run_stops_for_named_reasons`: the headline, for every run.
-/

namespace TinyLang

/-- The quoted texts in an expression, from left to right. -/
def Expr.quotations : Expr → List Text
  | .quotation text => [text]
  | .binary _ left right => left.quotations ++ right.quotations
  | _ => []

/-- The expression that an action needs the value of: the value of an assignment or the condition of
a branch. -/
def Action.operand? : Action → Option Expr
  | .assign _ e => some e
  | .branch c _ => some c
  | _ => none

/-- The reasons that the language names for a statement to stop a run, with the variables as they
are then. -/
inductive NamedReason (p : Program) (s : Stmt) (vars : Table Number) : Stop → Prop
  /-- The statement reads a variable that has no value. -/
  | undefinedVariable {name : Text} (hread : name ∈ s.action.reads)
      (hvalue : vars.find? name = none) :
      NamedReason p s vars (.failed ⟨s.line, .undefinedVariable name⟩)
  /-- The statement branches to a label that no line carries. -/
  | illegalGoto {condition : Expr} {label : Text} (haction : s.action = .branch condition label)
      (hlabel : ∀ line, p.label? line ≠ some label) :
      NamedReason p s vars (.failed ⟨s.line, .illegalGoto label⟩)
  /-- The statement assigns or tests quoted text. -/
  | textAsNumber {e : Expr} {text : Text} (hoperand : s.action.operand? = some e)
      (htext : text ∈ e.quotations) :
      NamedReason p s vars (.failed ((SyntaxFault.textAsNumber text).on s.line))
  /-- The statement reads input. -/
  | badInput {target : Text} (haction : s.action = .input target) :
      NamedReason p s vars (.failed ⟨s.line, .badInput⟩)

/-- No other syntax fault and no defect is a named reason. -/
theorem NamedReason.fault {p : Program} {s : Stmt} {vars : Table Number} {stop : Stop}
    (h : NamedReason p s vars stop) :
    (∀ fault line, stop = .failed (SyntaxFault.on fault line) →
      ∃ text, fault = .textAsNumber text) ∧
      (∀ defect, stop ≠ .defective defect) ∧ stop ≠ .outputFull := by
  cases h <;> simp [SyntaxFault.on]

/-! ## Expressions -/

section Expr

variable {vars : Table Number} {line : Int} {stop : Stop}

theorem Operator.exists_result? {op : Operator} (h : ∀ code, op ≠ .unlisted code) (x y : Number) :
    ∃ v, op.result? x y = some v := by
  cases op with
  | unlisted code => exact absurd rfl (h code)
  | _ => exact ⟨_, rfl⟩

/-- Why a term has no value. -/
theorem Expr.IsTerm.eval_stop {e : Expr} (he : e.IsTerm) (h : e.eval vars line = .error stop) :
    (∃ name ∈ e.reads, vars.find? name = none ∧ stop = undefinedAt line name) ∨
      ∃ text ∈ e.quotations, stop = .failed ((SyntaxFault.textAsNumber text).on line) := by
  cases e with
  | var name =>
    rw [Expr.eval] at h
    cases hfind : vars.find? name with
    | some v => simp [hfind] at h
    | none =>
      rw [hfind] at h
      cases h
      exact .inl ⟨name, List.mem_singleton_self name, hfind, rfl⟩
  | number text =>
    obtain ⟨v, hread⟩ := he
    simp [Expr.eval, hread] at h
  | quotation text =>
    cases h
    exact .inr ⟨text, List.mem_singleton_self text, rfl⟩
  | binary op left right => exact absurd he id
  | hole => exact absurd he id

/-- **Why an expression of a loaded program has no value.** -/
theorem Expr.eval_stop {e : Expr} (he : e.Sound) (h : e.eval vars line = .error stop) :
    (∃ name ∈ e.reads, vars.find? name = none ∧ stop = undefinedAt line name) ∨
      ∃ text ∈ e.quotations, stop = .failed ((SyntaxFault.textAsNumber text).on line) := by
  cases e with
  | binary op left right =>
    obtain ⟨hop, hleft, hright⟩ := he
    rw [Expr.eval] at h
    rcases bind_eq_error.1 h with h | ⟨x, -, h⟩
    · obtain ⟨name, hname, hstop⟩ | ⟨text, htext, hstop⟩ := hleft.eval_stop h
      · exact .inl ⟨name, List.mem_append_left _ hname, hstop⟩
      · exact .inr ⟨text, List.mem_append_left _ htext, hstop⟩
    rcases bind_eq_error.1 h with h | ⟨y, -, h⟩
    · obtain ⟨name, hname, hstop⟩ | ⟨text, htext, hstop⟩ := hright.eval_stop h
      · exact .inl ⟨name, List.mem_append_right _ hname, hstop⟩
      · exact .inr ⟨text, List.mem_append_right _ htext, hstop⟩
    obtain ⟨v, hv⟩ := Operator.exists_result? hop x y
    simp [hv] at h
  | var name => exact Expr.IsTerm.eval_stop he h
  | number text => exact Expr.IsTerm.eval_stop he h
  | quotation text => exact Expr.IsTerm.eval_stop he h
  | hole => exact Expr.IsTerm.eval_stop he h

end Expr

/-! ## Print lists -/

theorem Expr.quotations_ofTerm {w : Text} {e : Expr} (hquote : Text.byte '"' ∉ w)
    (h : Expr.ofTerm w = .ok e) : e.quotations = [] := by
  unfold Expr.ofTerm at h
  split at h
  · cases h
    rfl
  split at h
  next hmem => exact absurd (by simpa using hmem) hquote
  split at h
  · cases h
    rfl
  · cases h

theorem Expr.quotations_ofWords {ws : List Text} {e : Expr} (hquote : ∀ w ∈ ws, Text.byte '"' ∉ w)
    (h : Expr.ofWords ws = .ok e) : e.quotations = [] := by
  unfold Expr.ofWords at h
  split at h
  · cases h
  · exact Expr.quotations_ofTerm (hquote _ (by simp)) h
  next left op right =>
    split at h
    · cases h
    next o ho =>
      obtain ⟨l, hl, h⟩ := bind_eq_ok.mp h
      obtain ⟨r, hr, h⟩ := bind_eq_ok.mp h
      cases h
      rw [Expr.quotations, Expr.quotations_ofTerm (hquote left (by simp)) hl,
        Expr.quotations_ofTerm (hquote right (by simp)) hr, List.append_nil]
  · cases h

/-- A piece with a quote in it is a literal, so an expression between commas holds no quoted
text. -/
theorem PrintItem.quotations_ofPiece {piece : Text} {e : Expr}
    (h : PrintItem.ofPiece piece = .ok (.value e)) : e.quotations = [] := by
  have hquote : Text.byte '"' ∉ piece := by
    unfold PrintItem.ofPiece at h
    split at h
    · split at h <;> cases h
    next hmem => simpa using hmem
  exact Expr.quotations_ofWords (fun w hw hb => hquote (Text.mem_of_mem_words hw hb))
    (PrintItem.ofPiece_value h)

/-- The expressions of a print list that words give hold no quoted text. -/
theorem Action.quotations_print {ws : List Text} {items : List PrintItem}
    (h : Action.ofWords ws = .ok (.print items)) {e : Expr} (he : .value e ∈ items) :
    e.quotations = [] := by
  obtain ⟨_, _, _, -, -, ⟨⟩⟩ | ⟨_, _, _, _, -, -, ⟨⟩⟩ | ⟨words, _, -, hitems, ⟨⟩⟩ | ⟨_, -, ⟨⟩⟩ :=
    Action.ofWords_cases h
  obtain ⟨piece, -, hpiece⟩ := exists_of_mem_mapM hitems he
  exact PrintItem.quotations_ofPiece hpiece

/-! ## Statements -/

theorem PrintItem.eval_stop {vars : Table Number} {line : Int} {stop : Stop} {item : PrintItem}
    (h : item.eval vars line = .error stop) :
    ∃ e, item = .value e ∧ e.eval vars line = .error stop := by
  cases item with
  | literal text => cases h
  | value e =>
    rcases bind_eq_error.1 h with h | ⟨v, -, ⟨⟩⟩
    exact ⟨e, rfl, h⟩

/-- An operand without a value is a named reason to stop. -/
theorem NamedReason.of_operand {p : Program} {vars : Table Number} {s : Stmt} {e : Expr}
    {stop : Stop} (hoperand : s.action.operand? = some e) (he : e.Sound)
    (h : e.eval vars s.line = .error stop) : NamedReason p s vars stop := by
  obtain ⟨name, hname, hfind, rfl⟩ | ⟨text, htext, rfl⟩ := Expr.eval_stop he h
  · refine .undefinedVariable ?_ hfind
    obtain ⟨line, action⟩ := s
    cases action <;> cases hoperand <;> exact hname
  · exact .textAsNumber hoperand htext

/-- **A statement of a loaded program stops for a named reason**, where there is no bound on the
output. -/
theorem Machine.exec_stop {p : Program} {m m' : Machine} {conf : Settings} {s : Stmt} {stop : Stop}
    (hsound : s.action.Sound)
    (hprint : ∀ items, s.action = .print items → ∀ e, .value e ∈ items → e.quotations = [])
    (hlabels : m.labels = p.labels.mapValues fun (line : Nat) => (line : Int))
    (hroom : m.output.room = none) (h : m.exec conf s = (m', .error stop)) :
    NamedReason p s m'.vars stop := by
  obtain ⟨line, action⟩ := s
  cases action with
  | assign target e =>
    simp only [exec, perform_assign] at h
    cases he : e.eval m.vars line with
    | ok v => simp [he] at h
    | error stop' =>
      rw [he] at h
      cases h
      exact .of_operand rfl hsound he
  | branch c label =>
    simp only [exec, perform_branch] at h
    cases hc : c.eval m.vars line with
    | error stop' =>
      rw [hc] at h
      cases h
      exact .of_operand rfl hsound hc
    | ok v =>
      simp only [hc] at h
      split at h
      · cases hfind : m.labels.find? label with
        | some target => simp [hfind] at h
        | none =>
          rw [hfind] at h
          cases h
          rw [hlabels, Table.find?_mapValues, Option.map_eq_none_iff] at hfind
          exact .illegalGoto rfl (Program.label?_ne hfind)
      · cases h
  | print items =>
    rw [exec_print hroom] at h
    cases hprinted : m.printed line items with
    | ok text => simp [hprinted] at h
    | error stop' =>
      rw [hprinted] at h
      cases h
      obtain ⟨item, hmem, hitem⟩ := exists_of_mapM_error (printed_eq_error.1 hprinted)
      obtain ⟨e, rfl, he⟩ := PrintItem.eval_stop hitem
      obtain ⟨name, hname, hfind, rfl⟩ | ⟨text, htext, rfl⟩ := Expr.eval_stop (hsound e hmem) he
      · exact .undefinedVariable (List.mem_flatMap.2 ⟨_, hmem, hname⟩) hfind
      · rw [hprint items rfl e hmem] at htext
        cases htext
  | input target =>
    obtain ⟨o, hexec⟩ := exec_input hroom conf line target
    rw [hexec] at h
    cases hnumber : m.input.numberOn? 0 with
    | some v => simp [hnumber] at h
    | none =>
      rw [hnumber] at h
      cases h
      exact .badInput rfl

/-! ## Runs -/

/-- The statement that stops a run of a loaded program, and the named reason for it. -/
theorem Trail.named_reason {name src : Text} {p : Program} (hload : Program.load name src = .ok p)
    {conf : Settings} {stdin : Text} {fuel : Nat} {line : Int} {log : List Execution} {m : Machine}
    {stop : Stop} (h : Trail conf p fuel line (.start p stdin none) log m (.stopped stop)) :
    ∃ (x : Execution) (n : Nat), log.getLast? = some x ∧ p.stmt? n = some x.stmt ∧
      x.stmt.line = n ∧ NamedReason p x.stmt m.vars stop := by
  obtain ⟨x, hlast, hout⟩ := h.last
  have hmem : x ∈ log := List.mem_of_getLast? hlast
  obtain ⟨n, hn⟩ := h.exists_line x hmem
  obtain ⟨hline, hsound⟩ := Program.load_stmt? hload hn
  obtain ⟨ws, -, hws⟩ := Program.load_words hload hn
  have hprint : ∀ items, x.stmt.action = .print items →
      ∀ e, .value e ∈ items → e.quotations = [] := by
    intro items haction e he
    have hparsed := (Stmt.ofWords_eq_ok.1 hws).2
    rw [haction] at hparsed
    exact Action.quotations_print hparsed he
  -- labels are never defined by a statement, and an output without a bound stays so
  have hlabels := (h.invariant
    (P := fun m => m.labels = p.labels.mapValues fun (line : Nat) => (line : Int))
    (fun _ _ hm => hm) (fun m s hm => (m.exec_effect conf s).labels.trans hm) rfl).1 x hmem
  have hroom := (h.invariant (P := fun m => m.output.room = none) (fun _ _ hm => hm)
    (fun m s hm => (Machine.exec_output conf hm s).1) rfl).1 x hmem
  exact ⟨x, n, hlast, hn, hline, Machine.exec_stop hsound hprint hlabels hroom hout⟩

/-- **A run stops only for the reasons that the language names.** Let a loaded program run on any
input, with any settings, and write without a bound. If a statement stops the run, then it is the
last one started, it stands on the line that the reason gives, and the reason is a named one: a
variable that it reads and that has no value, a label that it branches to and that no line carries,
quoted text in the value that it assigns or tests, or bad input to a statement that reads some. So
no statement stops at an unreadable number, a missing expression or an unlisted operator, and none
at a full output. If the run is cut, its limit is positive and is the number of statements
started. -/
theorem run_stops_for_named_reasons {name src : Text} {p : Program}
    (hload : Program.load name src = .ok p) (conf : Settings) (stdin : Text) (fuel : Nat) :
    let start := Machine.start p stdin none
    ∀ m e, Machine.run conf p fuel 1 start = (m, e) →
      (∀ stop, e = .stopped stop →
        (∃ (x : Execution) (n : Nat), (start.executions conf p fuel 1).getLast? = some x ∧
          p.stmt? n = some x.stmt ∧ x.stmt.line = n ∧ NamedReason p x.stmt m.vars stop) ∧
        (∀ fault line, stop = .failed (SyntaxFault.on fault line) →
          ∃ text, fault = .textAsNumber text) ∧
        (∀ defect, stop ≠ .defective defect) ∧ stop ≠ .outputFull) ∧
      ∀ limit line, e = .cut limit line →
        limit = conf.limit ∧ 0 < limit ∧ m.steps = limit ∧ (p.stmt? line).isSome := by
  intro start m e hrun
  have htrail := start.run_trail conf p fuel 1
  rw [hrun] at htrail
  constructor
  · rintro stop rfl
    obtain ⟨x, n, hlast, hn, hline, hreason⟩ := htrail.named_reason hload
    exact ⟨⟨x, n, hlast, hn, hline, hreason⟩, hreason.fault⟩
  · rintro limit line rfl
    have hpos : 0 < conf.limit := (Machine.atLimit_eq_true.mp htrail.atLimit).1
    have hraised : conf.Raised { conf with limit := 0 } := ⟨rfl, rfl, hpos, .inl (Int.le_refl 0)⟩
    obtain ⟨rfl, hsteps, hstmt, -⟩ := Machine.run_cut hraised (Int.le_of_lt hpos) hrun
    exact ⟨rfl, hpos, hsteps, hstmt⟩

/-- A program that stops for each of the named reasons, as its input has it, and that can be cut. -/
theorem run_stops_for_named_reasons_each :
    ∃ p, Program.load "each" ("input x\nif x == 2 goto last\nif x goto nowhere\n" ++
        "let y = \"text\"\nlast: print x, lost\n") = .ok p ∧
      (∀ sample ∈ ([("", .failed ⟨1, .badInput⟩),
          ("1\n", .failed ⟨3, .illegalGoto "nowhere"⟩),
          ("0\n", .failed ((SyntaxFault.textAsNumber "\"text\"").on 4)),
          ("2\n", undefinedAt 5 "lost")] : List (Text × Stop)),
        ∃ (m : Machine) (x : Execution) (n : Nat),
          Machine.run {} p 9 1 (.start p sample.1 none) = (m, .stopped sample.2) ∧
          ((Machine.start p sample.1 none).executions {} p 9 1).getLast? = some x ∧
          x.stmt.line = n ∧ NamedReason p x.stmt m.vars sample.2) ∧
      ∃ m, Machine.run { limit := 2 } p 9 1 (.start p "0\n" none) = (m, .cut 2 3) ∧
        (0 : Int) < 2 ∧ m.steps = (2 : Int) := by
  let p : Program := ⟨"each", #[⟨none, some ⟨1, .input "x"⟩⟩,
    ⟨none, some ⟨2, .branch (.binary .equal (.var "x") (.number "2")) "last"⟩⟩,
    ⟨none, some ⟨3, .branch (.var "x") "nowhere"⟩⟩,
    ⟨none, some ⟨4, .assign "y" (.quotation "\"text\"")⟩⟩,
    ⟨some "last", some ⟨5, .print [.value (.var "x"), .value (.var "lost")]⟩⟩]⟩
  have hload : Program.load "each" ("input x\nif x == 2 goto last\nif x goto nowhere\n" ++
      "let y = \"text\"\nlast: print x, lost\n") = .ok p := rfl
  have hstops : ∀ sample ∈ ([("", .failed ⟨1, .badInput⟩),
      ("1\n", .failed ⟨3, .illegalGoto "nowhere"⟩),
      ("0\n", .failed ((SyntaxFault.textAsNumber "\"text\"").on 4)),
      ("2\n", undefinedAt 5 "lost")] : List (Text × Stop)),
      (Machine.run {} p 9 1 (.start p sample.1 none)).2 = .stopped sample.2 := by decide +kernel
  have hcut : (Machine.run { limit := 2 } p 9 1 (.start p "0\n" none)).2 = .cut 2 3 := by
    decide +kernel
  refine ⟨p, hload, fun sample hmem => ?_, _, Prod.ext rfl hcut, by decide, ?_⟩
  · have hrun : Machine.run {} p 9 1 (.start p sample.1 none) =
        ((Machine.run {} p 9 1 (.start p sample.1 none)).1, .stopped sample.2) :=
      Prod.ext rfl (hstops sample hmem)
    obtain ⟨hreason, -⟩ := run_stops_for_named_reasons hload {} sample.1 9 _ _ hrun
    obtain ⟨⟨x, n, hlast, -, hline, hnamed⟩, -⟩ := hreason sample.2 rfl
    exact ⟨_, x, n, hrun, hlast, hline, hnamed⟩
  · obtain ⟨-, hlimit⟩ := run_stops_for_named_reasons hload { limit := 2 } "0\n" 9 _ _
      (Prod.ext rfl hcut)
    exact (hlimit 2 3 rfl).2.2.1

end TinyLang
