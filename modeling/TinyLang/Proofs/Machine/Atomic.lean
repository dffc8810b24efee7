import TinyLang.Finding
import TinyLang.Machine.Basic
import TinyLang.Proofs.Except

/-!
# Statements that fail

A statement that fails leaves no work half done, whatever it writes to and reads from. A machine
writes to an output that may be bounded. Here statements are executed on a terminal of any kind, by
the same rules, and a machine is shown to be an interpreter on one of them.

* `Terminal`: what can be written to and read from. A write may accept a part of a text and fail.
* `Interpreter.exec`: executes a statement on a terminal. `Machine.exec_resumed` says that a machine
  does the same on the terminal `Terminal.bounded`.
* `Interpreter.StopsEarly`: an evaluation or a label stops a statement.
* `Interpreter.perform_eq_error`, `Interpreter.perform_eq_ok`: all that a statement can do, if it
  fails and if it succeeds.
* `failing_statement_leaves_no_half_done_work`: the headline.
-/

namespace TinyLang

/-! ## Terminals -/

/-- What statements write to and read from. -/
structure Terminal where
  Output : Type
  Input : Type
  /-- Why a write fails. -/
  Fault : Type
  /-- Writes a text. The output afterwards is there if the write fails, too, since any part of the
  text may have been accepted. -/
  write : Output → Text → Output × Option Fault
  /-- Takes a line of input, if one can be read. -/
  readLine : Input → Input × Option Text

/-- The state of an interpreter on a terminal. -/
structure Interpreter (t : Terminal) where
  vars : Table Number
  labels : Table Int
  input : t.Input
  output : t.Output

/-- Why a statement fails. -/
inductive Failure (t : Terminal)
  | stop (reason : Stop)
  | write (fault : t.Fault)

namespace Interpreter

variable {t : Terminal}

/-- The interpreter with a variable set. -/
def set (i : Interpreter t) (name : Text) (v : Number) : Interpreter t :=
  { i with vars := i.vars.insert name v }

/-- Writes a text. -/
def write (i : Interpreter t) (text : Text) : Interpreter t × Except (Failure t) Unit :=
  let written := t.write i.output text
  ({ i with output := written.1 },
    match written.2 with
    | none => .ok ()
    | some fault => .error (.write fault))

/-- Takes one line of input, and gives the number it holds. -/
def readNumber (i : Interpreter t) (line : Int) : Interpreter t × Except (Failure t) Number :=
  let taken := t.readLine i.input
  ({ i with input := taken.1 },
    match taken.2.bind fun text => Number.read? text.trim with
    | some v => .ok v
    | none => .error (.stop (.failed ⟨line, .badInput⟩)))

/-- What interpreters offer to actions. -/
@[simps] def host : Host (Interpreter t) (Failure t) where
  vars := vars
  labels := labels
  set := set
  write := write
  readNumber := readNumber
  failure := .stop

/-- Performs an action on a line. -/
def perform (i : Interpreter t) (prompt : Text) (line : Int) (a : Action) :
    Interpreter t × Except (Failure t) Flow := host.perform i prompt line a

/-- Executes a statement. -/
def exec (i : Interpreter t) (prompt : Text) (s : Stmt) : Interpreter t × Except (Failure t) Flow :=
  i.perform prompt s.line s.action

end Interpreter

/-! ## A machine and its terminal -/

/-- Output that may be bounded, and input that is a text. -/
def Terminal.bounded : Terminal where
  Output := TinyLang.Output
  Input := Text
  Fault := Unit
  write o text := (o.write text, if o.fits text then none else some ())
  readLine input :=
    match input.takeLine? with
    | none => (input, none)
    | some (text, rest) => (rest, some text)

/-- The reason to stop that a failure is for a machine. -/
def Failure.reason : Failure .bounded → Stop
  | stop reason => reason
  | write _ => .outputFull

namespace Machine

variable (m : Machine)

/-- A machine as an interpreter. -/
@[simps] def interpreter : Interpreter .bounded := ⟨m.vars, m.labels, m.input, m.output⟩

/-- The machine that an interpreter has made of a machine. -/
def resumed {α : Type} (r : Interpreter .bounded × Except (Failure .bounded) α) :
    Machine × Except Stop α :=
  (⟨r.1.vars, r.1.labels, m.steps, r.1.input, r.1.output, m.trace⟩, r.2.mapError Failure.reason)

theorem write_resumed (text : Text) : m.write text = m.resumed (m.interpreter.write text) := by
  have hwritten : Terminal.bounded.write m.interpreter.output text =
      (m.output.write text, if m.output.fits text then none else some ()) := rfl
  unfold write Interpreter.write
  rw [hwritten]
  cases m.output.fits text <;> rfl

theorem ask_resumed (prompt : Text) :
    m.ask prompt = m.resumed (Interpreter.host.ask m.interpreter prompt) := by
  rw [ask_def, Host.ask]
  by_cases hprompt : prompt.isEmpty = true
  · rw [if_pos hprompt, if_pos hprompt]
    rfl
  · rw [if_neg hprompt, if_neg hprompt]
    exact m.write_resumed prompt

theorem readNumber_resumed (line : Int) :
    m.readNumber line = m.resumed (m.interpreter.readNumber line) := by
  have htaken : Terminal.bounded.readLine m.interpreter.input =
      match m.input.takeLine? with
      | none => (m.input, none)
      | some (text, rest) => (rest, some text) := rfl
  unfold readNumber Interpreter.readNumber
  rw [htaken]
  cases m.input.takeLine? with
  | none => rfl
  | some lines =>
    dsimp only [Option.bind_some]
    cases Number.read? lines.1.trim <;> rfl

theorem perform_resumed (prompt : Text) (line : Int) (a : Action) :
    m.perform prompt line a = m.resumed (m.interpreter.perform prompt line a) := by
  unfold Interpreter.perform
  cases a with
  | assign target e =>
    rw [perform_assign, Host.perform]
    simp only [Interpreter.host_vars, interpreter_vars]
    cases e.eval m.vars line <;> rfl
  | branch c label =>
    rw [perform_branch, Host.perform]
    simp only [Interpreter.host_vars, interpreter_vars, Interpreter.host_labels, interpreter_labels]
    cases c.eval m.vars line with
    | error stop => rfl
    | ok v =>
      cases hv : v.isTrue with
      | false =>
        simp only [hv]
        rfl
      | true =>
        simp only [hv, if_true]
        cases m.labels.find? label <;> rfl
  | print items =>
    rw [perform_print, Host.perform, printed]
    simp only [Interpreter.host_vars, interpreter_vars, Interpreter.host_write]
    cases printedText m.vars line items with
    | error stop => rfl
    | ok text =>
      dsimp only
      rw [write_resumed]
      rcases m.interpreter.write text with ⟨i, failure | _⟩ <;> rfl
  | input target =>
    rw [perform_input, Host.perform, ask_resumed]
    rcases Interpreter.host.ask m.interpreter prompt with ⟨i, failure | _⟩
    · rfl
    · have hread : (m.resumed (i, .ok ())).1.readNumber line = m.resumed (i.readNumber line) :=
        readNumber_resumed _ line
      dsimp only [resumed, Except.mapError, Interpreter.host] at hread ⊢
      rw [hread]
      rcases i.readNumber line with ⟨i', failure | v⟩ <;> rfl

/-- **A machine is an interpreter on a terminal.** -/
theorem exec_resumed (conf : Settings) (s : Stmt) :
    m.exec conf s = m.resumed (m.interpreter.exec conf.prompt s) :=
  m.perform_resumed conf.prompt s.line s.action

end Machine

/-! ## What a statement can do -/

namespace Interpreter

variable {t : Terminal} {i i' : Interpreter t} {prompt : Text} {line : Int} {a : Action}
  {failure : Failure t} {flow : Flow}

/-- An evaluation or a label stops an action. The items of a print list are evaluated one after
another, so those in front of the one that stops it have been evaluated. -/
inductive StopsEarly (i : Interpreter t) (line : Int) : Action → Stop → Prop
  | value {target : Text} {e : Expr} {stop : Stop} (h : e.eval i.vars line = .error stop) :
    StopsEarly i line (.assign target e) stop
  | condition {c : Expr} {label : Text} {stop : Stop} (h : c.eval i.vars line = .error stop) :
    StopsEarly i line (.branch c label) stop
  | label {c : Expr} {label : Text} {v : Number} (h : c.eval i.vars line = .ok v)
      (hv : v.isTrue = true) (hlabel : i.labels.find? label = none) :
    StopsEarly i line (.branch c label) (.failed ⟨line, .illegalGoto label⟩)
  | item {items : List PrintItem} {k : Nat} {e : Expr} {stop : Stop}
      (hitem : items[k]? = some (.value e)) (h : e.eval i.vars line = .error stop)
      (hdone : ∀ item ∈ items.take k, ∃ text, item.eval i.vars line = .ok text) :
    StopsEarly i line (.print items) stop

/-- The prompt, if there is one, has been written, and the output is the one given. -/
inductive Asked (i : Interpreter t) (prompt : Text) : t.Output → Prop
  | nothing (h : prompt = []) : Asked i prompt i.output
  | written {output : t.Output} (h : prompt ≠ []) (hwrite : t.write i.output prompt = (output, none)) :
    Asked i prompt output

/-- **How an action fails**, and what it has done by then. -/
inductive Fails (i : Interpreter t) (prompt : Text) (line : Int) :
    Action → Failure t → Interpreter t → Prop
  | early {a : Action} {stop : Stop} (h : i.StopsEarly line a stop) :
    Fails i prompt line a (.stop stop) i
  | print {items : List PrintItem} {text : Text} {output : t.Output} {fault : t.Fault}
      (htext : printedText i.vars line items = .ok text)
      (hwrite : t.write i.output text = (output, some fault)) :
    Fails i prompt line (.print items) (.write fault) { i with output := output }
  | prompt {target : Text} {output : t.Output} {fault : t.Fault} (hprompt : prompt ≠ [])
      (hwrite : t.write i.output prompt = (output, some fault)) :
    Fails i prompt line (.input target) (.write fault) { i with output := output }
  | read {target : Text} {output : t.Output} (hasked : i.Asked prompt output)
      (hread : ((t.readLine i.input).2.bind fun text => Number.read? text.trim) = none) :
    Fails i prompt line (.input target) (.stop (.failed ⟨line, .badInput⟩))
      { i with input := (t.readLine i.input).1, output := output }

/-- **How an action succeeds**, and what it has done. -/
inductive Succeeds (i : Interpreter t) (prompt : Text) (line : Int) :
    Action → Flow → Interpreter t → Prop
  | assign {target : Text} {e : Expr} {v : Number} (h : e.eval i.vars line = .ok v) :
    Succeeds i prompt line (.assign target e) .next { i with vars := i.vars.insert target v }
  | fall {c : Expr} {label : Text} {v : Number} (h : c.eval i.vars line = .ok v)
      (hv : v.isTrue = false) : Succeeds i prompt line (.branch c label) .next i
  | jump {c : Expr} {label : Text} {v : Number} {target : Int} (h : c.eval i.vars line = .ok v)
      (hv : v.isTrue = true) (hlabel : i.labels.find? label = some target) :
    Succeeds i prompt line (.branch c label) (.jump target) i
  | print {items : List PrintItem} {text : Text} {output : t.Output}
      (htext : printedText i.vars line items = .ok text)
      (hwrite : t.write i.output text = (output, none)) :
    Succeeds i prompt line (.print items) .next { i with output := output }
  | input {target : Text} {output : t.Output} {v : Number} (hasked : i.Asked prompt output)
      (hread : ((t.readLine i.input).2.bind fun text => Number.read? text.trim) = some v) :
    Succeeds i prompt line (.input target) .next
      ⟨i.vars.insert target v, i.labels, (t.readLine i.input).1, output⟩

theorem write_eq_ok {text : Text} : i.write text = (i', .ok ()) ↔
    ∃ output, t.write i.output text = (output, none) ∧ i' = { i with output := output } := by
  unfold write
  rcases t.write i.output text with ⟨output, _ | fault⟩
  · constructor
    · rintro ⟨⟩
      exact ⟨output, rfl, rfl⟩
    · rintro ⟨_, ⟨⟩, rfl⟩
      rfl
  · exact ⟨nofun, by rintro ⟨_, ⟨⟩, -⟩⟩

theorem write_eq_error {text : Text} : i.write text = (i', .error failure) ↔
    ∃ output fault, t.write i.output text = (output, some fault) ∧ failure = .write fault ∧
      i' = { i with output := output } := by
  unfold write
  rcases t.write i.output text with ⟨output, _ | fault⟩
  · exact ⟨nofun, by rintro ⟨_, _, ⟨⟩, -⟩⟩
  · constructor
    · rintro ⟨⟩
      exact ⟨output, fault, rfl, rfl, rfl⟩
    · rintro ⟨_, _, ⟨⟩, rfl, rfl⟩
      rfl

theorem ask_eq_ok : host.ask i prompt = (i', .ok ()) ↔
    ∃ output, i.Asked prompt output ∧ i' = { i with output := output } := by
  unfold Host.ask
  by_cases hprompt : prompt = []
  · rw [if_pos (List.isEmpty_iff.2 hprompt)]
    constructor
    · rintro ⟨⟩
      exact ⟨i.output, .nothing hprompt, rfl⟩
    · rintro ⟨_, _ | ⟨hne, -⟩, rfl⟩
      · rfl
      · exact absurd hprompt hne
  · rw [if_neg (mt List.isEmpty_iff.1 hprompt), host_write, write_eq_ok]
    constructor
    · rintro ⟨output, hwrite, rfl⟩
      exact ⟨output, .written hprompt hwrite, rfl⟩
    · rintro ⟨output, hnil | ⟨-, hwrite⟩, rfl⟩
      · exact absurd hnil hprompt
      · exact ⟨output, hwrite, rfl⟩

theorem ask_eq_error : host.ask i prompt = (i', .error failure) ↔
    ∃ output fault, prompt ≠ [] ∧ t.write i.output prompt = (output, some fault) ∧
      failure = .write fault ∧ i' = { i with output := output } := by
  unfold Host.ask
  by_cases hprompt : prompt = []
  · rw [if_pos (List.isEmpty_iff.2 hprompt)]
    exact ⟨nofun, by rintro ⟨_, _, hne, -⟩; exact absurd hprompt hne⟩
  · rw [if_neg (mt List.isEmpty_iff.1 hprompt), host_write, write_eq_error]
    simp only [ne_eq, hprompt, not_false_eq_true, true_and]

theorem printedText_eq_error {vars : Table Number} {items : List PrintItem} {stop : Stop} :
    printedText vars line items = .error stop ↔ ∃ (k : Nat) (e : Expr),
      items[k]? = some (.value e) ∧ e.eval vars line = .error stop ∧
        ∀ item ∈ items.take k, ∃ text, item.eval vars line = .ok text := by
  unfold printedText
  rw [bind_pure_eq_error, mapM_eq_error]
  constructor
  · rintro ⟨k, _ | e, hitem, h, hdone⟩
    · cases h
    · exact ⟨k, e, hitem, bind_pure_eq_error.1 h, hdone⟩
  · rintro ⟨k, e, hitem, h, hdone⟩
    exact ⟨k, .value e, hitem, bind_pure_eq_error.2 h, hdone⟩

theorem Fails.perform_eq (h : i.Fails prompt line a failure i') :
    i.perform prompt line a = (i', .error failure) := by
  unfold perform
  cases h with
  | early h =>
    cases h with
    | value h => simp [Host.perform, h]
    | condition h => simp [Host.perform, h]
    | label h hv hlabel => simp [Host.perform, h, hv, hlabel]
    | item hitem h hdone =>
      simp [Host.perform, printedText_eq_error.2 ⟨_, _, hitem, h, hdone⟩]
  | print htext hwrite => simp [Host.perform, htext, write_eq_error.2 ⟨_, _, hwrite, rfl, rfl⟩]
  | prompt hprompt hwrite =>
    simp [Host.perform, ask_eq_error.2 ⟨_, _, hprompt, hwrite, rfl, rfl⟩]
  | read hasked hread =>
    simp [Host.perform, ask_eq_ok.2 ⟨_, hasked, rfl⟩, readNumber, hread]

theorem Succeeds.perform_eq (h : i.Succeeds prompt line a flow i') :
    i.perform prompt line a = (i', .ok flow) := by
  unfold perform
  cases h with
  | assign h => simp [Host.perform, set, h]
  | fall h hv => simp [Host.perform, h, hv]
  | jump h hv hlabel => simp [Host.perform, h, hv, hlabel]
  | print htext hwrite => simp [Host.perform, htext, write_eq_ok.2 ⟨_, hwrite, rfl⟩]
  | input hasked hread =>
    simp [Host.perform, set, ask_eq_ok.2 ⟨_, hasked, rfl⟩, readNumber, hread]

variable (i prompt line a) in
/-- An action fails or succeeds in one of these ways. -/
theorem fails_or_succeeds :
    (∃ failure i', i.Fails prompt line a failure i') ∨ ∃ flow i', i.Succeeds prompt line a flow i' := by
  cases a with
  | assign target e =>
    cases h : e.eval i.vars line with
    | error stop => exact .inl ⟨_, _, .early (.value h)⟩
    | ok v => exact .inr ⟨_, _, .assign h⟩
  | branch c label =>
    cases h : c.eval i.vars line with
    | error stop => exact .inl ⟨_, _, .early (.condition h)⟩
    | ok v =>
      cases hv : v.isTrue with
      | false => exact .inr ⟨_, _, .fall h hv⟩
      | true =>
        cases hlabel : i.labels.find? label with
        | none => exact .inl ⟨_, _, .early (.label h hv hlabel)⟩
        | some target => exact .inr ⟨_, _, .jump h hv hlabel⟩
  | print items =>
    cases htext : printedText i.vars line items with
    | error stop =>
      obtain ⟨k, e, hitem, h, hdone⟩ := printedText_eq_error.1 htext
      exact .inl ⟨_, _, .early (.item hitem h hdone)⟩
    | ok text =>
      rcases hwrite : t.write i.output text with ⟨output, _ | fault⟩
      · exact .inr ⟨_, _, .print htext hwrite⟩
      · exact .inl ⟨_, _, .print htext hwrite⟩
  | input target =>
    -- The line is read only once the prompt is written.
    have hread : ∀ output, i.Asked prompt output →
        (∃ failure i', i.Fails prompt line (.input target) failure i') ∨
          ∃ flow i', i.Succeeds prompt line (.input target) flow i' := by
      intro output hasked
      cases hnumber : (t.readLine i.input).2.bind fun text => Number.read? text.trim with
      | none => exact .inl ⟨_, _, .read hasked hnumber⟩
      | some v => exact .inr ⟨_, _, .input hasked hnumber⟩
    by_cases hprompt : prompt = []
    · exact hread _ (.nothing hprompt)
    · rcases hwrite : t.write i.output prompt with ⟨output, _ | fault⟩
      · exact hread output (.written hprompt hwrite)
      · exact .inl ⟨_, _, .prompt hprompt hwrite⟩

/-- **An action that fails does so in one of these ways.** -/
theorem perform_eq_error :
    i.perform prompt line a = (i', .error failure) ↔ i.Fails prompt line a failure i' := by
  refine ⟨fun h => ?_, Fails.perform_eq⟩
  rcases i.fails_or_succeeds prompt line a with ⟨_, _, hfails⟩ | ⟨_, _, hsucceeds⟩
  · rw [hfails.perform_eq] at h
    cases h
    exact hfails
  · rw [hsucceeds.perform_eq] at h
    cases h

/-- **An action that succeeds does so in one of these ways.** -/
theorem perform_eq_ok :
    i.perform prompt line a = (i', .ok flow) ↔ i.Succeeds prompt line a flow i' := by
  refine ⟨fun h => ?_, Succeeds.perform_eq⟩
  rcases i.fails_or_succeeds prompt line a with ⟨_, _, hfails⟩ | ⟨_, _, hsucceeds⟩
  · rw [hfails.perform_eq] at h
    cases h
  · rw [hsucceeds.perform_eq] at h
    cases h
    exact hsucceeds

/-! ## What has changed -/

/-- An action that fails has changed no variable and no label. -/
theorem Fails.vars_labels (h : i.Fails prompt line a failure i') :
    i'.vars = i.vars ∧ i'.labels = i.labels := by
  cases h <;> exact ⟨rfl, rfl⟩

/-- An action that succeeds has set the variable that it assigns, and no other. -/
theorem Succeeds.vars_labels (h : i.Succeeds prompt line a flow i') :
    i'.labels = i.labels ∧
      match a.target? with
      | some name => ∃ v, i'.vars = i.vars.insert name v
      | none => i'.vars = i.vars := by
  cases h with
  | assign => exact ⟨rfl, _, rfl⟩
  | input => exact ⟨rfl, _, rfl⟩
  | fall => exact ⟨rfl, rfl⟩
  | jump => exact ⟨rfl, rfl⟩
  | print => exact ⟨rfl, rfl⟩

/-- If a write has failed, nothing has changed but the output. -/
theorem Fails.write_cases {fault : t.Fault} (h : i.Fails prompt line a (.write fault) i') :
    ∃ text output, t.write i.output text = (output, some fault) ∧ i' = { i with output := output } := by
  cases h with
  | print _ hwrite => exact ⟨_, _, hwrite, rfl⟩
  | prompt _ hwrite => exact ⟨_, _, hwrite, rfl⟩

/-- If an action has stopped, this was early or at a line that it read. -/
theorem Fails.stop_cases {stop : Stop} (h : i.Fails prompt line a (.stop stop) i') :
    i.StopsEarly line a stop ∧ i' = i ∨
      (∃ target, a = .input target) ∧ stop = .failed ⟨line, .badInput⟩ := by
  cases h with
  | early h => exact .inl ⟨h, rfl⟩
  | read => exact .inr ⟨⟨_, rfl⟩, rfl⟩

end Interpreter

/-- **A statement that fails leaves no work half done**, on a terminal of any kind.

If it fails, variables and labels are as they were, and either a write failed, and nothing has
changed but the output, or an evaluation or a label stopped it, and nothing has changed, or it could
not read a number. Whenever an evaluation or a label stops it, this is how it fails, whatever was
evaluated before; and whenever the prompt cannot be written, no input has been read. If it succeeds,
it has set the variable that it assigns, if there is one, and no other. All this holds of machines,
which are interpreters on a terminal.

A terminal may keep a record of every write and of every read, so where output and input have not
changed nothing was written, not even an empty text, and nothing was read. -/
theorem failing_statement_leaves_no_half_done_work (t : Terminal) (i : Interpreter t) (prompt : Text)
    (s : Stmt) :
    (∀ i' failure, i.exec prompt s = (i', .error failure) →
      (i'.vars = i.vars ∧ i'.labels = i.labels) ∧
      match failure with
      | .write fault =>
        ∃ text output, t.write i.output text = (output, some fault) ∧ i' = { i with output := output }
      | .stop stop => i.StopsEarly s.line s.action stop ∧ i' = i ∨
        (∃ target, s.action = .input target) ∧ stop = .failed ⟨s.line, .badInput⟩) ∧
    (∀ stop, i.StopsEarly s.line s.action stop → i.exec prompt s = (i, .error (.stop stop))) ∧
    (∀ target output fault, s.action = .input target → prompt ≠ [] →
      t.write i.output prompt = (output, some fault) →
      i.exec prompt s = ({ i with output := output }, .error (.write fault))) ∧
    (∀ i' flow, i.exec prompt s = (i', .ok flow) →
      i'.labels = i.labels ∧
      match s.action.target? with
      | some name => ∃ v, i'.vars = i.vars.insert name v
      | none => i'.vars = i.vars) ∧
    ∀ (m : Machine) (conf : Settings),
      m.exec conf s = m.resumed (m.interpreter.exec conf.prompt s) := by
  refine ⟨fun i' failure h => ?_, fun stop h => ?_, fun target output fault haction hprompt hwrite => ?_,
    fun i' flow h => ?_, fun m conf => m.exec_resumed conf s⟩
  · have hfails := Interpreter.perform_eq_error.1 h
    refine ⟨hfails.vars_labels, ?_⟩
    cases failure with
    | write fault => exact hfails.write_cases
    | stop stop => exact hfails.stop_cases
  · exact (Interpreter.Fails.early h).perform_eq
  · rw [Interpreter.exec, haction]
    exact (Interpreter.Fails.prompt hprompt hwrite).perform_eq
  · exact (Interpreter.perform_eq_ok.1 h).vars_labels

/-- A print list whose second item cannot be evaluated writes nothing, and an output that takes one
byte of the prompt and fails leaves the input as it is. -/
theorem failing_statement_leaves_no_half_done_work_short :
    let i : Interpreter .bounded := ⟨[("x", .zero)], [], ("5\n" : Text), Output.empty (some 1)⟩
    let undefined : Stop := .failed ⟨1, .undefinedVariable "y"⟩
    let items : List PrintItem := [.value (.var "x"), .value (.var "y")]
    let filled : Output := ⟨["?"], some 0⟩
    (i.StopsEarly 1 (.print items) undefined ∧
      i.exec "? " ⟨1, .print items⟩ = (i, .error (.stop undefined))) ∧
    Terminal.bounded.write i.output "? " = (filled, some ()) ∧
      i.exec "? " ⟨1, .input "y"⟩ = ({ i with output := filled }, .error (.write ())) := by
  intro i undefined items filled
  have hdone : ∀ item ∈ items.take 1, ∃ text, item.eval i.vars 1 = .ok text := by
    intro item hitem
    rw [List.mem_singleton.1 hitem]
    exact ⟨_, rfl⟩
  have hearly : i.StopsEarly 1 (.print items) undefined := .item (k := 1) rfl rfl hdone
  obtain ⟨-, hstop, -⟩ := failing_statement_leaves_no_half_done_work .bounded i "? " ⟨1, .print items⟩
  obtain ⟨-, -, hprompt, -⟩ :=
    failing_statement_leaves_no_half_done_work .bounded i "? " ⟨1, .input "y"⟩
  exact ⟨⟨hearly, hstop _ hearly⟩, rfl, hprompt "y" _ () rfl (by decide) rfl⟩

end TinyLang
