import TinyLang.Program
import TinyLang.Number.Printer

/-!
# The machine

A machine holds the variables, the lines that labels mean, the number of statements started, the
input not yet read, the output written and the statements traced. Evaluating an expression looks at
the variables only. Executing one statement (`Machine.exec`) gives the machine afterwards together
with where to go on, or with the reason to stop: the machine afterwards is there in both cases,
because a stopped statement may have consumed a line of input or filled the output.

What an action does is said once for every kind of state that offers variables, labels, a place to
write to and numbers to read (`Host.perform`). A machine is one of them (`Machine.host`).

Output may be bounded (`Output.room`). A text that does not fit is cut, and the write fails.
-/

namespace TinyLang

/-! ## Output -/

/-- Text written so far, and how much more is accepted. -/
structure Output where
  /-- The texts written, newest first. -/
  written : List Text
  /-- The bytes still accepted; without a bound if there is none. -/
  room : Option Nat
deriving DecidableEq, Repr

namespace Output

/-- Nothing written yet. -/
def empty (room : Option Nat) : Output := ⟨[], room⟩

/-- All that was written. -/
def text (o : Output) : Text := o.written.reverse.flatten

/-- Whether a text fits into the room that is left. -/
def fits (o : Output) (t : Text) : Bool :=
  match o.room with
  | none => true
  | some n => t.length ≤ n

/-- The output after a write. What does not fit is cut off. -/
def write (o : Output) (t : Text) : Output :=
  match o.room with
  | none => { o with written := t :: o.written }
  | some n => ⟨t.take n :: o.written, some (n - t.length)⟩

end Output

/-! ## Outcomes -/

/-- Where control goes after a statement. -/
inductive Flow
  /-- To the next line. -/
  | next
  /-- To the line a label means. -/
  | jump (line : Int)
deriving DecidableEq, Repr

/-- Why a statement cannot be completed. -/
inductive Stop
  | failed (diagnostic : Diagnostic)
  /-- A write did not fit. -/
  | outputFull
  /-- A tree built by hand has no meaning. -/
  | defective (defect : Defect)
deriving DecidableEq, Repr

/-- The message of a statement that could not be completed. -/
def Stop.message : Stop → Text
  | failed d => d.message
  | outputFull => "output full"
  | defective d => d.message

/-- What a caller sets for a run. -/
structure Settings where
  /-- The number of statements after which a run is cut; no limit unless positive. -/
  limit : Int := 0
  /-- Text written before every input read. -/
  prompt : Text := []
  /-- Whether statements are traced. -/
  tracing : Bool := false
deriving DecidableEq, Repr

/-- The state of a run. -/
structure Machine where
  vars : Table Number
  labels : Table Int
  /-- The number of statements started by runs. -/
  steps : Nat
  /-- What is left of the input. -/
  input : Text
  output : Output
  /-- The texts of the traced statements, newest first. -/
  trace : List Text
deriving DecidableEq, Repr

/-! ## Evaluation -/

/-- The value of an expression on a line. -/
def Expr.eval (vars : Table Number) (line : Int) : Expr → Except Stop Number
  | .var name =>
    match vars.find? name with
    | some v => .ok v
    | none => .error (.failed ⟨line, .undefinedVariable name⟩)
  | .number text =>
    match Number.read? text with
    | some v => .ok v
    | none => .error (.failed ((SyntaxFault.notNumber text).on line))
  | .quotation text => .error (.failed ((SyntaxFault.textAsNumber text).on line))
  | .binary op left right => do
    let l ← left.eval vars line
    let r ← right.eval vars line
    match op.result? l r with
    | some v => .ok v
    | none =>
      match op.render with
      | .ok _ => .error (.defective .noSuchOperator)
      | .error d => .error (.defective d)
  | .hole => .error (.failed (SyntaxFault.hole.on line))

/-- The text that a print item contributes. -/
def PrintItem.eval (vars : Table Number) (line : Int) : PrintItem → Except Stop Text
  | .literal text => .ok text
  | .value e => do return (← e.eval vars line).text

/-- The line that a print list writes: each item followed by a space, then a newline. -/
def printedText (vars : Table Number) (line : Int) (items : List PrintItem) : Except Stop Text := do
  let texts ← items.mapM (PrintItem.eval vars line)
  return (texts.flatMap fun t => (t ++ " " : Text)) ++ ("\n" : Text)

/-! ## Actions -/

/-- What states of a run offer to the actions that are performed on them. -/
structure Host (State Failure : Type) where
  vars : State → Table Number
  labels : State → Table Int
  /-- Sets a variable. -/
  set : State → Text → Number → State
  write : State → Text → State × Except Failure Unit
  /-- Takes one line of input, and gives the number it holds. -/
  readNumber : State → Int → State × Except Failure Number
  /-- How an action fails that cannot be completed. -/
  failure : Stop → Failure

namespace Host

variable {State Failure : Type} (h : Host State Failure)

/-- Writes the prompt, if there is one. -/
def ask (s : State) (prompt : Text) : State × Except Failure Unit :=
  if prompt.isEmpty then (s, .ok ()) else h.write s prompt

/-- Performs an action on a line. -/
def perform (s : State) (prompt : Text) (line : Int) : Action → State × Except Failure Flow
  | .assign target e =>
    match e.eval (h.vars s) line with
    | .ok v => (h.set s target v, .ok .next)
    | .error stop => (s, .error (h.failure stop))
  | .branch condition label =>
    match condition.eval (h.vars s) line with
    | .error stop => (s, .error (h.failure stop))
    | .ok v =>
      if v.isTrue then
        match (h.labels s).find? label with
        | some target => (s, .ok (.jump target))
        | none => (s, .error (h.failure (.failed ⟨line, .illegalGoto label⟩)))
      else (s, .ok .next)
  | .print items =>
    match printedText (h.vars s) line items with
    | .error stop => (s, .error (h.failure stop))
    | .ok text =>
      match h.write s text with
      | (s', .ok ()) => (s', .ok .next)
      | (s', .error failure) => (s', .error failure)
  | .input target =>
    match h.ask s prompt with
    | (s', .error failure) => (s', .error failure)
    | (s', .ok ()) =>
      match h.readNumber s' line with
      | (s'', .ok v) => (h.set s'' target v, .ok .next)
      | (s'', .error failure) => (s'', .error failure)

end Host

namespace Machine

/-- The machine before a run of a program. -/
def start (p : Program) (input : Text) (room : Option Nat) : Machine where
  vars := []
  labels := p.labels.mapValues fun (line : Nat) => (line : Int)
  steps := 0
  input := input
  output := .empty room
  trace := []

/-- The machine with a variable set. -/
def set (m : Machine) (name : Text) (v : Number) : Machine :=
  { m with vars := m.vars.insert name v }

/-- Writes a text; the write fails if it does not fit. -/
def write (m : Machine) (t : Text) : Machine × Except Stop Unit :=
  ({ m with output := m.output.write t },
    if m.output.fits t then .ok () else .error .outputFull)

/-- Takes one line of input, and gives the number it holds. A last line without a newline counts
if it is not empty. -/
def readNumber (m : Machine) (line : Int) : Machine × Except Stop Number :=
  match m.input.takeLine? with
  | none => (m, .error (.failed ⟨line, .badInput⟩))
  | some (text, rest) =>
    ({ m with input := rest },
      match Number.read? text.trim with
      | some v => .ok v
      | none => .error (.failed ⟨line, .badInput⟩))

/-- What machines offer to actions. -/
def host : Host Machine Stop where
  vars := vars
  labels := labels
  set := set
  write := write
  readNumber := readNumber
  failure stop := stop

/-- The line that a print list writes. -/
def printed (m : Machine) (line : Int) (items : List PrintItem) : Except Stop Text :=
  printedText m.vars line items

/-- Writes the prompt, if there is one. -/
def ask (m : Machine) (prompt : Text) : Machine × Except Stop Unit := host.ask m prompt

/-- Performs an action on a line. -/
def perform (m : Machine) (prompt : Text) (line : Int) (a : Action) : Machine × Except Stop Flow :=
  host.perform m prompt line a

section Equations

variable (m : Machine) (prompt : Text) (line : Int)

theorem ask_def :
    m.ask prompt = if prompt.isEmpty then (m, .ok ()) else m.write prompt := rfl

theorem perform_assign (target : Text) (e : Expr) :
    m.perform prompt line (.assign target e) =
      match e.eval m.vars line with
      | .ok v => (m.set target v, .ok .next)
      | .error stop => (m, .error stop) := rfl

theorem perform_branch (condition : Expr) (label : Text) :
    m.perform prompt line (.branch condition label) =
      match condition.eval m.vars line with
      | .error stop => (m, .error stop)
      | .ok v =>
        if v.isTrue then
          match m.labels.find? label with
          | some target => (m, .ok (.jump target))
          | none => (m, .error (.failed ⟨line, .illegalGoto label⟩))
        else (m, .ok .next) := rfl

theorem perform_print (items : List PrintItem) :
    m.perform prompt line (.print items) =
      match m.printed line items with
      | .error stop => (m, .error stop)
      | .ok text =>
        match m.write text with
        | (m', .ok ()) => (m', .ok .next)
        | (m', .error stop) => (m', .error stop) := by
  unfold perform printed
  dsimp only [Host.perform, host]
  cases printedText m.vars line items with
  | error stop => rfl
  | ok text =>
    dsimp only
    rcases m.write text with ⟨m', stop | _⟩ <;> rfl

theorem perform_input (target : Text) :
    m.perform prompt line (.input target) =
      match m.ask prompt with
      | (m', .error stop) => (m', .error stop)
      | (m', .ok ()) =>
        match m'.readNumber line with
        | (m'', .ok v) => (m''.set target v, .ok .next)
        | (m'', .error stop) => (m'', .error stop) := by
  unfold perform ask
  rw [Host.perform]
  rcases host.ask m prompt with ⟨m', stop | _⟩
  · rfl
  · dsimp only [host]
    rcases m'.readNumber line with ⟨m'', stop | v⟩ <;> rfl

end Equations

/-- Executes a statement. -/
def exec (m : Machine) (conf : Settings) (s : Stmt) : Machine × Except Stop Flow :=
  m.perform conf.prompt s.line s.action

end Machine

end TinyLang
