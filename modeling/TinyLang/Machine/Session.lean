import TinyLang.Machine.Run

/-!
# Sessions

A session keeps one machine alive through a sequence of requests: whole runs, single statements and
expressions, and direct access to variables and labels. Every request is answered, and a request
that stops leaves the machine as far as it got.
-/

namespace TinyLang

/-- What can be asked of a machine. -/
inductive Request
  /-- Runs the program from its first line. -/
  | run
  /-- Executes a statement given as words. -/
  | exec (words : List Text) (line : Int)
  /-- Executes the program's statement on a line. -/
  | execLine (line : Int)
  /-- Evaluates an expression given as words. -/
  | eval (words : List Text) (line : Int)
  /-- Evaluates an expression given as a tree. -/
  | evalTree (expr : Expr) (line : Int)
  | set (name : Text) (value : Number)
  | get (name : Text)
  | defineLabel (name : Text) (line : Int)
  | label (name : Text)
deriving DecidableEq, Repr

/-- The answer to a request. -/
inductive Reply
  | done
  | ended (ending : Ending)
  | went (flow : Flow)
  | stopped (stop : Stop)
  | value (v : Number)
  | looked (v : Option Number)
  | located (line : Option Int)
deriving DecidableEq, Repr

namespace Machine

/-- The reply to an evaluation. -/
def replyValue (result : Except Stop Number) : Reply :=
  match result with
  | .ok v => .value v
  | .error stop => .stopped stop

/-- Executes a statement and replies where it went. -/
def execReply (m : Machine) (conf : Settings) (s : Stmt) : Machine × Reply :=
  match m.exec conf s with
  | (m', .ok flow) => (m', .went flow)
  | (m', .error stop) => (m', .stopped stop)

/-- Answers a request. -/
def answer (conf : Settings) (p : Program) (fuel : Nat) (m : Machine) : Request → Machine × Reply
  | .run =>
    let (m', ending) := run conf p fuel 1 m
    (m', .ended ending)
  | .exec words line =>
    match Stmt.ofWords words line with
    | .ok s => m.execReply conf s
    | .error d => (m, .stopped (.failed d))
  | .execLine line =>
    match p.stmt? line with
    | some s => m.execReply conf s
    | none => (m, .done)
  | .eval words line =>
    match Expr.ofWords words with
    | .ok e => (m, replyValue (e.eval m.vars line))
    | .error fault => (m, .stopped (.failed (fault.on line)))
  | .evalTree e line => (m, replyValue (e.eval m.vars line))
  | .set name v => (m.set name v, .done)
  | .get name => (m, .looked (m.vars.find? name))
  | .defineLabel name line => ({ m with labels := m.labels.insert name line }, .done)
  | .label name => (m, .located (m.labels.find? name))

/-- The machine with nothing written and nothing traced, and room for new output. -/
def clean (m : Machine) (room : Option Nat) : Machine :=
  { m with output := .empty room, trace := [] }

end Machine

end TinyLang
