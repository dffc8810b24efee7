import TinyLang.Machine.Basic

/-!
# Runs

A run goes from statement to statement. From a line it goes on at the first statement on that line
or after it, so blank lines, and lines before the first, cost nothing; past the last statement the
run is finished. A limit on the number of statements is looked at on arriving at a statement.

`Machine.run` takes a fuel argument: the number of statements it may start. A run with a positive
limit `n` needs no more fuel than `n`.
-/

namespace TinyLang

namespace Program

/-- The first statement among the last `left` lines, with its line. -/
def firstOfLast (p : Program) : (left : Nat) → Option (Nat × Stmt)
  | 0 => none
  | left + 1 =>
    match p.slots[p.size - (left + 1)]? with
    | some ⟨_, some s⟩ => some (p.size - left, s)
    | _ => firstOfLast p left

/-- The first statement on a line or after it, with its line. -/
def next? (p : Program) (line : Int) : Option (Nat × Stmt) :=
  p.firstOfLast (p.size + 1 - (max line 1).toNat)

end Program

/-- How a run ends. -/
inductive Ending
  /-- Past the last statement. -/
  | finished
  | stopped (stop : Stop)
  /-- At a statement on `line` with `limit` statements started. -/
  | cut (limit line : Int)
  /-- The fuel is used up. -/
  | unfinished
deriving DecidableEq, Repr

/-- The message of a run that could not go on; none if it finished. -/
def Ending.message? : Ending → Option Text
  | finished => none
  | stopped stop => some stop.message
  | cut limit line =>
    some ("step limit " ++ Text.ofInt limit ++ " exceeded at line " ++ Text.ofInt line)
  | unfinished => some "unfinished"

/-- What a run meets at a line. -/
inductive Arrival
  | pastEnd
  | overLimit (line : Nat)
  | statement (line : Nat) (stmt : Stmt)
deriving DecidableEq, Repr

namespace Machine

/-- Whether the limit on the number of statements is reached. -/
def atLimit (m : Machine) (conf : Settings) : Bool := 0 < conf.limit && conf.limit ≤ m.steps

/-- What a machine meets at a line of a program. -/
def arrive (m : Machine) (conf : Settings) (p : Program) (line : Int) : Arrival :=
  match p.next? line with
  | none => .pastEnd
  | some (n, s) => if m.atLimit conf then .overLimit n else .statement n s

/-- Counts a statement, and traces it if that is asked for. -/
def begin (m : Machine) (conf : Settings) (s : Stmt) : Machine :=
  { m with
    steps := m.steps + 1
    trace := if conf.tracing then s.text :: m.trace else m.trace }

/-- The line to go on at after a statement on line `n`. -/
def follow (n : Nat) : Flow → Int
  | .next => n + 1
  | .jump line => line

/-- Runs a program from a line on. -/
def run (conf : Settings) (p : Program) : (fuel : Nat) → (line : Int) → Machine → Machine × Ending
  | fuel, line, m =>
    match m.arrive conf p line with
    | .pastEnd => (m, .finished)
    | .overLimit n => (m, .cut conf.limit n)
    | .statement n s =>
      match fuel with
      | 0 => (m, .unfinished)
      | fuel + 1 =>
        match (m.begin conf s).exec conf s with
        | (m', .ok flow) => run conf p fuel (follow n flow) m'
        | (m', .error stop) => (m', .stopped stop)

/-- The line that a trace shows for a statement, dimmed if colours are on. -/
def traceLine (colored : Bool) (statement : Text) : Text :=
  let line := "Doing: " ++ statement ++ "\n"
  if colored then "\x1b[90m" ++ line ++ "\x1b[0m" else line

/-- The trace in the order of the run. -/
def traceText (m : Machine) (colored : Bool) : Text := m.trace.reverse.flatMap (traceLine colored)

end Machine

end TinyLang
