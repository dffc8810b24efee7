import TinyLang.Native.NumberText
import TinyLang.Native.Input
import TinyLang.Diagnostic

/-!
# Run-time support of compiled programs

What compiled code calls: printing items into a line buffer, ending the line, reading input, and
ending the program with a message, which is cut to a size. An unfinished line is dropped when the
program ends.
-/

namespace TinyLang.Native

/-- The message that a program ends with. A name goes up to its final zero. -/
def messageText (kind : ReportKind) (name : Text) (line : Int) : Text :=
  match kind with
  | .undefinedVariable =>
    "Undefined variable " ++ upToZero name ++ " at line " ++ Text.ofInt line ++ "."
  | .illegalGoto => "Illegal goto " ++ upToZero name ++ " at line " ++ Text.ofInt line ++ "."
  | .inputError => "Illegal or missing input at line " ++ Text.ofInt line ++ "."
  | _ => "Syntax error on line " ++ Text.ofInt line ++ "."

/-- The most bytes of a message. -/
def messageSize : ReportKind → Nat
  | .syntaxError => 63
  | .inputError => 127
  | _ => 511

/-- A call from compiled code. -/
inductive Call
  | printText (text : Text)
  | printNumber (v : Number)
  | printEnd
  | input (line : Int)
  | undefinedVariable (name : Text) (line : Int)
  | illegalGoto (label : Text) (line : Int)
  | syntaxError (line : Int)
deriving DecidableEq, Repr

/-- The state of a compiled program. -/
structure State where
  /-- The line being put together. -/
  buffer : LineBuffer
  /-- The texts written, newest first. -/
  written : List Text
  /-- What is left of the input. -/
  input : Text
  /-- The numbers read, newest first. -/
  numbers : List Number
  /-- Whether the program has ended with a message. -/
  ended : Bool
deriving DecidableEq, Repr

namespace State

/-- The state before the first call. -/
def start (input : Text) : State := ⟨.empty, [], input, [], false⟩

/-- All that was written. -/
def output (s : State) : Text := s.written.reverse.flatten

/-- The exit code. -/
def exitCode (s : State) : Nat := if s.ended then 1 else 0

/-- Appends an item and a space. -/
def appendItem (s : State) (t : Text) : State :=
  { s with buffer := (s.buffer.append (upToZero t)).append " " }

/-- Ends the program with a message. -/
def fail (s : State) (kind : ReportKind) (name : Text) (line : Int) : State :=
  { s with
    buffer := s.buffer.abandon
    written := ((messageText kind name line).take (messageSize kind) ++ "\n") :: s.written
    ended := true }

/-- Performs a call. After the program has ended nothing happens. -/
def call (s : State) (c : Call) : State :=
  if s.ended then s
  else match c with
    | .printText t => s.appendItem t
    | .printNumber v => s.appendItem (numberText v)
    | .printEnd => { s with buffer := s.buffer.clear, written := (s.buffer.text ++ "\n") :: s.written }
    | .input line =>
      match takeChunk chunkSize s.input with
      | ([], _) => s.fail .inputError [] line
      | (chunk, rest) =>
        match readChunk? chunk with
        | some v => { s with input := rest, numbers := v :: s.numbers }
        | none => { s with input := rest }.fail .inputError [] line
    | .undefinedVariable name line => s.fail .undefinedVariable name line
    | .illegalGoto label line => s.fail .illegalGoto label line
    | .syntaxError line => s.fail .syntaxError [] line

/-- Performs a sequence of calls. -/
def calls (s : State) (cs : List Call) : State := cs.foldl call s

end State

end TinyLang.Native
