import TinyLang.Workspace.History

/-!
# Jobs

A job is a command at work: it reads input, writes output and error text, and changes a site. It ends
with an exit code, either at its end or earlier with a message.
-/

namespace TinyLang.Command

/-- What a command works on. -/
structure Job where
  site : Site
  input : Text
  output : Text := []
  errors : Text := []

/-- An early end: what is written to the error text, and the exit code. -/
structure Exit where
  text : Text
  code : Nat
deriving DecidableEq, Repr

/-- A step of a command. What was written and changed before an early end stays. -/
abbrev Act := ExceptT Exit (StateM Job)

namespace Act

/-- Writes to the output. -/
def say (t : Text) : Act Unit := modify fun j => { j with output := j.output ++ t }

/-- Writes a line to the output. -/
def sayLine (t : Text) : Act Unit := say (t ++ "\n")

/-- Writes to the error text. -/
def note (t : Text) : Act Unit := modify fun j => { j with errors := j.errors ++ t }

/-- Ends with a message, if it is not empty, and a code. -/
def exitWith {α : Type} (code : Nat) (message : Text) : Act α :=
  throw ⟨if message.isEmpty then [] else message ++ "\n", code⟩

/-- Ends with a message, if it is not empty, as a failure. -/
def exit {α : Type} (message : Text) : Act α := exitWith 1 message

/-- Ends with the message of an error that no command expects; a line break at its end is not
doubled. -/
def fail {α : Type} (message : Text) : Act α :=
  throw ⟨if message.endsWith "\n" then message else message ++ "\n", 1⟩

/-- The workspace. -/
def workspace : Act Workspace := return (← get).site.workspace

/-- Changes the site. -/
def setSite (s : Site) : Act Unit := modify fun j => { j with site := s }

/-- Changes the workspace. -/
def setWorkspace (w : Workspace) : Act Unit :=
  modify fun j => { j with site := { j.site with workspace := w } }

end Act

/-- What a command came to. -/
structure Outcome where
  code : Nat
  output : Text
  errors : Text
  site : Site

/-- Does a job. -/
def perform (act : Act Unit) (site : Site) (input : Text) : Outcome :=
  let job : Job := { site, input }
  match act.run.run job with
  | (.ok (), j) => ⟨0, j.output, j.errors, j.site⟩
  | (.error e, j) => ⟨e.code, j.output, j.errors ++ e.text, j.site⟩

end TinyLang.Command
