import TinyLang.Text.Space

/-!
# Questions

A question is written with its default answer in parentheses, and answered by a line of input. An
empty answer, or none, means the default. Questions in a row share one input, so each takes one
line.
-/

namespace TinyLang

/-- What a question leaves behind: the text written, the answer, and the input not yet read. -/
structure Asked (α : Type) where
  written : Text
  answer : α
  input : Text
deriving Repr

namespace Question

/-- The trimmed line of an answer, and the input after it. -/
def takeAnswer (input : Text) : Text × Text :=
  match input.takeLine? with
  | some (line, rest) => (line.trim, rest)
  | none => ([], [])

/-- Asks for a text. -/
def text (question fallback input : Text) : Asked Text :=
  let (reply, rest) := takeAnswer input
  ⟨question ++ " (" ++ fallback ++ "): ", if reply.isEmpty then fallback else reply, rest⟩

/-- Asks for yes or no. Only the letter `y`, in either case, means yes. -/
def yesNo (question : Text) (fallback : Bool) (input : Text) : Asked Bool :=
  let (reply, rest) := takeAnswer input
  ⟨question ++ (if fallback then " (Y/n): " else " (y/N): " : Text),
    if reply.isEmpty then fallback else reply == "y" || reply == "Y", rest⟩

end Question

end TinyLang
