import TinyLang.Command.Catalog

/-!
# Completing a line

A shell that completes a line calls the tool with the words of the line and a mark behind them. The
answer is what may stand in place of the last word: flags if it starts with a dash, and otherwise the
commands that can be called there, which the shell narrows down itself.
-/

namespace TinyLang.Command

/-- The argument that asks for suggestions. It counts in the last place only. -/
def completionMark : Text := "--generate-bash-completion"

/-- The words of a line that is to be completed, if the arguments ask for that. -/
def completedLine? (args : List Text) : Option (List Text) :=
  if args.getLast? = some completionMark then some args.dropLast else none

/-- A word without its dashes, of which two are taken off at most. -/
def withoutDashes (word : Text) : Text :=
  let dash := Text.byte '-'
  match word with
  | a :: b :: rest => if a = dash then (if b = dash then rest else b :: rest) else word
  | [a] => if a = dash then [] else word
  | [] => []

/-- Whether a form of a flag is suggested for a word. It has to continue the word, and must not stand
in the line already; two dashes call for long forms only. -/
def suggestsForm (line : List Text) (word name : Text) : Bool :=
  let typed := withoutDashes word
  !(word.startsWith "--" && name.length = 1) && name.startsWith typed && name != typed &&
    !line.contains (typedForm name)

/-- What may stand in place of the last word of a line, where `flags` can be given and `names` be
called. -/
def suggestions (line : List Text) (flags : List Flag) (names : List Text) : List Text :=
  let word := line.getLast?.getD []
  if word.startsWith "-" then
    ((flags.flatMap Flag.names).filter (suggestsForm line word)).map typedForm
  else names

end TinyLang.Command
