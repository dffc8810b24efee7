import TinyLang.Yaml.Character

/-!
# Errors of a YAML stream

What can be wrong with a stream: it cannot be decoded, its tokens or its structure are wrong, a
value does not have the type that is asked for or cannot be a key, or there is no document at all.
-/

namespace TinyLang.Yaml

/-- A place: characters before it, and line and column from zero. -/
structure Mark where
  index : Nat
  line : Nat
  column : Nat
deriving DecidableEq, Repr, Inhabited

namespace Mark

/-- The start of a stream. -/
def start : Mark := ⟨0, 0, 0⟩

/-- The mark behind a character on the same line. -/
def right (m : Mark) : Mark := ⟨m.index + 1, m.line, m.column + 1⟩

/-- The mark behind a line break of a width. -/
def down (m : Mark) (width : Nat) : Mark := ⟨m.index + width, m.line + 1, 0⟩

/-- The start of the next line, unless a line starts here. -/
def nextLine (m : Mark) : Mark :=
  if m.column = 0 then m else { m with line := m.line + 1, column := 0 }

end Mark

/-- A problem at a place, met in something that starts at another. -/
structure Trouble where
  context : Mark
  place : Mark
  problem : Text
deriving DecidableEq, Repr

/-- Why a stream has no value. -/
inductive Error
  /-- There is no document. -/
  | noDocument
  | undecodable (fault : EncodingFault)
  /-- A problem with the tokens. -/
  | token (t : Trouble)
  /-- A problem with the structure. -/
  | structural (t : Trouble)
  /-- A problem with a value that ends reading. -/
  | value (problem : Text)
  /-- Values that do not have the types asked for. -/
  | types (problems : List Text)
  /-- A collection of a type that cannot be told apart from others, where a key is needed. -/
  | unhashable (type : Text)
deriving DecidableEq, Repr

/-- The line that a problem is reported on: that of its context, or else its own; the first line
is not reported. Lines of token problems are counted from one, others from zero. -/
def Trouble.lineText (t : Trouble) (offset : Nat) : Text :=
  let shown (line : Nat) : Text := "line " ++ Text.ofNat (line + offset) ++ ": "
  if t.context.line ≠ 0 then shown t.context.line
  else if t.place.line ≠ 0 then shown t.place.line
  else []

/-- The message of an error. -/
def Error.message : Error → Text
  | noDocument => "EOF"
  | undecodable fault => "yaml: " ++ fault.message
  | token t => "yaml: " ++ t.lineText 1 ++ t.problem
  | structural t => "yaml: " ++ t.lineText 0 ++ t.problem
  | value problem => "yaml: " ++ problem
  | types problems => "yaml: unmarshal errors:\n  " ++ Text.join "\n  " problems
  | unhashable type => "runtime error: hash of unhashable type " ++ type

end TinyLang.Yaml
