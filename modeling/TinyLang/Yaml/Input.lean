import TinyLang.Yaml.Error

/-!
# Reading a YAML stream

A stream is read in pieces of a fixed size, each when characters are needed that the pieces before it
do not hold. So a fault in the encoding shows only if the piece that has it is needed at all. Behind
the last character stands `endChar`, as often as it is asked for.

`Scan` is reading with the position as its state. What is said about loops holds for all of them: they
end at `endChar`, and `fuel` bounds the number of characters.
-/

namespace TinyLang.Yaml

/-- A position in a stream. -/
structure Input where
  /-- The bytes that have not been read. -/
  source : Text
  /-- How many bytes the next piece has. -/
  room : Nat
  /-- The bytes that have been read and not decoded, because a character is cut off. -/
  left : Text
  encoding : Encoding
  /-- The characters that have been decoded and not been passed. -/
  ahead : List Char
  /-- The character that was the next one when a piece was read last. -/
  first : Char
  mark : Mark
  /-- The line breaks since the last character that is no blank. -/
  newlines : Nat
  /-- A fault that was met by looking ahead further than needed. -/
  overdue : Option EncodingFault
  /-- The number of bytes of the stream. -/
  size : Nat
deriving DecidableEq, Repr

namespace Input

/-- The number of bytes that are held undecoded at most. -/
def pieceSize : Nat := 512

/-- The start of a stream. The first piece includes the bytes that announce the encoding. -/
def start (t : Text) : Input :=
  let (encoding, announced) := Encoding.ofStart t
  { source := t.drop announced, room := pieceSize - announced, left := [], encoding, ahead := []
    first := endChar, mark := .start, newlines := 0, overdue := none, size := t.length }

/-- Whether `n` characters are ahead. -/
def has (i : Input) (n : Nat) : Bool :=
  match n with
  | 0 => true
  | n + 1 => !(i.ahead.drop n).isEmpty

/-- The next character. -/
def head (i : Input) : Char := i.ahead.headD endChar

/-- The character behind `n` others. -/
def get (i : Input) (n : Nat) : Char := i.ahead.getD n endChar

/-! ## Reading pieces -/

/-- Decodes what is left with `bytes` behind it. -/
def takePiece (i : Input) (bytes source : Text) : Input × Option EncodingFault :=
  let d := decodeRun i.encoding 0 [] (i.left ++ bytes)
  ({ i with
      source, left := d.rest, room := pieceSize - d.rest.length, ahead := i.ahead ++ d.chars },
    d.fault)

/-- Reads pieces until `n` characters are ahead, or a fault is met. At the end of the stream one more
`endChar` is put ahead. -/
def readPieces (n : Nat) (i : Input) : Input × Option EncodingFault :=
  if i.has n then (i, none)
  else
    match _h : i.source with
    | [] =>
      match i.takePiece [] [] with
      | (j, none) => ({ j with ahead := j.ahead ++ [endChar] }, none)
      | found => found
    | b :: rest =>
      let size := i.room - 1
      let found := i.takePiece (b :: rest.take size) (rest.drop size)
      if found.2.all EncodingFault.isTruncation then readPieces n found.1 else found
termination_by i.source.length
decreasing_by
  simp only [_h, takePiece, List.length_drop, List.length_cons]
  omega

/-- Reads until `n` characters are ahead, if they are not. -/
def fill (n : Nat) (i : Input) : Input × Option EncodingFault :=
  if i.has n then (i, none)
  else
    let (j, fault) := i.readPieces n
    ({ j with first := j.head }, fault)

/-! ## Passing characters -/

/-- Passes a character that is no line break. -/
def skip (i : Input) : Input :=
  { i with
    mark := i.mark.right, newlines := if isBlank i.head then i.newlines else 0
    ahead := i.ahead.drop 1 }

/-- Passes a number of characters that are no line breaks. -/
def advance (i : Input) : Nat → Input
  | 0 => i
  | n + 1 => i.skip.advance n

/-- Passes a line break, if one stands here, and gives what it counts as. A carriage return with a
newline behind it is one line break. -/
def takeBreak (i : Input) : List Char × Input :=
  let passed := fun (width : Nat) (c : Char) =>
    ([breakText c], { i with
      mark := i.mark.down width, newlines := i.newlines + 1, ahead := i.ahead.drop width })
  if i.head == '\r' && i.get 1 == '\n' then passed 2 '\n'
  else if isBreak i.head then passed 1 i.head
  else ([], i)

/-- Whether three dashes or dots stand at the start of a line, alone or before a blank. -/
def atDocumentMark (i : Input) : Bool :=
  i.mark.column == 0 && ("---".toList.isPrefixOf i.ahead || "...".toList.isPrefixOf i.ahead) &&
    isBlankOrEnd (i.get 3)

end Input

/-- Reading from a position in a stream. -/
abbrev Scan := StateT Input (Except Error)

namespace Scan

/-- Sees to it that `n` characters are ahead. -/
def need (n : Nat) : Scan Unit := do
  match (← get).fill n with
  | (i, none) => set i
  | (_, some fault) => throw (.undecodable fault)

/-- Whether `n` characters can be seen. A fault is kept for later. -/
def sees (n : Nat) : Scan Bool := do
  match (← get).fill n with
  | (i, none) => set i; return true
  | (i, some fault) => set { i with overdue := some fault }; return false

/-- The next character. -/
def head : Scan Char := return (← get).head

/-- The character behind `n` others. -/
def look (n : Nat) : Scan Char := return (← get).get n

/-- The place of the next character. -/
def mark : Scan Mark := return (← get).mark

/-- Passes a character that is no line break. -/
def skip : Scan Unit := modify Input.skip

/-- Passes a line break, and gives what it counts as. -/
def takeBreak : Scan (List Char) := do
  need 2
  modifyGet Input.takeBreak

/-- A problem with a token at the current place, in something that starts at another. -/
def fail {α : Type} (context : Mark) (problem : Text) : Scan α := do
  throw (.token ⟨context, ← mark, problem⟩)

/-- Enough fuel for a loop over characters. -/
def fuel : Scan Nat := return (← get).size + 2

/-- Passes the characters of a class. -/
def skipWhile (p : Char → Bool) : (fuel : Nat) → Scan Unit
  | 0 => return
  | fuel + 1 => do
    need 1
    if p (← head) then
      skip
      skipWhile p fuel

/-- Takes the characters of a class. Those that were taken before come last one first. -/
def takeFrom (p : Char → Bool) : (fuel : Nat) → (taken : List Char) → Scan (List Char)
  | 0, taken => return taken.reverse
  | fuel + 1, taken => do
    need 1
    let c ← head
    if p c then
      skip
      takeFrom p fuel (c :: taken)
    else return taken.reverse

/-- Takes the characters of a class. -/
def takeWhile (p : Char → Bool) : Scan (List Char) := do takeFrom p (← fuel) []

/-- Passes blanks. -/
def skipBlanks : Scan Unit := do skipWhile isBlank (← fuel)

/-- Passes what is left of a line. -/
def skipLine : Scan Unit := do skipWhile (fun c => !isBreakOrEnd c) (← fuel)

/-! ## Comments -/

/-- How far a comment is looked for, in characters. -/
def commentReach : Nat := 512

/-- The number of characters before a comment, if only those of a class stand there. -/
def commentBehind? (p : Char → Bool) : (reach seen : Nat) → Scan (Option Nat)
  | 0, _ => return none
  | reach + 1, seen => do
    if ← sees (seen + 1) then
      let c ← look seen
      if c == '#' then return some seen
      else if p c then commentBehind? p reach (seen + 1)
      else return none
    else return none

/-- Passes a comment on the line of the token before it, if there is one. -/
def skipLineComment : Scan Unit := do
  if (← get).newlines = 0 then
    match ← commentBehind? isBlank commentReach 0 with
    | some blanks =>
      modify fun i => i.advance blanks
      skipLine
    | none => return

/-- Passes blanks and line breaks up to the character of an index. -/
def skipTo (index : Nat) : (fuel : Nat) → Scan Unit
  | 0 => return
  | fuel + 1 => do
    need 1
    let i ← get
    if i.mark.index < index then
      if isBreak i.head then
        let _ ← takeBreak
      else skip
      skipTo index fuel

/-- What may stand between comments: blanks, and line breaks of one byte. -/
def isBetweenComments (c : Char) : Bool := isBlank c || c == '\n' || c == '\r'

/-- Passes a comment and those behind it, which are looked for after `seen` characters. The line break
behind the last one is left. -/
def skipComments : (fuel seen : Nat) → Scan Unit
  | 0, _ => return
  | fuel + 1, seen => do
    match ← commentBehind? isBetweenComments (commentReach - seen) seen with
    | some before =>
      skipTo ((← mark).index + before) (← Scan.fuel)
      skipLine
      skipComments fuel 1
    | none => return

/-- Passes blanks, comments and line breaks up to the next token, and tells whether a key without a
mark may start there. Outside of brackets a line break allows one. Tabs do not count as blanks where a
key may start. A byte-order mark that was the next character when a piece was read last makes a
character at the start of a line be passed. -/
def toNextToken (flow : Bool) : (fuel : Nat) → (keyAllowed : Bool) → Scan Bool
  | 0, keyAllowed => return keyAllowed
  | fuel + 1, keyAllowed => do
    need 1
    let i ← get
    if i.mark.column == 0 && i.first == '\ufeff' then skip
    skipWhile (fun c => c == ' ' || (c == '\t' && (flow || !keyAllowed))) (← Scan.fuel)
    if (← head) == '#' then skipComments (← Scan.fuel) 0
    if isBreak (← head) then
      let _ ← takeBreak
      toNextToken flow fuel (keyAllowed || !flow)
    else return keyAllowed

end Scan

end TinyLang.Yaml
