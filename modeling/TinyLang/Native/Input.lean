import TinyLang.Native.LineBuffer
import TinyLang.Number.Numeral
import TinyLang.Number.Basic

/-!
# Number input of compiled programs

A compiled program takes up to 1023 bytes of a line of input at a time and reads a number from
them. It knows the decimal numerals, `inf`, `infinity` and `nan` in any case and with a sign, where
`nan` may be followed by letters, digits and underscores in parentheses; there are no underscores
between digits. Text with an `x` is refused. Blanks may surround the number, and a line that holds
only an end of line reads as zero.
-/

namespace TinyLang.Native

/-- The most bytes taken from a line at a time. -/
def chunkSize : Nat := 1023

/-- Takes bytes up to a newline, that included, or up to a number of bytes. -/
def takeChunk : (size : Nat) → Text → Text × Text
  | 0, t => ([], t)
  | _, [] => ([], [])
  | size + 1, b :: r =>
    if b = Text.byte '\n' then ([b], r)
    else
      let (chunk, rest) := takeChunk size r
      (b :: chunk, rest)

/-- The bytes skipped before a number. -/
def isLeadingSpace (b : UInt8) : Bool := b == 32 || (9 ≤ b && b ≤ 13)

/-- The bytes that may stand in the parentheses after `nan`. -/
def isTagByte (b : UInt8) : Bool :=
  Text.isDigit b || b == Text.byte '_' ||
    (Text.byte 'a' ≤ Text.lowerAscii b && Text.lowerAscii b ≤ Text.byte 'z')

/-- What follows a tag in parentheses, if the text starts with one. -/
def dropTag (t : Text) : Text :=
  match t with
  | b :: r =>
    if b = Text.byte '(' then
      match r.dropWhile isTagByte with
      | c :: rest => if c = Text.byte ')' then rest else t
      | [] => t
    else t
  | [] => []

/-- The number at the head of a text, and what follows it. -/
def takeNumber? (t : Text) : Option (Number × Text) :=
  let (negative, body) := Numeral.takeSign (t.dropWhile isLeadingSpace)
  match Numeral.dropWord? "infinity" body, Numeral.dropWord? "inf" body,
      Numeral.dropWord? "nan" body with
  | some rest, _, _ => some (.infinity negative, rest)
  | none, some rest, _ => some (.infinity negative, rest)
  | none, none, some rest => some (.nan, dropTag rest)
  | none, none, none =>
    (Numeral.take? body).map fun (n, rest) => ((n.toDecimal negative).toNumber, rest)

/-- Whether a byte is a space or a tab. -/
def isBlank (b : UInt8) : Bool := b == 32 || b == 9

/-- Whether a byte may stand after a number. -/
def isTrailing (b : UInt8) : Bool := isBlank b || b == 13 || b == 10

/-- The number that a chunk of input holds. -/
def readChunk? (chunk : Text) : Option Number :=
  let start := (upToZero chunk).dropWhile isBlank
  if start.any fun b => Text.lowerAscii b = Text.byte 'x' then none
  else
    let (v, rest) := (takeNumber? start).getD (.zero, start)
    let tail := rest.dropWhile isTrailing
    if tail.length = start.length || !tail.isEmpty then none else some v

end TinyLang.Native
