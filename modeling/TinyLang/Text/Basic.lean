/-!
# Text as bytes

Source text, output and file contents are byte sequences: nothing promises that they are valid
UTF-8, and the language must treat every byte string the same way each time it meets it. `Text`
is therefore a list of bytes, and a `String` of this library's own wording is coerced to its
UTF-8 bytes.

This file holds the small vocabulary on byte sequences that the rest of the library speaks:
decimal numerals, cutting at a byte, joining, suffix and infix tests, and the byte order.
-/

namespace TinyLang

/-- A byte sequence. -/
abbrev Text := List UInt8

namespace Text

/-- The UTF-8 bytes of a string. -/
def ofString (s : String) : Text := s.toByteArray.data.toList

instance : Coe String Text := ⟨ofString⟩

/-- The string whose UTF-8 bytes these are, if they are valid UTF-8. -/
def toString? (t : Text) : Option String := String.fromUTF8? ⟨t.toArray⟩

/-- The byte of an ASCII character. -/
def byte (c : Char) : UInt8 := c.toNat.toUInt8

/-! ## Numerals -/

/-- The decimal numeral of a natural number. -/
def ofNat (n : Nat) : Text := (Nat.toDigits 10 n).map byte

/-- The decimal numeral of an integer, with a minus sign below zero. -/
def ofInt (n : Int) : Text :=
  if n < 0 then byte '-' :: ofNat n.natAbs else ofNat n.natAbs

/-- Whether a byte is one of the ten decimal digits. -/
def isDigit (b : UInt8) : Bool := byte '0' ≤ b && b ≤ byte '9'

/-- The value of a decimal digit. -/
def digitValue (b : UInt8) : Nat := b.toNat - 48

/-- The number written by a sequence of decimal digits, most significant first. -/
def digitsValue (ds : Text) : Nat := ds.foldl (fun n d => n * 10 + digitValue d) 0

/-- The ASCII lower-case form of a byte. -/
def lowerAscii (b : UInt8) : UInt8 :=
  if byte 'A' ≤ b && b ≤ byte 'Z' then b + 32 else b

/-! ## Cutting and joining -/

/-- Cuts a text at every occurrence of a byte. There is always one more piece than there are
cuts, so the empty text gives one empty piece. -/
def pieces (sep : UInt8) : Text → List Text
  | [] => [[]]
  | b :: r =>
    if b = sep then [] :: pieces sep r
    else match pieces sep r with
      | [] => [[b]]
      | p :: ps => (b :: p) :: ps

/-- Cuts a text at the first occurrence of a byte; `none` if it does not occur. -/
def cut? (sep : UInt8) : Text → Option (Text × Text)
  | [] => none
  | b :: r =>
    if b = sep then some ([], r)
    else (cut? sep r).map fun (before, after) => (b :: before, after)

/-- Puts a separator between texts. -/
def join (sep : Text) : List Text → Text
  | [] => []
  | [t] => t
  | t :: ts => t ++ sep ++ join sep ts

/-- Repeats a text. -/
def repeated (t : Text) : Nat → Text
  | 0 => []
  | n + 1 => t ++ repeated t n

/-- Whether `t` ends with `tail`. -/
def endsWith (t tail : Text) : Bool := tail.isSuffixOf t

/-- Whether `t` starts with `head`. -/
def startsWith (t head : Text) : Bool := head.isPrefixOf t

/-- Whether `part` occurs in the text. -/
def hasInfix (part : Text) : Text → Bool
  | [] => part.isEmpty
  | b :: r => part.isPrefixOf (b :: r) || hasInfix part r

/-- Splits off the first line, its newline included. An unterminated last line counts as a line;
`none` at the end of the text. -/
def takeLine? : Text → Option (Text × Text)
  | [] => none
  | b :: r =>
    if b = byte '\n' then some ([b], r)
    else match takeLine? r with
      | none => some ([b], [])
      | some (line, rest) => some (b :: line, rest)

/-- The byte order: the first differing byte decides, and a proper beginning comes first. -/
def before : Text → Text → Bool
  | _, [] => false
  | [], _ :: _ => true
  | a :: r, b :: s => a < b || (a = b && before r s)

/-- The two lower-case hexadecimal digits of a byte. -/
def hexByte (b : UInt8) : Text :=
  [b >>> 4, b &&& 15].map fun d => if d < 10 then 48 + d else 87 + d

/-- A number in hexadecimal lower case, with zeros in front up to a width. -/
def ofNatHex (width : Nat) (n : Nat) : Text :=
  let digits := (Nat.toDigits 16 n).map byte
  List.replicate (width - digits.length) (byte '0') ++ digits

end Text

end TinyLang
