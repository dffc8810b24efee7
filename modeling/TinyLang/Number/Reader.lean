import TinyLang.Text.Quoted
import TinyLang.Number.Numeral

/-!
# Reading numbers

The number text that programs and input lines may hold: a decimal numeral with an optional sign,
`inf` or `infinity` with an optional sign, or `nan`, all in any case. Underscores may stand between
two digits. Text with an `x` is refused outright, so that no hexadecimal form is read. A value too
large for a double is an infinity, and otherwise the result is the nearest double.

The nearest double is found from the first nineteen digits of a numeral, if it is the same whatever
follows them; it may be an infinity or a zero, and the digits may be half-way between two doubles.
Where it is not the same, the numeral goes through a buffer of eight hundred digits. Digits before
the point that do not fit into the buffer are not counted, so there the value comes out smaller by
a power of ten for each of them.
-/

namespace TinyLang

namespace Number

/-- Why a text is no number. -/
inductive ReadError
  /-- The text holds an `x`. -/
  | hexMark
  /-- The text has none of the accepted forms. -/
  | malformed (text : Text)
deriving DecidableEq, Repr

/-- The wording of a reading error. -/
def ReadError.message : ReadError → Text
  | hexMark => "invalid syntax"
  | malformed t => "strconv.ParseFloat: parsing " ++ t.quoted ++ ": invalid syntax"

/-- Whether every underscore of a text stands between two digits; `digitBefore` says whether a
digit precedes the text. -/
def underscoresSeparate : (digitBefore : Bool) → Text → Bool
  | _, [] => true
  | digitBefore, b :: r =>
    (b != Text.byte '_' || (digitBefore && (r.head?.any Text.isDigit))) &&
      underscoresSeparate (Text.isDigit b) r

/-! ## Numerals -/

/-- The number of digits that a numeral is first read by. -/
def leadingDigits : Nat := 19

/-- The number of digits that the buffer holds. -/
def bufferedDigits : Nat := 800

/-- Whether a byte is the digit zero. -/
def isZeroDigit (b : UInt8) : Bool := b = Text.byte '0'

/-- The value of a numeral as it comes out of the buffer. Of the digits left out it only counts
whether one is not zero. -/
def buffered (negative : Bool) (n : Numeral) : Decimal :=
  let whole := n.whole.dropWhile isZeroDigit
  if whole.length ≤ bufferedDigits then n.toDecimal negative
  else
    let kept := Text.digitsValue (whole.take bufferedDigits)
    let rest := whole.drop bufferedDigits ++ n.fraction
    if rest.all isZeroDigit then ⟨negative, kept, n.exponent⟩
    else ⟨negative, kept * 10 + 1, n.exponent - 1⟩

/-- The number that a numeral stands for. -/
def ofNumeral (negative : Bool) (n : Numeral) : Number :=
  let digits := (n.whole ++ n.fraction).dropWhile isZeroDigit
  let leading := Text.digitsValue (digits.take leadingDigits)
  let rest := digits.drop leadingDigits
  let exponent := n.exponent - n.fraction.length + rest.length
  let low := Decimal.toNumber ⟨negative, leading, exponent⟩
  if rest.all isZeroDigit then low
  else if low = Decimal.toNumber ⟨negative, leading + 1, exponent⟩ then low
  else (buffered negative n).toNumber

/-! ## Number text -/

/-- Reads number text without underscores. -/
def readPlain? (t : Text) : Option Number :=
  let (negative, body) := Numeral.takeSign t
  let lower := body.map Text.lowerAscii
  if lower = "inf" || lower = "infinity" then some (infinity negative)
  else if t.map Text.lowerAscii = "nan" then some nan
  else match Numeral.take? body with
    | some (n, []) => some (ofNumeral negative n)
    | _ => none

/-- Whether a text holds an `x` in either case. -/
def hasHexMark (t : Text) : Bool := t.any fun b => Text.lowerAscii b = Text.byte 'x'

/-- Reads number text. -/
def read (t : Text) : Except ReadError Number :=
  if hasHexMark t then .error .hexMark
  else if underscoresSeparate false t then
    match readPlain? (t.filter (· != Text.byte '_')) with
    | some v => .ok v
    | none => .error (.malformed t)
  else .error (.malformed t)

/-- Reads number text, without the reason if it is none. -/
def read? (t : Text) : Option Number := (read t).toOption

end Number

end TinyLang
