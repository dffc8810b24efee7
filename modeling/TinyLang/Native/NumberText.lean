import TinyLang.Native.Input
import TinyLang.Number.Printer

/-!
# Number text of compiled programs

A compiled program has a number printer of its own. It prints a number in scientific notation with
one, two, … digits, correctly rounded, and takes the first text that reads back. It only looks at
the nearest decimal of each length, where the interpreter looks at both neighbours. The exponent is
then read off that text, and the number is written in fixed or scientific notation by the same rule
as the interpreter's.

Both texts are printed into memories of a fixed size. Nothing here relies on their fitting: what
does not fit is dropped, and what is read back is what the memory holds.
-/

namespace TinyLang.Native

/-! ## Printing into a memory -/

/-- What printing a text into a memory of `size` bytes leaves there. One byte is kept back for the
zero behind the text. -/
def printed (size : Nat) (t : Text) : Text := t.take (size - 1)

/-- The size of the memory that digits are tried in. -/
def digitsSize : Nat := 40

/-- The size of the memory that the text of a number is printed into. -/
def textSize : Nat := 64

/-! ## The search for a precision -/

/-- The value rounded to `precision` significant digits: the digits, and the decimal exponent of
the first. Rounding up to the next power of ten moves the exponent. -/
def significant (v : Number) (precision : Nat) : Nat × Int :=
  let e := v.decimalExponent
  let n := v.digitsAt (e - (precision - 1 : Nat))
  if n = Nat.pow 10 precision then (Nat.pow 10 (precision - 1), e + 1) else (n, e)

/-- The value in scientific notation with `precision` significant digits, correctly rounded. -/
def scientificText (v : Number) (precision : Nat) : Text :=
  let rounded := significant v precision
  v.signText ++ (pointAfterFirst (Text.ofNat rounded.1) ++ exponentText rounded.2)

/-- The digits that are tried at a precision, as they stand in the memory. -/
def digitsText (v : Number) (precision : Nat) : Text := printed digitsSize (scientificText v precision)

/-- The number at the head of a text, or zero if there is none. -/
def valueOf (t : Text) : Number := ((takeNumber? t).map Prod.fst).getD .zero

/-- Whether the digits that are tried at a precision read back. -/
def reads (v : Number) (precision : Nat) : Bool := (valueOf (digitsText v precision)).equal v

/-- The least number of digits from `precision` on whose rounding reads back; `more` is how many
further numbers of digits are tried. -/
def searchPrecision (v : Number) : (more : Nat) → (precision : Nat) → Nat
  | 0, precision => precision
  | more + 1, precision =>
    if reads v precision then precision else searchPrecision v more (precision + 1)

/-- The number of digits that a value is written with, at most 17. -/
def precisionOf (v : Number) : Nat := searchPrecision v 16 1

/-! ## The text -/

/-- What stands before the exponent of a text in scientific notation. -/
def mantissaOf (t : Text) : Text := t.takeWhile (· != Text.byte 'e')

/-- The exponent of a text in scientific notation. -/
def exponentOf (t : Text) : Int := (Numeral.takeExponent (t.dropWhile (· != Text.byte 'e'))).1

/-- The value in fixed notation with a number of decimal places, correctly rounded. -/
def fixedPlaces (v : Number) (places : Nat) : Text :=
  let ds := Text.ofNat (v.digitsAt (-(places : Int)))
  let padded := List.replicate (places + 1 - ds.length) (Text.byte '0') ++ ds
  padded.take (padded.length - places) ++ "." ++ padded.drop (padded.length - places)

/-- The whole text of a number, as long as it may be. -/
def wholeText (v : Number) : Text :=
  match v.specialText? with
  | some t => t
  | none =>
    let precision := precisionOf v
    let digits := digitsText v precision
    let e := exponentOf digits
    if Number.wantsScientific e then mantissaOf digits ++ exponentText e
    else v.signText ++ fixedPlaces v (max 1 ((precision : Int) - 1 - e)).toNat

/-- The text that a compiled program prints for a number. -/
def numberText (v : Number) : Text := printed textSize (wholeText v)

end TinyLang.Native
