import TinyLang.Text.Basic
import TinyLang.Number.Nearest

/-!
# Decimal numerals

The shared core of both number readers: an unsigned decimal numeral at the head of a text, and the
words for infinity. A numeral has digits with at most one point among them and at least one digit,
and may end in an exponent; an exponent mark that no digit follows is not part of it.
-/

namespace TinyLang

/-- An unsigned decimal numeral: the digits on both sides of the point, and the exponent. -/
structure Numeral where
  whole : Text
  fraction : Text
  exponent : Int
deriving DecidableEq, Repr

namespace Numeral

/-- The decimal value that a numeral writes, with a sign. -/
def toDecimal (negative : Bool) (n : Numeral) : Decimal :=
  ⟨negative, Text.digitsValue (n.whole ++ n.fraction), n.exponent - n.fraction.length⟩

/-- Splits off the sign at the head of a text; true means a minus. -/
def takeSign (t : Text) : Bool × Text :=
  match t with
  | b :: r =>
    if b = Text.byte '-' then (true, r)
    else if b = Text.byte '+' then (false, r)
    else (false, t)
  | [] => (false, [])

/-- Splits off the decimal digits at the head of a text. -/
def takeDigits (t : Text) : Text × Text := (t.takeWhile Text.isDigit, t.dropWhile Text.isDigit)

/-- The value of an exponent's digits. It stops growing once it is past every exponent that makes
a difference. -/
def exponentValue (ds : Text) : Nat :=
  ds.foldl (fun e d => if e < 10000 then e * 10 + Text.digitValue d else e) 0

/-- The exponent at the head of a text, and what follows it. Without a digit there is none. -/
def takeExponent (t : Text) : Int × Text :=
  match t with
  | b :: r =>
    if Text.lowerAscii b = Text.byte 'e' then
      let (negative, afterSign) := takeSign r
      let (ds, rest) := takeDigits afterSign
      if ds.isEmpty then (0, t)
      else (if negative then -(exponentValue ds : Int) else exponentValue ds, rest)
    else (0, t)
  | [] => (0, [])

/-- The digits after a point, if the text goes on with one. -/
def takeFraction (t : Text) : Text × Text :=
  match t with
  | b :: r => if b = Text.byte '.' then takeDigits r else ([], t)
  | [] => ([], [])

/-- The unsigned decimal numeral at the head of a text, and what follows it. -/
def take? (t : Text) : Option (Numeral × Text) :=
  let (whole, afterWhole) := takeDigits t
  let (fraction, afterFraction) := takeFraction afterWhole
  if whole.isEmpty && fraction.isEmpty then none
  else
    let (exponent, rest) := takeExponent afterFraction
    some (⟨whole, fraction, exponent⟩, rest)

/-- What follows a lower-case word at the head of a text, in any case. -/
def dropWord? (word t : Text) : Option Text :=
  if word.isPrefixOf (t.map Text.lowerAscii) then some (t.drop word.length) else none

end Numeral

end TinyLang
