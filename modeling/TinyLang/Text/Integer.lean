import TinyLang.Text.Basic

/-!
# Integers from text

A 64-bit integer is an optional sign and digits. Where any base is allowed, the digits may stand
behind `0x`, `0o`, `0b`, or a zero for base eight, and underscores may separate them. Digits are
taken one by one, so a number that is too large is noticed before a wrong digit behind it.
-/

namespace TinyLang

/-- Why a text is no integer. -/
inductive IntegerFault
  | malformed
  | outOfRange
deriving DecidableEq, Repr

namespace Text

/-- The value of a digit in bases up to thirty-six. -/
def baseDigit? (b : UInt8) : Option Nat :=
  let l := lowerAscii b
  if isDigit b then some (digitValue b)
  else if byte 'a' ≤ l && l ≤ byte 'z' then some (l.toNat - 87)
  else none

/-- The natural number that digits continue, below two to the power of 64. Underscores are skipped if
they are allowed. -/
def scanNatural (base : Nat) (underscores : Bool) : Nat → Text → Except IntegerFault Nat
  | n, [] => .ok n
  | n, b :: r =>
    if underscores && b = byte '_' then scanNatural base underscores n r
    else
      match baseDigit? b with
      | none => .error .malformed
      | some d =>
        if base ≤ d then .error .malformed
        else if 2 ^ 64 ≤ n * base + d then .error .outOfRange
        else scanNatural base underscores (n * base + d) r

/-- Whether every underscore stands between two digits. `digitBefore` says whether one stands before
the text. -/
def underscoresInside : (digitBefore : Bool) → Text → Bool
  | digitBefore, [] => digitBefore
  | digitBefore, b :: r =>
    if b = byte '_' then digitBefore && underscoresInside false r else underscoresInside true r

/-- The base that digits are marked with, and the digits behind the mark. -/
def takeBase : Text → Nat × Text
  | z :: m :: d :: r =>
    let l := lowerAscii m
    if z != byte '0' then (10, z :: m :: d :: r)
    else if l = byte 'x' then (16, d :: r)
    else if l = byte 'o' then (8, d :: r)
    else if l = byte 'b' then (2, d :: r)
    else (8, m :: d :: r)
  | z :: r => if z = byte '0' then (8, r) else (10, z :: r)
  | [] => (10, [])

/-- The sign in front of a number, and the number. -/
def takeMinus : Text → Bool × Text
  | b :: r =>
    if b = byte '-' then (true, r) else if b = byte '+' then (false, r) else (false, b :: r)
  | [] => (false, [])

/-- Reads a 64-bit integer, in base ten unless any base is allowed. -/
def readInt64 (anyBase : Bool) (t : Text) : Except IntegerFault Int64 := do
  let (negative, body) := takeMinus t
  if body.isEmpty then throw .malformed
  let (base, digits) := if anyBase then takeBase body else (10, body)
  let n ← scanNatural base anyBase 0 digits
  if anyBase && !underscoresInside (base != 10) digits then throw .malformed
  let signed : Int := if negative then -(n : Int) else n
  if signed < Int64.minValue.toInt || Int64.maxValue.toInt < signed then throw .outOfRange
  return Int64.ofInt signed

end Text

end TinyLang
