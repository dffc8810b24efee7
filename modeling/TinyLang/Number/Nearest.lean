import TinyLang.Number.Basic

/-!
# The nearest double

A positive ratio is rounded to the nearest double, a tie going to the even significand. The
spacing of doubles around a ratio is `2 ^ spacing`: 52 binary places below its leading bit, but
never finer than the smallest subnormal. The ratio is divided by that spacing and rounded to an
integer, which is the significand of the result; a significand that reaches `2 ^ 53` carries into
the exponent by itself, because magnitudes are consecutive.
-/

namespace TinyLang

/-- A quotient rounded to the nearest integer, a tie going to the even one. -/
def roundDiv (num den : Nat) : Nat :=
  let q := num / den
  let r := num % den
  if 2 * r < den then q
  else if den < 2 * r then q + 1
  else q + q % 2

/-- The largest `k` with `2 ^ k ≤ num / den`, for a positive ratio. -/
def floorLog2 (num den : Nat) : Int :=
  let k : Int := (num.log2 : Int) - den.log2
  let fits := if 0 ≤ k then den * Nat.pow 2 k.toNat ≤ num else den ≤ num * Nat.pow 2 (-k).toNat
  if fits then k else k - 1

namespace Number

/-- The binary logarithm of the distance between neighbouring doubles around a positive ratio. -/
def spacing (num den : Nat) : Int := max (floorLog2 num den - 52) (-1074)

/-- The magnitude of the double nearest to a ratio. -/
def nearestMagnitude (num den : Nat) : Nat :=
  if num = 0 then 0
  else
    let q := spacing num den
    let m :=
      if 0 ≤ q then roundDiv num (den * Nat.pow 2 q.toNat)
      else roundDiv (num * Nat.pow 2 (-q).toNat) den
    min ((q + 1074).toNat * Nat.pow 2 52 + m) infinityMagnitude

end Number

/-- A decimal value `digits * 10 ^ exponent` with a sign. -/
structure Decimal where
  negative : Bool
  digits : Nat
  exponent : Int
deriving DecidableEq, Repr

namespace Decimal

/-- The numerator of the unsigned value. -/
def numerator (d : Decimal) : Nat :=
  if 0 ≤ d.exponent then d.digits * Nat.pow 10 d.exponent.toNat else d.digits

/-- The denominator of the unsigned value. -/
def denominator (d : Decimal) : Nat :=
  if 0 ≤ d.exponent then 1 else Nat.pow 10 (-d.exponent).toNat

/-- The double nearest to a decimal value. -/
def toNumber (d : Decimal) : Number :=
  Number.ofMagnitude d.negative (Number.nearestMagnitude d.numerator d.denominator)

end Decimal

end TinyLang
