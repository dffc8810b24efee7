import TinyLang.Number.Nearest

/-!
# Shortest decimals

The shortest decimal of a finite number: the fewest digits that read back to it, and of those the
decimal nearest to it, a tie going to the even last digit. For each number of digits the two
neighbours of the value on that decimal grid are tried.

Beside it stands rounding to a fixed grid (`digitsAt`), the nearest multiple of a power of ten.
-/

namespace TinyLang

/-- The number of decimal digits of a natural number. -/
def decimalLength (n : Nat) : Nat := (Nat.toDigits 10 n).length

namespace Number

/-- The absolute value divided by `10 ^ k`, as a ratio. -/
def onGrid (v : Number) (k : Int) : Nat × Nat :=
  if 0 ≤ k then (v.numerator, v.denominator * Nat.pow 10 k.toNat)
  else (v.numerator * Nat.pow 10 (-k).toNat, v.denominator)

/-- The absolute value rounded down to a multiple of `10 ^ k`. -/
def floorAt (v : Number) (k : Int) : Nat := (v.onGrid k).1 / (v.onGrid k).2

/-- The decimal exponent of a finite nonzero number: the largest `e` with `10 ^ e` at most its
absolute value. No such value lies below `10 ^ -324`, so on that grid there are digits to count. -/
def decimalExponent (v : Number) : Int := (decimalLength (v.floorAt (-324)) : Int) - 325

/-- The absolute value rounded to a multiple of `10 ^ k`, a tie going to the even one. -/
def digitsAt (v : Number) (k : Int) : Nat :=
  let (num, den) := v.onGrid k
  roundDiv num den

/-- Whether `n * 10 ^ k` reads back to the absolute value. -/
def readsBack (v : Number) (n : Nat) (k : Int) : Bool :=
  let d : Decimal := ⟨false, n, k⟩
  nearestMagnitude d.numerator d.denominator == v.magnitude

/-- The neighbour on the grid of `10 ^ k` that reads back; of two the nearer, and of two equally
near the even one. -/
def neighbour? (v : Number) (k : Int) : Option Nat :=
  let (num, den) := v.onGrid k
  let low := num / den
  match v.readsBack low k, v.readsBack (low + 1) k with
  | true, true => some (roundDiv num den)
  | true, false => some low
  | false, true => some (low + 1)
  | false, false => none

/-- Moves the zeros at the end of the digits into the exponent; `fuel` bounds their number. -/
def dropZeros : (fuel : Nat) → Nat → Int → Nat × Int
  | 0, n, k => (n, k)
  | fuel + 1, n, k => if n % 10 = 0 && n != 0 then dropZeros fuel (n / 10) (k + 1) else (n, k)

/-- The digits `n` and exponent `k` of the shortest decimal `n * 10 ^ k` of a finite nonzero
number. Seventeen digits always suffice. -/
def shortest (v : Number) : Nat × Int :=
  let e := v.decimalExponent
  let found := (List.range 17).findSome? fun (places : Nat) =>
    (v.neighbour? (e - places)).map fun n => (n, e - places)
  let decimal := found.getD (v.digitsAt (e - 16), e - 16)
  dropZeros 17 decimal.1 decimal.2

end Number

end TinyLang
