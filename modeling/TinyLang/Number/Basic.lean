/-!
# Numbers

Every value of the language is an IEEE-754 double, held as its 64-bit pattern. The pattern is read
as a sign and a *magnitude*, the low 63 bits as a natural number: magnitudes of finite numbers and
infinity increase with the value, so comparison is integer comparison (`key`), and a finite
magnitude stands for `significand * 2 ^ scale`.

The four arithmetic operations are those of `Float`.
-/

namespace TinyLang

/-- A double, as its bit pattern. -/
structure Number where
  bits : UInt64
deriving DecidableEq, Repr

namespace Number

/-- The magnitude of infinity: all exponent bits set, no fraction bit. -/
def infinityMagnitude : Nat := 0x7FF0000000000000

/-- The number with a sign and a magnitude. -/
def ofMagnitude (negative : Bool) (magnitude : Nat) : Number :=
  ⟨((if negative then 0x8000000000000000 else 0) + magnitude).toUInt64⟩

/-- Whether the sign bit is set. -/
def isNegative (v : Number) : Bool := 0x8000000000000000 ≤ v.bits.toNat

/-- The pattern without its sign bit. -/
def magnitude (v : Number) : Nat := v.bits.toNat % 0x8000000000000000

/-- Whether the pattern stands for no number. -/
def isNaN (v : Number) : Bool := infinityMagnitude < v.magnitude

/-- Whether the number is one of the two infinities. -/
def isInfinite (v : Number) : Bool := v.magnitude == infinityMagnitude

/-- Whether the number is one of the two zeros. -/
def isZero (v : Number) : Bool := v.magnitude == 0

/-- The biased exponent. -/
def exponentField (v : Number) : Nat := v.magnitude / Nat.pow 2 52

/-- The integer `m` in the finite magnitude `m * 2 ^ scale`. -/
def significand (v : Number) : Nat :=
  if v.exponentField = 0 then v.magnitude % Nat.pow 2 52
  else v.magnitude % Nat.pow 2 52 + Nat.pow 2 52

/-- The power of two in the finite magnitude `significand * 2 ^ scale`. -/
def scale (v : Number) : Int := (max v.exponentField 1 : Nat) - 1075

/-- The numerator of the finite magnitude as a ratio. -/
def numerator (v : Number) : Nat :=
  if 0 ≤ v.scale then v.significand * Nat.pow 2 v.scale.toNat else v.significand

/-- The denominator of the finite magnitude as a ratio. -/
def denominator (v : Number) : Nat :=
  if 0 ≤ v.scale then 1 else Nat.pow 2 (-v.scale).toNat

/-! ## Particular numbers -/

/-- Positive zero. -/
def zero : Number := ⟨0⟩

/-- One. -/
def one : Number := ⟨0x3FF0000000000000⟩

/-- A pattern that stands for no number. -/
def nan : Number := ⟨0x7FF8000000000001⟩

/-- The infinity of a sign. -/
def infinity (negative : Bool) : Number := ofMagnitude negative infinityMagnitude

/-- One for true and zero for false. -/
def ofBool (b : Bool) : Number := if b then one else zero

/-! ## Comparison -/

/-- The position of a number on the real line: the signed magnitude. Both zeros have key 0. -/
def key (v : Number) : Int := if v.isNegative then -v.magnitude else v.magnitude

/-- Whether both are numbers, so that they can be compared. -/
def comparable (a b : Number) : Bool := !a.isNaN && !b.isNaN

/-- Less than; false if either is no number. -/
def less (a b : Number) : Bool := comparable a b && a.key < b.key

/-- At most; false if either is no number. -/
def atMost (a b : Number) : Bool := comparable a b && a.key ≤ b.key

/-- Equal as numbers: the zeros are equal, and what is no number equals nothing. -/
def equal (a b : Number) : Bool := comparable a b && a.key == b.key

/-- Whether the number counts as true in a condition: anything but a zero does. -/
def isTrue (v : Number) : Bool := !v.equal zero

/-! ## Arithmetic -/

/-- The number of a `Float`. -/
def ofFloat (x : Float) : Number := ⟨x.toBits⟩

/-- The `Float` of a number. -/
def toFloat (v : Number) : Float := Float.ofBits v.bits

/-- The sum. -/
def add (a b : Number) : Number := ofFloat (a.toFloat + b.toFloat)

/-- The difference. -/
def sub (a b : Number) : Number := ofFloat (a.toFloat - b.toFloat)

/-- The product. -/
def mul (a b : Number) : Number := ofFloat (a.toFloat * b.toFloat)

/-- The quotient. -/
def div (a b : Number) : Number := ofFloat (a.toFloat / b.toFloat)

end Number

end TinyLang
