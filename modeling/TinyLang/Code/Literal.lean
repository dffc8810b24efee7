import TinyLang.Number.Printer

/-!
# Number literals in module text

A literal is the shortest decimal of a number where that decimal is the number exactly, and the bit
pattern in hexadecimal otherwise. Decimals have a point and turn to scientific notation for decimal
exponents below -4 and from 6 on.
-/

namespace TinyLang.Code

/-- Whether the decimal `n * 10 ^ k` is the absolute value of a number exactly. -/
def isExact (v : Number) (n : Nat) (k : Int) : Bool :=
  let d : Decimal := ⟨false, n, k⟩
  d.numerator * v.denominator == v.numerator * d.denominator

/-- A bit pattern in upper-case hexadecimal, without zeros in front. -/
def patternText (n : Nat) : Text :=
  "0x" ++ (Nat.toDigits 16 n).map fun c => Text.byte c.toUpper

/-- Digits with a point after the first, and a zero behind it if there is no other. -/
def pointedText (ds : Text) : Text :=
  match ds with
  | [d] => [d] ++ ".0"
  | _ => pointAfterFirst ds

/-- The literal of a number. -/
def literalText (v : Number) : Text :=
  if v.isNaN then patternText (if v.isNegative then 0xFFF8000000000000 else 0x7FF8000000000000)
  else if v.isInfinite then patternText v.bits.toNat
  else if v.isZero then v.signText ++ "0.0"
  else
    let (n, k) := v.shortest
    if isExact v n k then
      let ds := Text.ofNat n
      let e := k + ds.length - 1
      v.signText ++ if e < -4 || 6 ≤ e then pointedText ds ++ exponentText e else fixedText ds k
    else patternText v.bits.toNat

end TinyLang.Code
