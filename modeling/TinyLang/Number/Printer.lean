import TinyLang.Text.Basic
import TinyLang.Number.Shortest

/-!
# Number text

How programs print numbers: the shortest decimal, in fixed notation with digits on both sides of
the point when its decimal exponent is at least -4 and below 16, and in scientific notation
otherwise.
-/

namespace TinyLang

/-- An exponent with its sign and at least two digits. -/
def exponentText (e : Int) : Text :=
  let ds := Text.ofNat e.natAbs
  "e" ++ (if e < 0 then ("-" : Text) else "+") ++ (if ds.length < 2 then "0" ++ ds else ds)

/-- Digits with a point after the first, if there is more than one. -/
def pointAfterFirst (ds : Text) : Text :=
  match ds with
  | d :: e :: r => d :: Text.byte '.' :: e :: r
  | _ => ds

/-- Digits `ds` times `10 ^ k` in fixed notation, with at least one digit after the point. -/
def fixedText (ds : Text) (k : Int) : Text :=
  if 0 ≤ k then ds ++ List.replicate k.toNat (Text.byte '0') ++ ".0"
  else
    let places := (-k).toNat
    if places < ds.length then ds.take (ds.length - places) ++ "." ++ ds.drop (ds.length - places)
    else "0." ++ List.replicate (places - ds.length) (Text.byte '0') ++ ds

namespace Number

/-- The sign that stands before the digits. -/
def signText (v : Number) : Text := if v.isNegative then "-" else ""

/-- The text of the values that have no shortest decimal: what is no number, the infinities and
the zeros. -/
def specialText? (v : Number) : Option Text :=
  if v.isNaN then some "nan"
  else if v.isInfinite then some (v.signText ++ "inf")
  else if v.isZero then some (v.signText ++ "0.0")
  else none

/-- Whether a decimal exponent calls for scientific notation. -/
def wantsScientific (e : Int) : Bool := e < -4 || 16 ≤ e

/-- The digits of `n` times `10 ^ k`, in the notation that the exponent of the first digit calls
for. -/
def decimalText (n : Nat) (k : Int) : Text :=
  let ds := Text.ofNat n
  let e := k + ds.length - 1
  if wantsScientific e then pointAfterFirst ds ++ exponentText e else fixedText ds k

/-- The text that print shows for a number. -/
def text (v : Number) : Text :=
  match v.specialText? with
  | some t => t
  | none =>
    let decimal := v.shortest
    v.signText ++ decimalText decimal.1 decimal.2

end Number

end TinyLang
