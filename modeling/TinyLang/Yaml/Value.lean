import TinyLang.Number.Reader
import TinyLang.Yaml.Timestamp

/-!
# Values of scalars

What a plain scalar means: nothing, a truth value, an integer, a decimal number, a point in time, or
else a text. Each meaning has a tag. An explicit tag asks for a meaning, and its text must bear that
meaning out; under a tag that stands for no meaning of a scalar, any text is a text.
-/

namespace TinyLang.Yaml

/-- The meaning of a scalar. -/
inductive Value
  | null
  | bool (b : Bool)
  | int (n : Int)
  | float (v : Number)
  | timestamp (t : Timestamp)
  | text (t : Text)
deriving DecidableEq, Repr

/-- The tags that scalars and collections have by themselves. -/
def strTag : Text := "!!str"
@[inherit_doc strTag] def nullTag : Text := "!!null"
@[inherit_doc strTag] def boolTag : Text := "!!bool"
@[inherit_doc strTag] def intTag : Text := "!!int"
@[inherit_doc strTag] def floatTag : Text := "!!float"
@[inherit_doc strTag] def timestampTag : Text := "!!timestamp"
@[inherit_doc strTag] def binaryTag : Text := "!!binary"
@[inherit_doc strTag] def mergeTag : Text := "!!merge"
@[inherit_doc strTag] def seqTag : Text := "!!seq"
@[inherit_doc strTag] def mapTag : Text := "!!map"

/-- The tag of a value. -/
def Value.tag : Value → Text
  | null => nullTag
  | bool _ => boolTag
  | int _ => intTag
  | float _ => floatTag
  | timestamp _ => timestampTag
  | text _ => strTag

/-! ## Words -/

/-- The words that stand for values. -/
def wordValue? (t : Text) : Option Value :=
  let among (words : List String) : Bool := words.any fun w => Text.ofString w = t
  if among ["", "~", "null", "Null", "NULL"] then some .null
  else if among ["true", "True", "TRUE"] then some (.bool true)
  else if among ["false", "False", "FALSE"] then some (.bool false)
  else if among [".nan", ".NaN", ".NAN"] then some (.float .nan)
  else if among [".inf", ".Inf", ".INF", "+.inf", "+.Inf", "+.INF"] then
    some (.float (.infinity false))
  else if among ["-.inf", "-.Inf", "-.INF"] then some (.float (.infinity true))
  else none

/-- The truth value of a word that stood for one in an earlier version of the language. -/
def oldBool? (t : Text) : Option Bool :=
  let among (words : List String) : Bool := words.any fun w => Text.ofString w = t
  if among ["y", "Y", "yes", "Yes", "YES", "on", "On", "ON"] then some true
  else if among ["n", "N", "no", "No", "NO", "off", "Off", "OFF"] then some false
  else none

/-! ## Integers -/

/-- The value of a digit in bases up to sixteen. -/
def digitOf? (b : UInt8) : Option Nat :=
  let l := Text.lowerAscii b
  if Text.isDigit b then some (Text.digitValue b)
  else if Text.byte 'a' ≤ l && l ≤ Text.byte 'f' then some (l.toNat - 87)
  else none

/-- The natural number that digits of a base write. -/
def naturalOf? (base : Nat) (t : Text) : Option Nat :=
  if t.isEmpty then none
  else t.foldl (fun n? b => do
    let n ← n?
    let d ← digitOf? b
    if d < base then some (n * base + d) else none) (some 0)

/-- The natural number that digits write behind the mark of their base: `0x`, `0b`, `0o`, or a zero
for base eight. -/
def markedNaturalOf? (t : Text) : Option Nat :=
  match t with
  | 0x30 :: m :: r =>
    let l := Text.lowerAscii m
    if l = Text.byte 'x' then naturalOf? 16 r
    else if l = Text.byte 'b' then naturalOf? 2 r
    else if l = Text.byte 'o' then naturalOf? 8 r
    else naturalOf? 8 (m :: r)
  | _ => naturalOf? 10 t

/-- The integer that an optional sign and a natural number write. -/
def signedOf? (natural : Text → Option Nat) (t : Text) : Option Int :=
  let (negative, body) := Numeral.takeSign t
  (natural body).map fun n => if negative then -(n : Int) else n

/-- An integer that fits into 64 bits with a sign, or without one and without a mark of it. -/
def fittingInt? (signed : Option Int) (unsigned : Option Nat) : Option Int :=
  match signed.filter fun n => -0x8000000000000000 ≤ n && n < 0x8000000000000000 with
  | some n => some n
  | none => (unsigned.filter (· < 0x10000000000000000)).map fun n => (n : Int)

/-- The integer in a base that stands behind `mark`, after an optional minus sign. -/
def intBehind? (mark : Text) (base : Nat) (t : Text) : Option Int :=
  if t.startsWith mark then
    let body := t.drop mark.length
    fittingInt? (signedOf? (naturalOf? base) body) (naturalOf? base body)
  else if t.startsWith ("-" ++ mark) then
    fittingInt? (signedOf? (naturalOf? base) ("-" ++ t.drop (mark.length + 1))) none
  else none

/-! ## Decimal numbers -/

/-- A finite number. -/
def finiteNumber? (t : Text) : Option Number :=
  (Number.read? t).filter fun v => !v.isNaN && !v.isInfinite

/-- Whether a text is a decimal numeral with an optional sign: digits with a point among them, or a
point and digits, and an optional exponent. -/
def isDecimal (t : Text) : Bool :=
  let (_, body) := Numeral.takeSign t
  match Numeral.take? body with
  | some (_, []) => true
  | _ => false

/-! ## Plain scalars -/

/-- Whether a scalar that starts with this byte may be a word that stands for a value. -/
def startsWord (b : UInt8) : Bool := (Text.ofString "yYnNtTfFoO~").contains b

/-- The value of a scalar that starts with a digit or a sign. -/
def numericValue? (wantTime : Bool) (t : Text) : Option Value :=
  match if wantTime then Timestamp.read? t else none with
  | some time => some (.timestamp time)
  | none =>
    let plain := t.filter (· != Text.byte '_')
    match fittingInt? (signedOf? markedNaturalOf? plain) (markedNaturalOf? plain) with
    | some n => some (.int n)
    | none =>
      match (if isDecimal plain then finiteNumber? plain else none) with
      | some v => some (.float v)
      | none => ((intBehind? "0b" 2 plain).or (intBehind? "0o" 8 plain)).map .int

/-- The value of a plain scalar. Points in time are only looked for if `wantTime` is set. -/
def plainValue (wantTime : Bool) (t : Text) : Value :=
  match t with
  | [] => .null
  | b :: _ =>
    let other : Value := .text t
    if startsWord b then (wordValue? t).getD other
    else if b = Text.byte '.' then
      (wordValue? t).getD (((finiteNumber? t).map .float).getD other)
    else if Text.isDigit b || b = Text.byte '+' || b = Text.byte '-' then
      (wordValue? t).getD ((numericValue? wantTime t).getD other)
    else other

/-- Whether a tag asks for a meaning of a scalar that not every text has. -/
def isMeaning (tag : Text) : Bool :=
  [nullTag, boolTag, intTag, floatTag, timestampTag].contains tag

/-- The value of a scalar with a tag. Binary data stays as it is written. An explicit tag that its
text does not bear out is an error. -/
def valueOf (tag : Text) (t : Text) : Except Text Value :=
  if isMeaning tag then
    let v := plainValue (tag = timestampTag) t
    if tag = v.tag then .ok v
    else match v with
      | .int n =>
        if tag = floatTag && n < 0x8000000000000000 then
          .ok (.float (Decimal.toNumber ⟨decide (n < 0), n.natAbs, 0⟩))
        else mismatch v
      | _ => mismatch v
  else .ok (.text t)
where
  /-- The error of a tag that does not fit. -/
  mismatch (v : Value) : Except Text Value :=
    .error ("cannot decode " ++ v.tag ++ " \x60" ++ t ++ "\x60 as a " ++ tag)

end TinyLang.Yaml
