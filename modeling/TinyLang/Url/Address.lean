import TinyLang.Text.Quoted

/-!
# Numeric addresses

The address of a machine in numbers: four decimal fields between periods, or eight hexadecimal ones
between colons. In the second form two colons in a row stand for as many zero fields as are missing,
the last two fields may be written in the first form, and a *zone* may follow a percent sign.
-/

namespace TinyLang

/-- What is wrong with a numeric address. -/
inductive AddressFault
  | noAddress
  | zoneOnly
  | leadingZero
  | fieldTooLarge
  | emptyDecimal (rest : Text)
  | tooManyDecimals
  | unexpected (rest : Text)
  | tooFewDecimals
  | emptyZone
  | tooManyDigits (rest : Text)
  | emptyField (rest : Text)
  | decimalsTooEarly (rest : Text)
  | decimalsTooLate (rest : Text)
  | noColon (rest : Text)
  | colonAtEnd (rest : Text)
  | secondGap (rest : Text)
  | tooManyFields (rest : Text)
  | tooFewFields
  | gapOfNothing
deriving DecidableEq, Repr

namespace AddressFault

/-- The wording of a fault. -/
def reason : AddressFault → Text
  | noAddress => "unable to parse IP"
  | zoneOnly => "missing IPv6 address"
  | leadingZero => "IPv4 field has octet with leading zero"
  | fieldTooLarge => "IPv4 field has value >255"
  | emptyDecimal _ => "IPv4 field must have at least one digit"
  | tooManyDecimals => "IPv4 address too long"
  | unexpected _ => "unexpected character"
  | tooFewDecimals => "IPv4 address too short"
  | emptyZone => "zone must be a non-empty string"
  | tooManyDigits _ => "each group must have 4 or less digits"
  | emptyField _ => "each colon-separated field must have at least one digit"
  | decimalsTooEarly _ => "embedded IPv4 address must replace the final 2 fields of the address"
  | decimalsTooLate _ =>
    "too many hex fields to fit an embedded IPv4 at the end of the address"
  | noColon _ => "unexpected character, want colon"
  | colonAtEnd _ => "colon must be followed by more characters"
  | secondGap _ => "multiple :: in address"
  | tooManyFields _ => "trailing garbage after address"
  | tooFewFields => "address string too short"
  | gapOfNothing => "the :: must expand to at least one field of zeros"

/-- The part of the address where a fault was met. -/
def place? : AddressFault → Option Text
  | emptyDecimal t | unexpected t | tooManyDigits t | emptyField t | decimalsTooEarly t
  | decimalsTooLate t | noColon t | colonAtEnd t | secondGap t | tooManyFields t => some t
  | _ => none

/-- The wording of a fault in an address. -/
def message (address : Text) (f : AddressFault) : Text :=
  let place : Text := match f.place? with
    | some t => " (at " ++ t.quoted ++ ")"
    | none => []
  "ParseAddr(" ++ address.quoted ++ "): " ++ f.reason ++ place

end AddressFault

/-- The two forms of an address. -/
inductive AddressForm
  | decimal
  | hexadecimal
deriving DecidableEq, Repr

namespace Address

/-- The value of a hexadecimal digit. -/
def hexValue? (b : UInt8) : Option Nat :=
  if Text.isDigit b then some (Text.digitValue b)
  else
    let low := Text.lowerAscii b
    if Text.byte 'a' ≤ low && low ≤ Text.byte 'f' then some (low.toNat - 87) else none

/-- Checks decimal fields. `field` holds the digits of the current one, `done` counts those before
it. -/
def checkDecimals (field : Text) (done : Nat) : Text → Except AddressFault Unit
  | [] => if done < 3 then .error .tooFewDecimals else .ok ()
  | b :: rest =>
    if Text.isDigit b then
      if field = "0" then .error .leadingZero
      else if 255 < Text.digitsValue (field ++ [b]) then .error .fieldTooLarge
      else checkDecimals (field ++ [b]) done rest
    else if b = Text.byte '.' then
      if field.isEmpty || rest.isEmpty then .error (.emptyDecimal (b :: rest))
      else if done = 3 then .error .tooManyDecimals
      else checkDecimals [] (done + 1) rest
    else .error (.unexpected (b :: rest))

/-- The number of hexadecimal fields. -/
def fieldCount : Nat := 8

/-- Ends an address of `count` fields. -/
def closeFields (count : Nat) (gap : Bool) (rest : Text) : Except AddressFault Unit :=
  if !rest.isEmpty then .error (.tooManyFields rest)
  else if count < fieldCount then if gap then .ok () else .error .tooFewFields
  else if gap then .error .gapOfNothing
  else .ok ()

/-- Checks decimal fields that stand for the last two hexadecimal ones. -/
def checkEmbedded (count : Nat) (gap : Bool) (t : Text) : Except AddressFault Unit := do
  if !gap && count != fieldCount - 2 then throw (.decimalsTooEarly t)
  if fieldCount < count + 2 then throw (.decimalsTooLate t)
  checkDecimals [] 0 t
  closeFields (count + 2) gap []

/-- Checks hexadecimal fields behind `count` others. `left` is the number of fields that may still
follow, and `gap` tells whether fields were left out. -/
def checkFields : (left : Nat) → (gap : Bool) → Text → Except AddressFault Unit
  | 0, gap, t => closeFields fieldCount gap t
  | left + 1, gap, t =>
    let count := fieldCount - (left + 1)
    let digits := t.takeWhile fun b => (hexValue? b).isSome
    let rest := t.drop digits.length
    if 4 < digits.length then .error (.tooManyDigits t)
    else if digits.isEmpty then .error (.emptyField t)
    else
      match rest with
      | [] => closeFields (count + 1) gap []
      | b :: after =>
        if b = Text.byte '.' then checkEmbedded count gap t
        else if b != Text.byte ':' then .error (.noColon rest)
        else
          match after with
          | [] => .error (.colonAtEnd rest)
          | c :: afterGap =>
            if c != Text.byte ':' then checkFields left gap after
            else if gap then .error (.secondGap after)
            else if afterGap.isEmpty then closeFields (count + 1) true []
            else checkFields left true afterGap

/-- Checks an address with colons. -/
def checkHexadecimal (t : Text) : Except AddressFault Unit := do
  let body ← match Text.cut? (Text.byte '%') t with
    | some (_, []) => throw .emptyZone
    | some (body, _) => pure body
    | none => pure t
  if !Text.startsWith body "::" then checkFields fieldCount false body
  else if body.length = 2 then return
  else checkFields fieldCount true (body.drop 2)

/-- Checks an address. The first period, colon or percent sign tells its form. -/
def check (t : Text) : Except AddressFault AddressForm :=
  match t.find? fun b => b = Text.byte '.' || b = Text.byte ':' || b = Text.byte '%' with
  | none => .error .noAddress
  | some b =>
    if b = Text.byte '.' then (checkDecimals [] 0 t).map fun _ => .decimal
    else if b = Text.byte ':' then (checkHexadecimal t).map fun _ => .hexadecimal
    else .error .zoneOnly

end Address

end TinyLang
