import TinyLang.Text.Basic

/-!
# Base 64

Bytes as letters of an alphabet of 64, four for each three bytes, filled up with equality signs at
the end. Line breaks in encoded text are ignored.
-/

namespace TinyLang.Text

/-- The letters, in the order of their values. -/
def base64Alphabet : Text :=
  "ABCDEFGHIJKLMNOPQRSTUVWXYZabcdefghijklmnopqrstuvwxyz0123456789+/"

/-- The letter of a value below 64. -/
def base64Letter (n : Nat) : UInt8 := base64Alphabet.getD n (byte 'A')

/-- Encodes bytes. -/
def toBase64 : Text → Text
  | [] => []
  | [a] =>
    let n := a.toNat * 16
    [base64Letter (n / 64), base64Letter (n % 64), byte '=', byte '=']
  | [a, b] =>
    let n := (a.toNat * 256 + b.toNat) * 4
    [base64Letter (n / 4096), base64Letter (n / 64 % 64), base64Letter (n % 64), byte '=']
  | a :: b :: c :: r =>
    let n := (a.toNat * 256 + b.toNat) * 256 + c.toNat
    [base64Letter (n / 262144), base64Letter (n / 4096 % 64), base64Letter (n / 64 % 64),
      base64Letter (n % 64)] ++ toBase64 r

/-- The value of a letter. -/
def base64Value? (b : UInt8) : Option Nat := base64Alphabet.idxOf? b

/-- Decodes groups of four letters; only the last may be filled up. -/
def decodeBase64 : Text → Option Text
  | [] => some []
  | a :: b :: c :: d :: r => do
    let x ← base64Value? a
    let y ← base64Value? b
    let first := (x * 4 + y / 16).toUInt8
    if c = byte '=' then
      if d = byte '=' && r.isEmpty then some [first] else none
    else
      let z ← base64Value? c
      let second := (y % 16 * 16 + z / 4).toUInt8
      if d = byte '=' then
        if r.isEmpty then some [first, second] else none
      else
        let w ← base64Value? d
        return first :: second :: (z % 4 * 64 + w).toUInt8 :: (← decodeBase64 r)
  | _ => none

/-- Decodes text. -/
def ofBase64? (t : Text) : Option Text :=
  decodeBase64 (t.filter fun b => b != byte '\n' && b != byte '\r')

end TinyLang.Text
