import TinyLang.Text.Printable

/-!
# Quoted text

Text shown in messages stands between double quotes. Printable code points appear as themselves,
a quote and a backslash after a backslash, the usual control characters by letter, other ASCII
controls and stray bytes as `\x` and two digits, and any other code point as `\u` and four or `\U`
and eight digits.
-/

namespace TinyLang

/-- The letter that stands for a control character after a backslash. -/
def controlLetter? (c : Nat) : Option Char :=
  match c with
  | 0x07 => some 'a'
  | 0x08 => some 'b'
  | 0x0C => some 'f'
  | 0x0A => some 'n'
  | 0x0D => some 'r'
  | 0x09 => some 't'
  | 0x0B => some 'v'
  | _ => none

/-- How a rune is shown between double quotes. -/
def Rune.quoted (r : Rune) : Text :=
  match r.code? with
  | none => r.bytes.flatMap fun b => "\\x" ++ Text.hexByte b
  | some c =>
    if c = 0x22 || c = 0x5C then Text.byte '\\' :: r.bytes
    else if isPrintable c then r.bytes
    else match controlLetter? c with
      | some letter => [Text.byte '\\', Text.byte letter]
      | none =>
        if c < 0x20 || c = 0x7F then "\\x" ++ Text.ofNatHex 2 c
        else if c < 0x10000 then "\\u" ++ Text.ofNatHex 4 c
        else "\\U" ++ Text.ofNatHex 8 c

/-- A text between double quotes. -/
def Text.quoted (t : Text) : Text :=
  "\"" ++ t.runes.flatMap Rune.quoted ++ "\""

end TinyLang
