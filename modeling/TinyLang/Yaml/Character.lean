import TinyLang.Text.Rune

/-!
# Characters of a YAML stream

A stream is UTF-8, or UTF-16 if it starts with the mark for that, and holds only the characters
that YAML allows. Bytes are decoded up to the first that cannot be; a character that is cut off is told
apart from one that is wrong, because the rest of it may still come.
-/

namespace TinyLang.Yaml

/-- Why a stream cannot be decoded. -/
inductive EncodingFault
  | badLeading
  | truncated
  | badTrailing
  | overlong
  | notUnicode
  | control
  | truncatedUnit
  | truncatedPair
  | strayLowSurrogate
  | missingLowSurrogate
deriving DecidableEq, Repr

/-- The wording of an encoding fault. -/
def EncodingFault.message : EncodingFault → Text
  | badLeading => "invalid leading UTF-8 octet"
  | truncated => "incomplete UTF-8 octet sequence"
  | badTrailing => "invalid trailing UTF-8 octet"
  | overlong => "invalid length of a UTF-8 sequence"
  | notUnicode => "invalid Unicode character"
  | control => "control characters are not allowed"
  | truncatedUnit => "incomplete UTF-16 character"
  | truncatedPair => "incomplete UTF-16 surrogate pair"
  | strayLowSurrogate => "unexpected low surrogate area"
  | missingLowSurrogate => "expected low surrogate area"

/-- Whether a character may stand in a stream. -/
def isAllowed (c : Nat) : Bool :=
  c == 0x09 || c == 0x0A || c == 0x0D || (0x20 ≤ c && c ≤ 0x7E) || c == 0x85 ||
    (0xA0 ≤ c && c ≤ 0xD7FF) || (0xE000 ≤ c && c ≤ 0xFFFD) || (0x10000 ≤ c && c ≤ 0x10FFFF)

/-- An allowed character. -/
def allowedChar (c : Nat) : Except EncodingFault Char :=
  if isAllowed c then .ok (Char.ofNat c) else .error .control

/-- The number of bytes that a leading byte announces, with the bits it contributes. -/
def leading? (b : UInt8) : Option (Nat × Nat) :=
  if b < 0x80 then some (1, b.toNat)
  else if b &&& 0xE0 == 0xC0 then some (2, b.toNat % 32)
  else if b &&& 0xF0 == 0xE0 then some (3, b.toNat % 16)
  else if b &&& 0xF8 == 0xF0 then some (4, b.toNat % 8)
  else none

/-- The least code point that needs a number of bytes. -/
def leastOfWidth : Nat → Nat
  | 2 => 0x80
  | 3 => 0x800
  | 4 => 0x10000
  | _ => 0

/-- The character at the head of `b :: rest`, and its width in bytes. -/
def decodeFirst (b : UInt8) (rest : Text) : Except EncodingFault (Char × Nat) :=
  match leading? b with
  | none => .error .badLeading
  | some (width, bits) =>
    let trailing := rest.take (width - 1)
    if trailing.length < width - 1 then .error .truncated
    else if !trailing.all Rune.isContinuation then .error .badTrailing
    else
      let c := trailing.foldl (fun n t => n * 64 + (t.toNat - 0x80)) bits
      if c < leastOfWidth width then .error .overlong
      else if (0xD800 ≤ c && c ≤ 0xDFFF) || 0x10FFFF < c then .error .notUnicode
      else (allowedChar c).map fun ch => (ch, width)

/-- How characters are written as bytes. -/
inductive Encoding
  | utf8
  /-- Units of two bytes, the more significant one first or last. -/
  | utf16 (bigEndian : Bool)
deriving DecidableEq, Repr

/-- A unit of two bytes. -/
def unitOf (bigEndian : Bool) (a b : UInt8) : Nat :=
  if bigEndian then a.toNat * 256 + b.toNat else b.toNat * 256 + a.toNat

/-- The character that starts with the unit of `a` and the byte behind it, and its width in bytes. -/
def decodeUnits (bigEndian : Bool) (a : UInt8) (rest : Text) : Except EncodingFault (Char × Nat) :=
  match rest with
  | [] => .error .truncatedUnit
  | b :: rest =>
    let u := unitOf bigEndian a b
    if 0xDC00 ≤ u && u ≤ 0xDFFF then .error .strayLowSurrogate
    else if 0xD800 ≤ u && u ≤ 0xDBFF then
      match rest with
      | c :: d :: _ =>
        let v := unitOf bigEndian c d
        if 0xDC00 ≤ v && v ≤ 0xDFFF then
          (allowedChar (0x10000 + (u - 0xD800) * 1024 + (v - 0xDC00))).map fun ch => (ch, 4)
        else .error .missingLowSurrogate
      | _ => .error .truncatedPair
    else (allowedChar u).map fun ch => (ch, 2)

namespace Encoding

/-- The character at the head of `b :: rest`, and its width in bytes. -/
def first (e : Encoding) (b : UInt8) (rest : Text) : Except EncodingFault (Char × Nat) :=
  match e with
  | utf8 => decodeFirst b rest
  | utf16 bigEndian => decodeUnits bigEndian b rest

/-- The encoding of a stream and the number of bytes that announce it. -/
def ofStart : Text → Encoding × Nat
  | 0xFF :: 0xFE :: _ => (.utf16 false, 2)
  | 0xFE :: 0xFF :: _ => (.utf16 true, 2)
  | 0xEF :: 0xBB :: 0xBF :: _ => (.utf8, 3)
  | _ => (.utf8, 0)

end Encoding

/-- Whether a character is only cut off. -/
def EncodingFault.isTruncation : EncodingFault → Bool
  | truncated | truncatedUnit | truncatedPair => true
  | _ => false

/-- Decoded characters, the bytes behind them, and why these were not decoded. -/
structure Decoded where
  chars : List Char
  rest : Text
  fault : Option EncodingFault
deriving DecidableEq, Repr

/-- Decodes bytes as far as that is possible. The first `skip` of them are already spoken for, and
`done` holds the characters before, the last one first. -/
def decodeRun (e : Encoding) : (skip : Nat) → (done : List Char) → Text → Decoded
  | _, done, [] => ⟨done.reverse, [], none⟩
  | skip + 1, done, _ :: r => decodeRun e skip done r
  | 0, done, b :: r =>
    match e.first b r with
    | .ok (c, width) => decodeRun e (width - 1) (c :: done) r
    | .error fault => ⟨done.reverse, b :: r, some fault⟩

/-- The UTF-8 bytes of characters. -/
def encodeChars (cs : List Char) : Text := cs.flatMap fun c => Rune.encode c.toNat

/-! ## Classes -/

/-- A space or a tab. -/
def isBlank (c : Char) : Bool := c == ' ' || c == '\t'

/-- A character that ends a line. -/
def isBreak (c : Char) : Bool :=
  c == '\n' || c == '\r' || c == '\u0085' || c == '\u2028' || c == '\u2029'

/-- A character of an anchor's name or a tag's handle. -/
def isWordChar (c : Char) : Bool := c.isAlphanum || c == '_' || c == '-'

/-- What stands behind the last character of a stream. No stream holds it. -/
def endChar : Char := '\x00'

/-- The end of a line or of the stream. -/
def isBreakOrEnd (c : Char) : Bool := isBreak c || c == endChar

/-- What ends a word: a blank, or the end of a line or of the stream. -/
def isBlankOrEnd (c : Char) : Bool := isBlank c || isBreakOrEnd c

/-- What a line break counts as in text: separators of their own stay, all others are newlines. -/
def breakText (c : Char) : Char := if c == '\u2028' || c == '\u2029' then c else '\n'

end TinyLang.Yaml
