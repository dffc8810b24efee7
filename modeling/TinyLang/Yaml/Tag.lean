import TinyLang.Yaml.Scalar

/-!
# Tags and directives in a YAML stream

A tag is an address, either whole between angle brackets or behind a *handle* that stands for the start
of one. Directives at the start of a document tell its version and what handles stand for. In an
address a percent sign and two digits write a byte, and such bytes must be those of characters.
-/

namespace TinyLang.Yaml

/-- A directive. -/
inductive Directive
  | version (major minor : Nat)
  | handle (handle replacement : Text)
deriving DecidableEq, Repr

/-- A tag as it is written: a handle, which may be empty, and the rest of the address. -/
structure TagName where
  handle : Text
  suffix : Text
deriving DecidableEq, Repr, Inhabited

namespace Scan

/-! ## Addresses -/

/-- A character of an address that stands for itself. -/
def isAddressChar (c : Char) : Bool := isWordChar c || ";/?:@&=+$.,!~*'()[]".toList.contains c

/-- The byte that an escape at the current place writes. -/
def escapedByte? : Scan (Option UInt8) := do
  need 3
  let i ← get
  if i.head == '%' then return (hexNumber? [i.get 1, i.get 2]).map Nat.toUInt8 else return none

/-- Takes an escaped byte, of which there must be one. -/
def takeEscapedByte (start : Mark) (fits : UInt8 → Bool) (otherwise : Text) : Scan UInt8 := do
  match ← escapedByte? with
  | none => fail start "did not find URI escaped octet"
  | some b =>
    if !fits b then fail start otherwise
    modify fun i => i.advance 3
    return b

/-- Takes the escaped bytes behind the first one of a character. -/
def takeTrailing (start : Mark) : (count : Nat) → Scan Text
  | 0 => return []
  | count + 1 => do
    let b ← takeEscapedByte start Rune.isContinuation "found an incorrect trailing UTF-8 octet"
    return b :: (← takeTrailing start count)

/-- Takes the escaped bytes of a character. -/
def takeEscapedChar (start : Mark) : Scan Text := do
  let b ← takeEscapedByte start (fun b => (leading? b).isSome) "found an incorrect leading UTF-8 octet"
  let width := ((leading? b).map Prod.fst).getD 1
  return b :: (← takeTrailing start (width - 1))

/-- Takes the rest of an address, of which `done` is taken already, the last byte first. -/
def takeAddress (start : Mark) : (fuel : Nat) → (done : Text) → Scan Text
  | 0, done => return done.reverse
  | fuel + 1, done => do
    need 1
    let c ← head
    if c == '%' then
      takeAddress start fuel ((← takeEscapedChar start).reverse ++ done)
    else if isAddressChar c then
      skip
      takeAddress start fuel ((encodeChars [c]).reverse ++ done)
    else return done.reverse

/-- Takes an address. It must not be empty unless something stands before it. -/
def address (start : Mark) (head : List Char) : Scan Text := do
  let rest ← takeAddress start (← fuel) []
  if head.isEmpty && rest.isEmpty then fail start "did not find expected tag URI"
  return encodeChars (head.drop 1) ++ rest

/-! ## Tags -/

/-- Takes a handle: an exclamation mark, a word, and a second exclamation mark if one follows. -/
def takeHandle (start : Mark) : Scan (List Char) := do
  need 1
  if (← head) != '!' then fail start "did not find expected '!'"
  skip
  let word ← takeWhile isWordChar
  if (← head) == '!' then
    skip
    return '!' :: word ++ ['!']
  else return '!' :: word

/-- Takes a tag. -/
def tagName : Scan TagName := do
  let start ← mark
  need 2
  let name ←
    if (← look 1) == '<' then do
      modify fun i => i.advance 2
      let suffix ← address start []
      if (← head) != '>' then fail start "did not find the expected '>'"
      skip
      pure ⟨[], suffix⟩
    else do
      let handle ← takeHandle start
      if 1 < handle.length && handle.getLast? == some '!' then
        pure ⟨encodeChars handle, ← address start []⟩
      else
        let suffix ← address start handle
        pure (if suffix.isEmpty then ⟨[], "!"⟩ else ⟨"!", suffix⟩)
  need 1
  if !isBlankOrEnd (← head) then fail start "did not find expected whitespace or line break"
  return name

/-! ## Directives -/

/-- The most digits that a number of a version has. -/
def versionDigits : Nat := 2

/-- Takes a number of a version. -/
def versionPart (start : Mark) : Scan Nat := do
  let digits ← takeWhile Char.isDigit
  if digits.isEmpty then fail start "did not find expected version number"
  if versionDigits < digits.length then fail start "found extremely long version number"
  return digits.foldl (fun n d => n * 10 + (d.toNat - 48)) 0

/-- Takes a version. -/
def version (start : Mark) : Scan Directive := do
  let major ← versionPart start
  if (← head) != '.' then fail start "did not find expected digit or '.' character"
  skip
  return .version major (← versionPart start)

/-- Takes a handle with what it stands for. -/
def handleMeaning (start : Mark) : Scan Directive := do
  let handle ← takeHandle start
  if 1 < handle.length && handle.getLast? != some '!' then fail start "did not find expected '!'"
  need 1
  if !isBlank (← head) then fail start "did not find expected whitespace"
  skipBlanks
  let replacement ← address start []
  need 1
  if !isBlankOrEnd (← head) then fail start "did not find expected whitespace or line break"
  return .handle (encodeChars handle) replacement

/-- Takes a directive with its line. -/
def directive : Scan Directive := do
  let start ← mark
  skip
  let name ← takeWhile isWordChar
  if name.isEmpty then fail start "could not find expected directive name"
  if !isBlankOrEnd (← head) then fail start "found unexpected non-alphabetical character"
  let d ←
    if name == "YAML".toList then do
      skipBlanks
      version start
    else if name == "TAG".toList then do
      skipBlanks
      handleMeaning start
    else fail start "found unknown directive name"
  skipBlanks
  if (← head) == '#' then skipLine
  if !isBreakOrEnd (← head) then fail start "did not find expected comment or line break"
  if isBreak (← head) then
    let _ ← takeBreak
  return d

/-! ## Names of nodes -/

/-- Takes the name behind the mark of an anchor or an alias. -/
def nodeName : Scan Text := do
  let start ← mark
  skip
  let name ← takeWhile isWordChar
  let c ← head
  if name.isEmpty || !(isBlankOrEnd c || "?:,]\x7d%@`".toList.contains c) then
    fail start "did not find expected alphabetic or numeric character"
  return encodeChars name

end Scan

end TinyLang.Yaml
