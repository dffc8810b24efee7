import TinyLang.Url.Address

/-!
# Addresses of resources

An address has a scheme, a host with an optional service number, a path, a query and a fragment, of which all
but the path may be missing. Bytes that have a meaning of their own, or none, are written as a percent
sign and two hexadecimal digits; what may be written so depends on the part.
-/

namespace TinyLang

/-- The parts of an address, with escapes resolved but in the query. -/
structure Url where
  /-- The scheme in lower case, empty if there is none. -/
  scheme : Text
  host : Text
  path : Text
  query : Text
  fragment : Text
deriving DecidableEq, Repr

/-- What is wrong with an address. -/
inductive UrlFault
  | controlByte
  | emptyScheme
  | colonInFirstPart
  | badEscape (t : Text)
  | badHostByte (b : UInt8)
  | badService (t : Text)
  | openBracket
  | badLiteral
  | badAddress (host : Text) (f : AddressFault)
deriving DecidableEq, Repr

/-- The wording of a fault. -/
def UrlFault.reason : UrlFault → Text
  | controlByte => "net/url: invalid control character in URL"
  | emptyScheme => "missing protocol scheme"
  | colonInFirstPart => "first path segment in URL cannot contain colon"
  | badEscape t => "invalid URL escape " ++ t.quoted
  | badHostByte b => "invalid character " ++ Text.quoted [b] ++ " in host name"
  | badService t => "invalid port " ++ t.quoted ++ " after host"
  | openBracket => "missing ']' in host"
  | badLiteral => "invalid IP-literal"
  | badAddress host f => "invalid host: " ++ f.message host

/-- An address that cannot be read: the part of it that was read, and what is wrong there. -/
structure UrlError where
  text : Text
  fault : UrlFault
deriving DecidableEq, Repr

/-- The wording of an error. -/
def UrlError.message (e : UrlError) : Text := "parse " ++ e.text.quoted ++ ": " ++ e.fault.reason

namespace Url

/-! ## Escapes -/

/-- The parts of an address that differ in what may be escaped. -/
inductive Part
  | host
  | zone
  | path
deriving DecidableEq, Repr

/-- Whether a byte is an ASCII letter. -/
def isLetter (b : UInt8) : Bool :=
  Text.byte 'a' ≤ Text.lowerAscii b && Text.lowerAscii b ≤ Text.byte 'z'

/-- Whether an ASCII byte may stand in a host. -/
def isHostByte (b : UInt8) : Bool :=
  isLetter b || Text.isDigit b || (Text.ofString "!$&'()*+,;=:[]<>\"-_.~").contains b

/-- Whether a byte stands for itself in a part. -/
def isPlain : Part → UInt8 → Bool
  | .path, _ => true
  | _, b => 0x80 ≤ b || isHostByte b

/-- Whether a byte may be escaped in a part: any in a path; in a host only those that are not ASCII,
and the percent sign; in a zone also a space and what may stand there anyway. -/
def isEscapable : Part → UInt8 → Bool
  | .path, _ => true
  | .host, b => 0x80 ≤ b || b = Text.byte '%'
  | .zone, b => b = Text.byte '%' || b = 32 || isHostByte b

/-- The byte that two hexadecimal digits write. -/
def escapedByte? (high low : UInt8) : Option UInt8 := do
  let h ← Address.hexValue? high
  let l ← Address.hexValue? low
  return (16 * h + l).toUInt8

/-- Resolves the escapes of a part. -/
def unescape (part : Part) : Text → Except UrlFault Text
  | [] => .ok []
  | b :: rest =>
    if b = Text.byte '%' then
      match rest with
      | high :: low :: rest' =>
        match escapedByte? high low with
        | some c =>
          if isEscapable part c then (unescape part rest').map (c :: ·)
          else .error (.badEscape [b, high, low])
        | none => .error (.badEscape [b, high, low])
      | _ => .error (.badEscape (b :: rest))
    else if isPlain part b then (unescape part rest).map (b :: ·)
    else .error (.badHostByte b)

/-! ## Hosts -/

/-- Whether a text is a service number behind its colon, or nothing. -/
def isService : Text → Bool
  | [] => true
  | b :: rest => b = Text.byte ':' && rest.all Text.isDigit

/-- Splits at the last occurrence of a byte, which starts the second part. -/
def splitLast? (b : UInt8) (t : Text) : Option (Text × Text) :=
  let tail := t.reverse.takeWhile (· != b)
  if tail.length < t.length then
    let n := t.length - tail.length - 1
    some (t.take n, t.drop n)
  else none

/-- Splits in front of the first escaped percent sign, where a zone starts. -/
def splitZone : Text → Text × Text
  | [] => ([], [])
  | b :: rest =>
    if Text.startsWith (b :: rest) "%25" then ([], b :: rest)
    else
      let (host, zone) := splitZone rest
      (b :: host, zone)

/-- Reads what stands between brackets, which must be a hexadecimal address. -/
def readLiteral (t : Text) : Except UrlFault Text := do
  let (host, zone) := splitZone t
  let address := (← unescape .host host) ++ (← unescape .zone zone)
  match Address.check address with
  | .error f => throw (.badAddress address f)
  | .ok .decimal => throw .badLiteral
  | .ok .hexadecimal => return address

/-- Reads a host with its service number. -/
def readHost (t : Text) : Except UrlFault Text := do
  match splitLast? (Text.byte '[') t with
  | some ([], bracketed) =>
    match splitLast? (Text.byte ']') (bracketed.drop 1) with
    | none => throw .openBracket
    | some (literal, closing) =>
      let service := closing.drop 1
      if !isService service then throw (.badService service)
      return "[" ++ (← readLiteral literal) ++ "]" ++ service
  | some _ => throw .badLiteral
  | none =>
    match splitLast? (Text.byte ':') t with
    | some (_, service) => if !isService service then throw (.badService service)
    | none => pure ()
    unescape .host t

/-! ## Reading -/

/-- Splits off a scheme, which starts with a letter. -/
def splitScheme (t : Text) : Except UrlFault (Text × Text) :=
  let isSchemeByte := fun b => isLetter b || Text.isDigit b || (Text.ofString "+-.").contains b
  let scheme := t.takeWhile isSchemeByte
  match t.drop scheme.length with
  | b :: rest =>
    if b != Text.byte ':' then .ok ([], t)
    else
      match scheme.head? with
      | none => .error .emptyScheme
      | some first => if isLetter first then .ok (scheme.map Text.lowerAscii, rest) else .ok ([], t)
  | [] => .ok ([], t)

/-- Splits at the first occurrence of a byte, which is left out. -/
def splitAt (b : UInt8) (t : Text) : Text × Text := (Text.cut? b t).getD (t, [])

/-- Reads an address that has no fragment. -/
def readBody (t : Text) : Except UrlFault Url := do
  if t.any fun b => b < 32 || b = 127 then throw .controlByte
  let (scheme, rest) ← splitScheme t
  let (rest, query) := splitAt (Text.byte '?') rest
  if !Text.startsWith rest "/" then
    if !scheme.isEmpty then return ⟨scheme, [], rest, query, []⟩
    if (splitAt (Text.byte '/') rest).1.contains (Text.byte ':') then throw .colonInFirstPart
  let hasHost := Text.startsWith rest "//" && (!scheme.isEmpty || !Text.startsWith rest "///")
  let authority : Text := if hasHost then (rest.drop 2).takeWhile (· != Text.byte '/') else []
  let host ← readHost authority
  let path ← unescape .path (if hasHost then rest.drop (2 + authority.length) else rest)
  return ⟨scheme, host, path, query, []⟩

/-- Reads an address. -/
def read (t : Text) : Except UrlError Url := do
  let (body, fragment) := splitAt (Text.byte '#') t
  let url ← (readBody body).mapError (UrlError.mk body)
  let fragment ← (unescape .path fragment).mapError (UrlError.mk t)
  return { url with fragment }

end Url

end TinyLang
