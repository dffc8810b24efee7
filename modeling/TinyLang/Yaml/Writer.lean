import TinyLang.Yaml.Value
import TinyLang.Yaml.Character
import TinyLang.Text.Base64

/-!
# Writing scalars

How a text is written as a scalar of a block mapping, so that it is read back as that text. A text
that would be read as another type is put in double quotes; a text with newlines becomes a literal
block; any other is plain if it can be, in single quotes if not, and in double quotes if it holds
characters that must be escaped. Bytes that are no UTF-8 are written as binary data.
-/

namespace TinyLang.Yaml

/-! ## What a text looks like -/

/-- The places of a base-60 number behind its first: a colon and one or two digits, at least once
unless `seen`, then an optional fraction. -/
def isSexagesimalTail : (seen : Bool) → Text → Bool
  | seen, [] => seen
  | seen, b :: r =>
    if b = Text.byte ':' then
      match r with
      | d :: e :: r' =>
        if Text.isDigit d && d ≤ Text.byte '5' && Text.isDigit e then isSexagesimalTail true r'
        else Text.isDigit d && isSexagesimalTail true (e :: r')
      | [d] => Text.isDigit d
      | [] => false
    else if b = Text.byte '.' then
      seen && r.all fun c => Text.isDigit c || c = Text.byte '_'
    else false

/-- Whether a text is a number in base 60, as in `1:30`. -/
def isSexagesimal (t : Text) : Bool :=
  match (Numeral.takeSign t).2 with
  | d :: r =>
    Text.isDigit d &&
      isSexagesimalTail false (r.dropWhile fun c => Text.isDigit c || c = Text.byte '_')
  | [] => false

/-- Whether a plain scalar of this text would be read as a text. -/
def readsAsText (t : Text) : Bool :=
  (plainValue true t).tag = strTag && !isSexagesimal t && (oldBool? t).isNone

/-- Whether a character can be written as itself. -/
def isPrintable (c : Char) : Bool :=
  let n := c.toNat
  n == 0x0A || (0x20 ≤ n && n ≤ 0x7E) || (0xA0 ≤ n && n ≤ 0xD7FF) ||
    (0xE000 ≤ n && n ≤ 0xFFFD && n != 0xFEFF)

/-- What decides the style of a scalar. -/
structure Shape where
  /-- It starts like something else, or holds what ends a plain scalar. -/
  indicators : Bool
  /-- A blank or a line break stands at either end. -/
  looseEnds : Bool
  trailingSpace : Bool
  /-- A space stands before a line break. -/
  spaceBreak : Bool
  /-- A space stands behind a line break. -/
  breakSpace : Bool
  breaks : Bool
  tabs : Bool
  /-- It holds a character that must be escaped. -/
  special : Bool

/-- The marks that a plain scalar cannot start with. -/
def isLeadingIndicator (c : Char) : Bool := "#,[]\x7b\x7d&*!|>'\"%@`".toList.contains c

/-- Whether the first character makes a plain scalar impossible. -/
def startsBadly : List Char → Bool
  | [] => false
  | c :: r =>
    "---".toList.isPrefixOf (c :: r) || "...".toList.isPrefixOf (c :: r) || isLeadingIndicator c ||
      ((c == '?' || c == ':' || c == '-') && r.head?.all isBlank)

/-- Whether a colon before a blank or the end, or a number sign behind a blank, stands in a text. -/
def holdsIndicator : (afterBlank : Bool) → List Char → Bool
  | _, [] => false
  | afterBlank, c :: r =>
    (c == ':' && r.head?.all isBlank) || (c == '#' && afterBlank) ||
      holdsIndicator (isBlank c || isBreak c) r

/-- Whether two characters of two classes stand side by side. -/
def holdsPair (p q : Char → Bool) : List Char → Bool
  | a :: b :: r => (p a && q b) || holdsPair p q (b :: r)
  | _ => false

/-- The shape of a text. -/
def shapeOf (cs : List Char) : Shape :=
  let isSpace := fun c => c == ' '
  let loose := fun c => isSpace c || isBreak c
  { indicators := startsBadly cs || holdsIndicator false cs
    looseEnds := cs.head?.any loose || cs.getLast?.any loose
    trailingSpace := cs.getLast?.any isSpace
    spaceBreak := holdsPair isSpace isBreak cs
    breakSpace := holdsPair isBreak isSpace cs
    breaks := cs.any isBreak
    tabs := cs.contains '\t'
    special := cs.any fun c => c != '\t' && !isPrintable c }

namespace Shape

/-- Whether the text can be written plain. -/
def allowsPlain (s : Shape) : Bool :=
  !(s.indicators || s.looseEnds || s.breakSpace || s.spaceBreak || s.tabs || s.special || s.breaks)

/-- Whether the text can be written in single quotes. -/
def allowsSingle (s : Shape) : Bool := !(s.breakSpace || s.spaceBreak || s.tabs || s.special)

/-- Whether the text can be written as a literal block. -/
def allowsLiteral (s : Shape) : Bool := !(s.trailingSpace || s.spaceBreak || s.special)

end Shape

/-! ## Styles -/

/-- A number in upper-case hexadecimal with a width. -/
def hexUpper (width n : Nat) : Text :=
  (Text.ofNatHex width n).map fun b => if Text.byte 'a' ≤ b then b - 32 else b

/-- How a character is written after a backslash. -/
def escapeText (c : Char) : Text :=
  match c with
  | '\x00' => "0"
  | '\x07' => "a"
  | '\x08' => "b"
  | '\t' => "t"
  | '\n' => "n"
  | '\x0b' => "v"
  | '\x0c' => "f"
  | '\r' => "r"
  | '\x1b' => "e"
  | '"' => "\""
  | '\\' => "\\"
  | '\u0085' => "N"
  | '\u00a0' => "_"
  | '\u2028' => "L"
  | '\u2029' => "P"
  | _ =>
    let n := c.toNat
    if n ≤ 0xFF then "x" ++ hexUpper 2 n
    else if n ≤ 0xFFFF then "u" ++ hexUpper 4 n
    else "U" ++ hexUpper 8 n

/-- A text in double quotes. If it starts with a byte order mark, every character is escaped. -/
def doubleQuoted (cs : List Char) : Text :=
  let marked := cs.head? == some '\ufeff'
  let one := fun (c : Char) =>
    if marked || !isPrintable c || isBreak c || c == '"' || c == '\\' then "\\" ++ escapeText c
    else encodeChars [c]
  "\"" ++ cs.flatMap one ++ "\""

/-- The characters of a text in single quotes; behind a line break the indentation is repeated. -/
def singleBody (indent : Nat) : (afterBreak : Bool) → List Char → Text
  | _, [] => []
  | afterBreak, c :: r =>
    if isBreak c then encodeChars [c] ++ singleBody indent true r
    else if c == ' ' then " " ++ singleBody indent afterBreak r
    else
      (if afterBreak then List.replicate indent 32 else []) ++
        encodeChars (if c == '\'' then [c, c] else [c]) ++ singleBody indent false r

/-- A text in single quotes. -/
def singleQuoted (indent : Nat) (cs : List Char) : Text := "'" ++ singleBody indent false cs ++ "'"

/-- The lines of a literal block. `header` says that the indicators are not followed by a line break
yet, and `afterBreak` that a line starts. -/
def literalBody (indent : Nat) : (header afterBreak : Bool) → List Char → Text
  | _, afterBreak, [] => if afterBreak then [] else "\n"
  | header, afterBreak, c :: r =>
    if isBreak c then encodeChars [c] ++ literalBody indent false true r
    else
      (if header then ("\n" : Text) else []) ++ (if afterBreak then List.replicate indent 32 else []) ++
        encodeChars [c] ++ literalBody indent false false r

/-- The indicators of a literal block: the indentation if the text does not show it, and what
becomes of the line breaks at its end. -/
def literalHeader (cs : List Char) : Text :=
  let hint : Text := if cs.head?.any fun c => c == ' ' || isBreak c then "4" else ""
  let chomping : Text :=
    match cs.reverse with
    | [] => "-"
    | c :: r =>
      if !isBreak c then "-"
      else if r.head?.all isBreak then "+"
      else ""
  "|" ++ hint ++ chomping

/-- Base 64 in lines of seventy letters, if it does not fit into one. -/
def base64Lines (t : Text) : Text :=
  let letters := t.toBase64
  if letters.length < 70 then letters else go letters.length letters
where
  /-- The lines of what is left. -/
  go : (fuel : Nat) → Text → Text
    | 0, _ => []
    | fuel + 1, letters =>
      if letters.isEmpty then [] else letters.take 70 ++ "\n" ++ go fuel (letters.drop 70)

/-- Characters in the style that fits them, up to the end of the line. `asText` says that they read
as a text if they are written plain. -/
def writeChars (indent : Nat) (asText : Bool) (cs : List Char) : Text :=
  let shape := shapeOf cs
  if cs.contains '\n' then
    if shape.allowsLiteral then literalHeader cs ++ literalBody indent true true cs
    else doubleQuoted cs ++ "\n"
  else if !asText then doubleQuoted cs ++ "\n"
  else if shape.allowsPlain then encodeChars cs ++ "\n"
  else if shape.allowsSingle then singleQuoted indent cs ++ "\n"
  else doubleQuoted cs ++ "\n"

/-- The characters of a text, if it is UTF-8. -/
def charsOf? (t : Text) : Option (List Char) :=
  t.runes.mapM fun r => r.code?.map Char.ofNat

/-- A text as the value of a mapping, up to the end of the line. What continues on further lines is
indented. -/
def writeText (indent : Nat) (t : Text) : Text :=
  match charsOf? t with
  | some cs => writeChars indent (readsAsText t) cs
  | none =>
    "!!binary " ++
      writeChars indent true ((base64Lines t).map fun b => Char.ofNat b.toNat)

end TinyLang.Yaml
