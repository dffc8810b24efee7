import TinyLang.Yaml.Input

/-!
# Scalars in a YAML stream

How the text of a scalar is taken from a stream, for each of its styles: plain, in single or double
quotes, and as an indented block, kept or folded. Line breaks inside plain and quoted scalars are
folded: a single one is a space, and of several all but the first are kept.

While a scalar is taken its characters are held last one first, those of gaps and line breaks included.
-/

namespace TinyLang.Yaml

/-- A scalar's characters, and whether a line break was passed since the last of them. -/
structure Scanned where
  chars : List Char
  broken : Bool
deriving DecidableEq, Repr

/-! ## Gaps -/

/-- Blanks and line breaks between the words of a scalar. -/
structure Gap where
  /-- Blanks before any line break. -/
  blanks : List Char
  broken : Bool
  firstBreak : List Char
  moreBreaks : List Char
deriving DecidableEq, Repr

namespace Gap

/-- No blanks and no breaks. -/
def empty : Gap := ⟨[], false, [], []⟩

/-- A line break that was escaped: it counts as none. -/
def escaped : Gap := ⟨[], true, [], []⟩

/-- Adds a line break. Blanks before it are dropped. -/
def addBreak (g : Gap) (c : List Char) : Gap :=
  if g.broken then { g with moreBreaks := c ++ g.moreBreaks } else ⟨[], true, c, []⟩

/-- Adds a blank. Blanks after a line break are dropped. -/
def addBlank (g : Gap) (c : Char) : Gap :=
  if g.broken then g else { g with blanks := c :: g.blanks }

/-- What a gap contributes to the scalar. -/
def text (g : Gap) : List Char :=
  if g.broken then
    if g.firstBreak == ['\n'] then
      if g.moreBreaks.isEmpty then [' '] else g.moreBreaks
    else g.moreBreaks ++ g.firstBreak
  else g.blanks

end Gap

namespace Scan

/-- Takes the rest of a gap. After a line break no tab may stand left of the column `limit`. -/
def takeGap (limit : Nat) (start : Mark) : (fuel : Nat) → Gap → Scan Gap
  | 0, g => return g
  | fuel + 1, g => do
    need 1
    let c ← head
    if isBlank c then
      if g.broken && c == '\t' && (← mark).column < limit then
        fail start "found a tab character that violates indentation"
      skip
      takeGap limit start fuel (g.addBlank c)
    else if isBreak c then
      takeGap limit start fuel (g.addBreak (← takeBreak))
    else return g

/-! ## Plain scalars -/

/-- Whether a character ends a plain scalar: a colon at the end of a word and, inside brackets, any
mark of theirs. -/
def endsPlain (flow : Bool) (c next : Char) : Bool :=
  (c == ':' && isBlankOrEnd next) || (flow && ",?[]\x7b\x7d".toList.contains c)

/-- Takes the characters of a plain scalar up to a blank, a line break or its end. -/
def takePlainRun (flow : Bool) : (fuel : Nat) → (run : List Char) → Scan (List Char)
  | 0, run => return run
  | fuel + 1, run => do
    let c ← head
    if isBlankOrEnd c || endsPlain flow c (← look 1) then return run
    else
      skip
      need 2
      takePlainRun flow fuel (c :: run)

/-- Takes the rest of a plain scalar, of which `chars` and then `gap` are taken already. Lines that
continue it must reach the column `indent` outside of brackets. -/
def plainFrom (flow : Bool) (indent : Nat) (start : Mark) :
    (fuel : Nat) → (chars : List Char) → (gap : Gap) → Scan Scanned
  | 0, chars, gap => return ⟨chars.reverse, gap.broken⟩
  | fuel + 1, chars, gap => do
    need 4
    let i ← get
    if i.atDocumentMark || i.head == '#' then return ⟨chars.reverse, gap.broken⟩
    let run ← takePlainRun flow (← Scan.fuel) []
    let (chars, gap) :=
      if run.isEmpty then (chars, gap) else (run ++ (gap.text ++ chars), Gap.empty)
    let c ← head
    if !(isBlank c || isBreak c) then return ⟨chars.reverse, gap.broken⟩
    let gap ← takeGap indent start (← Scan.fuel) gap
    if !flow && (← mark).column < indent then return ⟨chars.reverse, gap.broken⟩
    plainFrom flow indent start fuel chars gap

/-- Takes a plain scalar. -/
def plainScalar (flow : Bool) (indent : Nat) : Scan Scanned := do
  plainFrom flow indent (← mark) (← fuel) [] .empty

/-! ## Quoted scalars -/

/-- The character that a letter stands for after a backslash. -/
def escapeChar? : Char → Option Char
  | '0' => some '\x00'
  | 'a' => some '\x07'
  | 'b' => some '\x08'
  | 't' => some '\t'
  | '\t' => some '\t'
  | 'n' => some '\n'
  | 'v' => some '\x0b'
  | 'f' => some '\x0c'
  | 'r' => some '\r'
  | 'e' => some '\x1b'
  | ' ' => some ' '
  | '"' => some '"'
  | '\'' => some '\''
  | '\\' => some '\\'
  | 'N' => some '\u0085'
  | '_' => some '\u00a0'
  | 'L' => some '\u2028'
  | 'P' => some '\u2029'
  | _ => none

/-- The number of hexadecimal digits after a backslash and a letter. -/
def escapeDigits? : Char → Option Nat
  | 'x' => some 2
  | 'u' => some 4
  | 'U' => some 8
  | _ => none

/-- The value of a hexadecimal digit. -/
def hexValue? (c : Char) : Option Nat :=
  if '0' ≤ c && c ≤ '9' then some (c.toNat - 48)
  else if 'a' ≤ c && c ≤ 'f' then some (c.toNat - 87)
  else if 'A' ≤ c && c ≤ 'F' then some (c.toNat - 55)
  else none

/-- The number that characters write as hexadecimal digits. -/
def hexNumber? (cs : List Char) : Option Nat :=
  cs.foldl (fun n? c => do return (← n?) * 16 + (← hexValue? c)) (some 0)

/-- Takes a character that a backslash and `letter` stand for, with the digits behind them. -/
def takeEscape (start : Mark) (letter : Char) : Scan Char := do
  match escapeChar? letter, escapeDigits? letter with
  | some c, _ =>
    modify fun i => i.advance 2
    return c
  | none, some count =>
    modify fun i => i.advance 2
    need count
    let digits := ((← get).ahead.take count)
    match (if digits.length = count then hexNumber? digits else none) with
    | none => fail start "did not find expected hexdecimal number"
    | some n =>
      if (0xD800 ≤ n && n ≤ 0xDFFF) || 0x10FFFF < n then
        fail start "found invalid Unicode character escape code"
      modify fun i => i.advance count
      return Char.ofNat n
  | none, none => fail start "found unknown escape character"

/-- The character that a quoted scalar stands between. -/
def quoteOf (single : Bool) : Char := if single then '\'' else '"'

/-- Takes the characters of a quoted scalar up to a blank, a line break or the closing quote, and tells
whether the last of them is an escaped line break. -/
def takeQuotedRun (single : Bool) (start : Mark) :
    (fuel : Nat) → (chars : List Char) → Scan (List Char × Bool)
  | 0, chars => return (chars, false)
  | fuel + 1, chars => do
    let c ← head
    let next ← look 1
    if isBlankOrEnd c then return (chars, false)
    else if single && c == '\'' && next == '\'' then
      modify fun i => i.advance 2
      need 2
      takeQuotedRun single start fuel ('\'' :: chars)
    else if c == quoteOf single then return (chars, false)
    else if !single && c == '\\' then
      if isBreak next then
        need 3
        skip
        let _ ← takeBreak
        return (chars, true)
      else
        let escaped ← takeEscape start next
        need 2
        takeQuotedRun single start fuel (escaped :: chars)
    else
      skip
      need 2
      takeQuotedRun single start fuel (c :: chars)

/-- Takes the rest of a quoted scalar behind `chars`, the closing quote included. -/
def quotedFrom (single : Bool) (start : Mark) :
    (fuel : Nat) → (chars : List Char) → Scan (List Char)
  | 0, chars => return chars.reverse
  | fuel + 1, chars => do
    need 4
    let i ← get
    if i.atDocumentMark then fail start "found unexpected document indicator"
    if i.head == endChar then fail start "found unexpected end of stream"
    let (chars, escapedBreak) ← takeQuotedRun single start (← Scan.fuel) chars
    need 1
    if (← head) == quoteOf single then
      skip
      return chars.reverse
    let opened := if escapedBreak then Gap.escaped else Gap.empty
    let gap ← takeGap 0 start (← Scan.fuel) opened
    quotedFrom single start fuel (gap.text ++ chars)

/-- Takes a quoted scalar. -/
def quotedScalar (single : Bool) : Scan Scanned := do
  let start ← mark
  skip
  return ⟨← quotedFrom single start (← fuel) [], false⟩

/-! ## Block scalars -/

/-- What becomes of the line breaks at the end of a block scalar. -/
inductive Chomping
  | strip
  | clip
  | keep
deriving DecidableEq, Repr

/-- The chomping indicator, if one stands here. -/
def takeChomping : Scan (Option Chomping) := do
  need 1
  match ← head with
  | '+' => skip; return some .keep
  | '-' => skip; return some .strip
  | _ => return none

/-- The indentation indicator, if one stands here. -/
def takeIndentHint (start : Mark) : Scan (Option Nat) := do
  need 1
  let d ← head
  if d == '0' then fail start "found an indentation indicator equal to 0"
  if d.isDigit then
    skip
    return some (d.toNat - 48)
  else return none

/-- The indicators of a block scalar, in either order. -/
def takeIndicators (start : Mark) : Scan (Chomping × Option Nat) := do
  match ← takeChomping with
  | some chomping => return (chomping, ← takeIndentHint start)
  | none =>
    match ← takeIndentHint start with
    | some hint => return ((← takeChomping).getD .clip, some hint)
    | none => return (.clip, none)

/-- Takes indentation and empty lines, up to the column `limit` if it is known. Gives the largest
column reached and the line breaks. -/
def takeEmptyLines (limit : Option Nat) (start : Mark) :
    (fuel : Nat) → (reached : Nat) → (breaks : List Char) → Scan (Nat × List Char)
  | 0, reached, breaks => return (reached, breaks)
  | fuel + 1, reached, breaks => do
    need 1
    let c ← head
    let column := (← mark).column
    let indenting := limit.all (column < ·)
    if indenting && c == ' ' then
      skip
      takeEmptyLines limit start fuel reached breaks
    else if indenting && c == '\t' then
      fail start "found a tab character where an indentation space is expected"
    else if isBreak c then
      takeEmptyLines limit start fuel (max reached column) ((← takeBreak) ++ breaks)
    else return (max reached column, breaks)

/-- The parts of a block scalar taken so far. -/
structure BlockText where
  chars : List Char
  /-- The line break behind the last line. -/
  lineBreak : List Char
  /-- The empty lines behind it. -/
  emptyLines : List Char
  /-- Whether the last line starts with a blank. -/
  indented : Bool

/-- Takes the lines of a block scalar that start at the column `indent`. -/
def blockLines (literal : Bool) (indent : Nat) (start : Mark) :
    (fuel : Nat) → BlockText → Scan BlockText
  | 0, b => return b
  | fuel + 1, b => do
    let i ← get
    if i.mark.column == indent && i.head != endChar then
      let blank := isBlank i.head
      let joined :=
        if !literal && !b.indented && !blank && b.lineBreak == ['\n'] then
          if b.emptyLines.isEmpty then [' '] else []
        else b.lineBreak
      let line ← takeWhile fun ch => !isBreakOrEnd ch
      let lineBreak ← takeBreak
      let (_, emptyLines) ← takeEmptyLines (some indent) start (← Scan.fuel) 0 []
      let chars := line.reverse ++ (b.emptyLines ++ (joined ++ b.chars))
      blockLines literal indent start fuel ⟨chars, lineBreak, emptyLines, blank⟩
    else return b

/-- Takes a block scalar inside of something indented by `parent`, which is negative at the top. -/
def blockScalar (literal : Bool) (parent : Int) : Scan Scanned := do
  let start ← mark
  skip
  let (chomping, hint) ← takeIndicators start
  skipBlanks
  if (← head) == '#' then
    skipLineComment
    skipLine
  if !isBreakOrEnd (← head) then fail start "did not find expected comment or line break"
  if isBreak (← head) then
    let _ ← takeBreak
  let known : Option Nat := hint.map fun n => (max parent 0 + n).toNat
  let (reached, emptyLines) ← takeEmptyLines known start (← fuel) 0 []
  let indent := known.getD (max (max reached (parent + 1).toNat) 1)
  let b ← blockLines literal indent start (← fuel) ⟨[], [], emptyLines, false⟩
  let tail := match chomping with
    | .strip => []
    | .clip => b.lineBreak
    | .keep => b.emptyLines ++ b.lineBreak
  return ⟨(tail ++ b.chars).reverse, true⟩

end Scan

end TinyLang.Yaml
