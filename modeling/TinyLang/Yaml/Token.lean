import Std.Data.HashMap
import TinyLang.Yaml.Tag

/-!
# Tokens of a YAML stream

A stream is cut into tokens from left to right. Indentation becomes tokens of its own: a deeper
column opens a block sequence or mapping, a shallower one closes it. A key without a mark is only
known as one when the colon behind it is met, so the place where it may have started is remembered
(`KeySlot`) and its mark is put in there later; it must be on the same line and not too far back.

Tokens are cut when they are asked for. `Fetch.peek` looks two tokens further than the one it gives,
and further still while that one is held back for a key that is possible (`Tokenizer.held`). A pair of
brackets with no possible key between them is not held back.
-/

namespace TinyLang.Yaml

/-- What a token is. -/
inductive TokenKind
  | streamStart
  | streamEnd
  | directive (d : Directive)
  | documentStart
  | documentEnd
  | blockSequenceStart
  | blockMappingStart
  | blockEnd
  | flowSequenceStart
  | flowSequenceEnd
  | flowMappingStart
  | flowMappingEnd
  | blockEntry
  | flowEntry
  | key
  | value
  | aliasName (name : Text)
  | anchor (name : Text)
  | tag (name : TagName)
  | scalar (text : Text) (plain : Bool)
deriving DecidableEq, Repr, Inhabited

/-- A token and where it starts. -/
structure Token where
  kind : TokenKind
  mark : Mark
deriving DecidableEq, Repr, Inhabited

/-- Whether a key without a mark may have started at a place. -/
inductive KeyState
  | impossible
  | possible
  /-- A key must stand there, because the column is that of the mapping's other keys. -/
  | required
deriving DecidableEq, Repr

/-- What is known of keys at one depth of brackets. -/
structure KeySlot where
  /-- The number of tokens before the last possible key, or before the bracket. -/
  position : Nat
  /-- The place of the last possible key, or of the bracket. -/
  mark : Mark
  state : KeyState
deriving DecidableEq, Repr

/-- The state of cutting a stream into tokens. -/
structure Tokenizer where
  input : Input
  started : Bool
  /-- The tokens that have been cut and not been taken. -/
  queue : List Token
  /-- The number of tokens that have been taken. -/
  taken : Nat
  /-- Whether the first token can be taken as it is. -/
  settled : Bool
  /-- The column of the innermost block collection, negative outside of all. -/
  indent : Int
  /-- The columns of the collections around it. -/
  indents : List Int
  /-- What is known of keys, outside of brackets and then at each depth of them. -/
  slots : Array KeySlot
  /-- The positions of the tokens that are held back, each with the depth whose slot must be settled
  before. -/
  held : Std.HashMap Nat Nat
  /-- Whether a key without a mark may start here. -/
  keyAllowed : Bool
deriving Repr

namespace Tokenizer

/-- The start of a stream. -/
def start (t : Text) : Tokenizer where
  input := .start t
  started := false
  queue := []
  taken := 0
  settled := false
  indent := -1
  indents := []
  slots := #[⟨0, .start, .impossible⟩]
  held := ∅
  keyAllowed := true

/-- The place of the next character. -/
def mark (t : Tokenizer) : Mark := t.input.mark

/-- Whether the place is inside brackets. -/
def inFlow (t : Tokenizer) : Bool := 1 < t.slots.size

/-- The number of tokens that have been cut. -/
def count (t : Tokenizer) : Nat := t.taken + t.queue.length

/-- Adds a token. -/
def push (t : Tokenizer) (kind : TokenKind) (mark : Mark) : Tokenizer :=
  { t with queue := t.queue ++ [⟨kind, mark⟩] }

/-- Adds a token in front of the one with a number of others before it, or at the end if that one has
been taken. -/
def pushAt (t : Tokenizer) (position : Nat) (kind : TokenKind) (mark : Mark) : Tokenizer :=
  if position < t.taken then t.push kind mark
  else
    let (before, after) := t.queue.splitAt (position - t.taken)
    { t with queue := before ++ ⟨kind, mark⟩ :: after }

/-! ## Possible keys -/

/-- The depth of brackets. -/
def depth (t : Tokenizer) : Nat := t.slots.size - 1

/-- What is known of keys at a depth. -/
def slotAt (t : Tokenizer) (depth : Nat) : KeySlot := t.slots.getD depth ⟨0, .start, .impossible⟩

/-- What is known of keys in the innermost brackets. -/
def slot (t : Tokenizer) : KeySlot := t.slotAt t.depth

/-- Changes the state of the key at a depth. -/
def setState (t : Tokenizer) (depth : Nat) (state : KeyState) : Tokenizer :=
  { t with slots := t.slots.modify depth fun s => { s with state } }

/-- No longer holds back the token at a position. -/
def release (t : Tokenizer) (position : Nat) : Tokenizer :=
  { t with held := t.held.erase position }

/-- How many characters may lie between the start of a key and the colon behind it. -/
def keyReach : Nat := 1024

/-- Whether a key that starts at a place may still be completed here. -/
def reaches (t : Tokenizer) (m : Mark) : Bool :=
  t.mark.line ≤ m.line && t.mark.index ≤ m.index + keyReach

end Tokenizer

/-- Cutting tokens. -/
abbrev Fetch := StateT Tokenizer (Except Error)

namespace Fetch

/-- Reads from the stream. -/
def scan {α : Type} (x : Scan α) : Fetch α := do
  let t ← get
  let (a, input) ← x.run t.input
  set { t with input }
  return a

/-- A problem at the current place. -/
def fail {α : Type} (context : Mark) (problem : Text) : Fetch α := do
  throw (.token ⟨context, (← get).mark, problem⟩)

/-- Adds a token that starts at a place. -/
def push (kind : TokenKind) (mark : Mark) : Fetch Unit := modify fun t => t.push kind mark

/-- Adds a token of some characters. -/
def pushWord (kind : TokenKind) (width : Nat) : Fetch Unit :=
  modify fun t => { t.push kind t.mark with input := t.input.advance width }

/-- Says whether a key without a mark may start behind the token. -/
def allowKey (b : Bool) : Fetch Unit := modify fun t => { t with keyAllowed := b }

/-! ## Possible keys -/

/-- The problem of a key that must stand at a place and does not. -/
def missingColon {α : Type} (m : Mark) : Fetch α := fail m "could not find expected ':'"

/-- Gives up the possible key. A required one must not be given up. -/
def dropKey : Fetch Unit := do
  let t ← get
  match t.slot.state with
  | .impossible => return
  | .possible => set ((t.setState t.depth .impossible).release t.slot.position)
  | .required => missingColon t.slot.mark

/-- Remembers that a key may start here. -/
def saveKey : Fetch Unit := do
  let t ← get
  if t.keyAllowed then
    dropKey
    let state := if !t.inFlow && t.indent == t.mark.column then .required else .possible
    modify fun t =>
      { t with
        slots := t.slots.modify t.depth fun _ => ⟨t.count, t.mark, state⟩
        held := t.held.insert t.count t.depth }

/-- Whether the key of a depth can still be completed here. A required one must be; another is not
possible any more, but what was held back for it stays so. -/
def isLive (depth : Nat) : Fetch Bool := do
  let t ← get
  let s := t.slotAt depth
  match s.state with
  | .impossible => return false
  | state =>
    if t.reaches s.mark then return true
    else if state = .required then missingColon s.mark
    else
      set (t.setState depth .impossible)
      return false

/-! ## Depth -/

/-- How deep collections may be nested. -/
def depthLimit : Nat := 10000

/-- Collections are nested too deep. -/
def tooDeep {α : Type} (context : Mark) : Fetch α :=
  fail context ("exceeded max depth of " ++ Text.ofNat depthLimit)

/-- Opens a block collection at a column deeper than the current one. Its token goes to a position, or
to the end. -/
def roll (column : Nat) (position : Option Nat) (kind : TokenKind) (mark : Mark) : Fetch Unit := do
  let t ← get
  if !t.inFlow && t.indent < column then
    let indents := t.indent :: t.indents
    if depthLimit < indents.length then tooDeep t.slot.mark
    let t := { t with indent := column, indents }
    set (match position with
      | some p => t.pushAt p kind mark
      | none => t.push kind mark)

/-- Closes the block collections that are deeper than a column. -/
def unrollFrom (column : Int) (mark : Mark) : List Int → Tokenizer → Tokenizer
  | [], t => t
  | outer :: rest, t =>
    if column < t.indent then
      unrollFrom column mark rest { t.push .blockEnd mark with indent := outer, indents := rest }
    else t

/-- Closes the block collections that are deeper than a column, outside of brackets. -/
def unroll (column : Int) (mark : Mark) : Fetch Unit :=
  modify fun t => if t.inFlow then t else unrollFrom column mark t.indents t

/-! ## Single tokens -/

/-- The end of the stream, which counts as the start of a line. -/
def streamEnd : Fetch Unit := do
  modify fun t => { t with input := { t.input with mark := t.mark.nextLine } }
  let mark := (← get).mark
  unroll (-1) mark
  dropKey
  allowKey false
  push .streamEnd mark

/-- A line of three dashes or dots. -/
def documentMark (kind : TokenKind) : Fetch Unit := do
  unroll (-1) (← get).mark
  dropKey
  allowKey false
  pushWord kind 3

/-- A directive. -/
def directive : Fetch Unit := do
  let mark := (← get).mark
  unroll (-1) mark
  dropKey
  allowKey false
  push (.directive (← scan Scan.directive)) mark

/-- An opening bracket. -/
def openBracket (kind : TokenKind) : Fetch Unit := do
  saveKey
  let t ← get
  if depthLimit < t.slots.size then tooDeep t.mark
  set { t with slots := t.slots.push ⟨t.count, t.mark, .impossible⟩, keyAllowed := true }
  pushWord kind 1

/-- Leaves the innermost brackets. If no key was possible in them, the token that opened them is no
longer held back. -/
def leaveBracket : Fetch Unit :=
  modify fun t =>
    if t.inFlow then { t.release t.slot.position with slots := t.slots.pop } else t

/-- A closing bracket. -/
def closeBracket (kind : TokenKind) : Fetch Unit := do
  dropKey
  leaveBracket
  allowKey false
  pushWord kind 1

/-- A comma between brackets. -/
def flowEntry : Fetch Unit := do
  dropKey
  allowKey true
  pushWord .flowEntry 1

/-- A dash before an item. -/
def blockEntry : Fetch Unit := do
  let t ← get
  if !t.inFlow && !t.keyAllowed then
    fail t.mark "block sequence entries are not allowed in this context"
  roll t.mark.column none .blockSequenceStart t.mark
  dropKey
  allowKey true
  pushWord .blockEntry 1

/-- A question mark before a key. -/
def key : Fetch Unit := do
  let t ← get
  if !t.inFlow && !t.keyAllowed then fail t.mark "mapping keys are not allowed in this context"
  roll t.mark.column none .blockMappingStart t.mark
  dropKey
  allowKey !t.inFlow
  pushWord .key 1

/-- A colon before a value. It settles the possible key. -/
def value : Fetch Unit := do
  let t ← get
  let s := t.slot
  if ← isLive t.depth then
    modify fun t => t.pushAt s.position .key s.mark
    roll s.mark.column (some s.position) .blockMappingStart s.mark
    modify fun t => (t.setState t.depth .impossible).release s.position
    allowKey false
  else
    if !t.inFlow && !t.keyAllowed then fail t.mark "mapping values are not allowed in this context"
    roll t.mark.column none .blockMappingStart t.mark
    allowKey !t.inFlow
  pushWord .value 1

/-- A token that may be a key, made of what is read from the stream. -/
def keyToken {α : Type} (x : Scan α) (kind : α → TokenKind) : Fetch α := do
  saveKey
  allowKey false
  let mark := (← get).mark
  let a ← scan x
  push (kind a) mark
  return a

/-- The token of a scalar. -/
def scalarKind (plain : Bool) (s : Scanned) : TokenKind := .scalar (encodeChars s.chars) plain

/-- A block scalar. -/
def blockScalar (literal : Bool) : Fetch Unit := do
  dropKey
  allowKey true
  let t ← get
  push (scalarKind false (← scan (Scan.blockScalar literal t.indent))) t.mark

/-- A quoted scalar. -/
def quotedScalar (single : Bool) : Fetch Unit := do
  let _ ← keyToken (Scan.quotedScalar single) (scalarKind false)

/-- A plain scalar. A line break behind it allows a key. -/
def plainScalar : Fetch Unit := do
  let t ← get
  let s ← keyToken (Scan.plainScalar t.inFlow (t.indent + 1).toNat) (scalarKind true)
  if s.broken then allowKey true

/-! ## The next token -/

/-- The marks that no plain scalar starts with. -/
def isIndicator (c : Char) : Bool := "-?:,[]\x7b\x7d#&*!|>'\"%@`".toList.contains c

/-- The token that starts with a character, which is not one of a document or a directive. -/
def tokenFrom (c next : Char) : Fetch Unit := do
  let flow := (← get).inFlow
  let ends := isBlankOrEnd next
  if c == '[' then openBracket .flowSequenceStart
  else if c == '\x7b' then openBracket .flowMappingStart
  else if c == ']' then closeBracket .flowSequenceEnd
  else if c == '\x7d' then closeBracket .flowMappingEnd
  else if c == ',' then flowEntry
  else if c == '-' && ends then blockEntry
  else if c == '?' && (flow || ends) then key
  else if c == ':' && (flow || ends) then value
  else if c == '*' then let _ ← keyToken Scan.nodeName .aliasName
  else if c == '&' then let _ ← keyToken Scan.nodeName .anchor
  else if c == '!' then let _ ← keyToken Scan.tagName .tag
  else if c == '|' && !flow then blockScalar true
  else if c == '>' && !flow then blockScalar false
  else if c == '\'' then quotedScalar true
  else if c == '"' then quotedScalar false
  else if !(isBlankOrEnd c || isIndicator c) || c == '-' || (!flow && (c == '?' || c == ':')) then
    plainScalar
  else fail (← get).mark "found character that cannot start any token"

/-- Adds the token that starts here. A comment behind it on its line is passed, unless the token is a
dash. -/
def here : Fetch Unit := do
  scan (Scan.need 4)
  let i := (← get).input
  if i.head == endChar then streamEnd
  else if i.mark.column == 0 && i.head == '%' then directive
  else if i.atDocumentMark then
    documentMark (if i.head == '-' then .documentStart else .documentEnd)
  else
    tokenFrom i.head (i.get 1)
    if ((← get).queue.getLast?.map Token.kind) != some .blockEntry then scan Scan.skipLineComment

/-- Adds the next token, with those that its column implies. -/
def next : Fetch Unit := do
  scan (Scan.need 1)
  let t ← get
  if !t.started then
    set { t with started := true }
    push .streamStart t.mark
  else
    let keyAllowed ← scan do Scan.toNextToken t.inFlow (← Scan.fuel) t.keyAllowed
    allowKey keyAllowed
    unroll (← get).mark.column t.mark
    here

/-- Whether the first token is held back for a key, or too few others follow it. -/
def isUnsettled : Fetch Bool := do
  let t ← get
  match t.queue with
  | _ :: _ :: _ :: _ =>
    match t.held[t.taken]? with
    | some depth => isLive depth
    | none => return false
  | _ => return true

/-- Adds tokens until the first one can be taken. -/
def settle : (fuel : Nat) → Fetch Unit
  | 0 => return
  | fuel + 1 => do
    if ← isUnsettled then
      next
      settle fuel

/-- The next token. -/
def peek : Fetch Token := do
  let t ← get
  if !t.settled then
    settle (t.input.size + 8)
    modify fun t => { t with settled := true }
  return (← get).queue.headD ⟨.streamEnd, .start⟩

/-- Takes the next token, which must have been looked at. -/
def skip : Fetch Unit :=
  modify fun t => { t with queue := t.queue.drop 1, taken := t.taken + 1, settled := false }

end Fetch

end TinyLang.Yaml
