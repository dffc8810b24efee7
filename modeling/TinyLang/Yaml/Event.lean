import TinyLang.Yaml.Token

/-!
# Events of a YAML document

The structure of a document as a sequence of events: a scalar or an alias is one event, and a
collection is the events of its contents between two of its own. In a mapping keys and values take
turns; what is missing is an empty scalar.

What is read next is a *stage*. Collections around the current one leave on a stack the stage that
follows them and the place where they start.
-/

namespace TinyLang.Yaml

/-- What an event tells. -/
inductive EventKind
  | aliasName (name : Text)
  | scalar (text : Text) (plain : Bool)
  | sequenceStart
  | sequenceEnd
  | mappingStart
  | mappingEnd
deriving DecidableEq, Repr

/-- An event, with the name and the tag that its node is given. The tag is empty if there is none. -/
structure Event where
  kind : EventKind
  anchor : Option Text
  tag : Text
  mark : Mark
deriving DecidableEq, Repr

namespace Event

/-- An event of a node without name and tag. -/
def bare (kind : EventKind) (mark : Mark) : Event := ⟨kind, none, [], mark⟩

/-- A scalar that is not there. -/
def nothing (mark : Mark) : Event := bare (.scalar [] true) mark

end Event

/-- What is read next. -/
inductive Stage
  /-- The node of a document, which may be missing if the document starts with a mark. -/
  | documentNode (marked : Bool)
  | documentEnd
  | blockItem
  /-- An item of a sequence at the column of the mapping around it. -/
  | indentlessItem
  | blockKey
  | blockValue
  | flowItem (first : Bool)
  /-- The parts of a pair that stands in a sequence. -/
  | pairKey
  | pairValue
  | pairEnd
  | flowKey (first : Bool)
  | flowValue
  /-- The value of a key that has no colon. -/
  | missingValue
deriving DecidableEq, Repr

/-- The state of reading a document. -/
structure Reading where
  tokens : Tokenizer
  stage : Stage
  stages : List Stage
  /-- Where the collections start that are not indentless. -/
  starts : List Mark
  /-- What the handles of tags stand for. -/
  handles : List (Text × Text)
deriving Repr

/-- Reading events. -/
abbrev Read := StateT Reading (Except Error)

namespace Read

/-- Cuts tokens. -/
def fetch {α : Type} (x : Fetch α) : Read α := do
  let r ← get
  let (a, tokens) ← x.run r.tokens
  set { r with tokens }
  return a

/-- The next token. -/
def peek : Read Token := fetch Fetch.peek

/-- Takes the next token. -/
def skip : Read Unit := fetch Fetch.skip

/-- Takes the next token and gives the one behind it. -/
def advance : Read Token := do
  skip
  peek

/-- A problem with the structure. -/
def fail {α : Type} (context place : Mark) (problem : Text) : Read α :=
  throw (.structural ⟨context, place, problem⟩)

/-! ## Stages -/

/-- Goes to a stage. -/
def goTo (s : Stage) : Read Unit := modify fun r => { r with stage := s }

/-- Leaves a stage for what follows the next node. -/
def later (s : Stage) : Read Unit := modify fun r => { r with stages := s :: r.stages }

/-- Goes to the stage that was left last. -/
def goBack : Read Unit :=
  modify fun r => { r with stage := r.stages.headD .documentEnd, stages := r.stages.drop 1 }

/-- Enters a collection whose first token is next. -/
def enter (s : Stage) : Read Unit := do
  let t ← peek
  skip
  modify fun r => { r with stage := s, starts := t.mark :: r.starts }

/-- Leaves a collection whose last token is next. -/
def leave (kind : EventKind) : Read Event := do
  let t ← peek
  goBack
  skip
  modify fun r => { r with starts := r.starts.drop 1 }
  return .bare kind t.mark

/-- A problem in the innermost collection. -/
def failInside {α : Type} (place : Mark) (problem : Text) : Read α := do
  fail ((← get).starts.headD .start) place problem

/-! ## Properties of nodes -/

/-- The anchor that stands here. -/
def takeAnchor : Read (Option Text) := do
  match (← peek).kind with
  | .anchor name => skip; return some name
  | _ => return none

/-- The tag that stands here, with its place. -/
def takeTag : Read (Option (TagName × Mark)) := do
  let t ← peek
  match t.kind with
  | .tag name => skip; return some (name, t.mark)
  | _ => return none

/-- An anchor and a tag, in either order. -/
def takeProperties : Read (Option Text × Option (TagName × Mark)) := do
  match ← takeAnchor with
  | some name => return (some name, ← takeTag)
  | none =>
    match ← takeTag with
    | some tag => return (← takeAnchor, some tag)
    | none => return (none, none)

/-- The address of a tag in properties that start at a place; empty if there is none. -/
def addressOf (start : Mark) : Option (TagName × Mark) → Read Text
  | none => return []
  | some (name, mark) => do
    if name.handle.isEmpty then return name.suffix
    let meaning := (← get).handles.find? fun (h, _) => h = name.handle
    let address := (meaning.map fun (_, replacement) => replacement ++ name.suffix).getD []
    if address.isEmpty then fail start mark "found undefined tag handle"
    return address

/-! ## Nodes -/

/-- Where a node stands: in a block, in a block as the key or value of a mapping, where a sequence may
be at the mapping's own column, or inside brackets. -/
inductive Place
  | block
  | blockInMapping
  | flow
deriving DecidableEq

/-- Reads a node, or the start of one. What follows it has been left as a stage. -/
def node (place : Place) : Read Event := do
  let first ← peek
  match first.kind with
  | .aliasName name =>
    goBack
    skip
    return .bare (.aliasName name) first.mark
  | _ =>
    let (anchor, tag) ← takeProperties
    let tag ← addressOf first.mark tag
    let t ← peek
    let event := fun kind => (⟨kind, anchor, tag, first.mark⟩ : Event)
    match t.kind, place with
    | .blockEntry, .blockInMapping => goTo .indentlessItem; return event .sequenceStart
    | .scalar text plain, _ => goBack; skip; return event (.scalar text plain)
    | .flowSequenceStart, _ => enter (.flowItem true); return event .sequenceStart
    | .flowMappingStart, _ => enter (.flowKey true); return event .mappingStart
    | kind, place =>
      if place != .flow && kind == .blockSequenceStart then
        enter .blockItem
        return event .sequenceStart
      else if place != .flow && kind == .blockMappingStart then
        enter .blockKey
        return event .mappingStart
      else if anchor.isSome || !tag.isEmpty then
        goBack
        return event (.scalar [] true)
      else fail first.mark t.mark "did not find expected node content"

/-- Reads the next node and leaves a stage for what follows it, or goes there at once if the token that
is next is one of those before which a node is missing. -/
def nodeUnless (kinds : List TokenKind) (place : Place) (after : Stage) (missing : Mark) :
    Read Event := do
  if kinds.contains (← peek).kind then
    goTo after
    return .nothing missing
  else
    later after
    node place

/-! ## Blocks -/

/-- Reads an item of a block sequence, or its end. -/
def blockItem : Read Event := do
  let t ← peek
  match t.kind with
  | .blockEntry =>
    skip
    nodeUnless [.blockEntry, .blockEnd] .block .blockItem t.mark
  | .blockEnd => leave .sequenceEnd
  | _ => failInside t.mark "did not find expected '-' indicator"

/-- Reads an item of a sequence at the column of the mapping around it, or its end. -/
def indentlessItem : Read Event := do
  let t ← peek
  match t.kind with
  | .blockEntry =>
    skip
    nodeUnless [.blockEntry, .key, .value, .blockEnd] .block .indentlessItem t.mark
  | _ => goBack; return .bare .sequenceEnd t.mark

/-- Reads a key of a block mapping, or the end of the mapping. -/
def blockKey : Read Event := do
  let t ← peek
  match t.kind with
  | .key =>
    skip
    nodeUnless [.key, .value, .blockEnd] .blockInMapping .blockValue t.mark
  | .blockEnd => leave .mappingEnd
  | _ => failInside t.mark "did not find expected key"

/-- Reads a value of a block mapping. -/
def blockValue : Read Event := do
  let t ← peek
  match t.kind with
  | .value =>
    skip
    nodeUnless [.key, .value, .blockEnd] .blockInMapping .blockKey t.mark
  | _ => goTo .blockKey; return .nothing t.mark

/-! ## Brackets -/

/-- The next token behind the comma that must stand here unless nothing stands before it. -/
def pastComma (first : Bool) (problem : Text) : Read Token := do
  let t ← peek
  if first then return t
  else if t.kind == .flowEntry then advance
  else failInside t.mark problem

/-- Reads an item of a sequence in brackets, or its end. A pair among the items is a mapping of one
pair. -/
def flowItem (first : Bool) : Read Event := do
  if (← peek).kind == .flowSequenceEnd then leave .sequenceEnd
  else
    let t ← pastComma first "did not find expected ',' or ']'"
    match t.kind with
    | .flowSequenceEnd => leave .sequenceEnd
    | .key =>
      goTo .pairKey
      skip
      return .bare .mappingStart t.mark
    | _ =>
      later (.flowItem false)
      node .flow

/-- Reads the key of a pair in a sequence. A token that shows that it is missing is passed. -/
def pairKey : Read Event := do
  let t ← peek
  if [TokenKind.value, .flowEntry, .flowSequenceEnd].contains t.kind then
    skip
    goTo .pairValue
    return .nothing t.mark
  else
    later .pairValue
    node .flow

/-- Reads the value behind a colon, if there is one. -/
def valueBehindColon (kinds : List TokenKind) (after : Stage) : Read Event := do
  let t ← peek
  if t.kind == .value then
    let _ ← advance
    nodeUnless kinds .flow after t.mark
  else
    goTo after
    return .nothing t.mark

/-- Reads a key of a mapping in braces, or the end of the mapping. -/
def flowKey (first : Bool) : Read Event := do
  if (← peek).kind == .flowMappingEnd then leave .mappingEnd
  else
    let t ← pastComma first "did not find expected ',' or '\x7d'"
    match t.kind with
    | .flowMappingEnd => leave .mappingEnd
    | .key =>
      let k ← advance
      nodeUnless [.value, .flowEntry, .flowMappingEnd] .flow .flowValue k.mark
    | _ =>
      later .missingValue
      node .flow

/-! ## Documents -/

/-- Whether a token ends a document, or starts another one. -/
def bounds : TokenKind → Bool
  | .directive _ | .documentStart | .documentEnd | .streamEnd => true
  | _ => false

/-- Reads the node of a document. -/
def documentNode (marked : Bool) : Read Event := do
  let t ← peek
  if marked && bounds t.kind then
    goBack
    return .nothing t.mark
  else node .block

/-- Reads the next event. -/
def event : Read Event := do
  match (← get).stage with
  | .documentNode marked => documentNode marked
  | .documentEnd => return .nothing (← peek).mark
  | .blockItem => blockItem
  | .indentlessItem => indentlessItem
  | .blockKey => blockKey
  | .blockValue => blockValue
  | .flowItem first => flowItem first
  | .pairKey => pairKey
  | .pairValue => valueBehindColon [.flowEntry, .flowSequenceEnd] .pairEnd
  | .pairEnd =>
    let t ← peek
    goTo (.flowItem false)
    return .bare .mappingEnd t.mark
  | .flowKey first => flowKey first
  | .flowValue => valueBehindColon [.flowEntry, .flowMappingEnd] (.flowKey false)
  | .missingValue =>
    let t ← peek
    goTo (.flowKey false)
    return .nothing t.mark

/-- Does a step of reading, and then fails if a fault in the encoding is overdue. -/
def checked {α : Type} (x : Read α) : Read α := do
  let a ← x
  match (← get).tokens.input.overdue with
  | some fault => throw (.undecodable fault)
  | none => return a

/-- The start of the full form of the standard's own tags. -/
def standardTags : Text := "tag:yaml.org,2002:"

/-- The handles that every document knows, unless it gives them another meaning. -/
def standardHandles : List (Text × Text) := [("!", "!"), ("!!", standardTags)]

/-- Reads the directives of a document. -/
def directives (versionSeen : Bool) : (fuel : Nat) → Read Unit
  | 0 => return
  | fuel + 1 => do
    let t ← peek
    match t.kind with
    | .directive (.version major minor) =>
      if versionSeen then fail .start t.mark "found duplicate %YAML directive"
      if major ≠ 1 || minor ≠ 1 then fail .start t.mark "found incompatible YAML document"
      skip
      directives true fuel
    | .directive (.handle handle replacement) =>
      if (← get).handles.any fun (h, _) => h = handle then
        fail .start t.mark "found duplicate %TAG directive"
      modify fun r => { r with handles := r.handles ++ [(handle, replacement)] }
      skip
      directives versionSeen fuel
    | _ => return

/-- Reads the start of the first document. There is none if the stream ends there. -/
def documentStart : Read Bool := do
  let _ ← peek
  let t ← advance
  let knowHandles : Read Unit := modify fun r => { r with handles := r.handles ++ standardHandles }
  match t.kind with
  | .streamEnd => return false
  | .directive _ | .documentStart =>
    directives false ((← get).tokens.input.size + 2)
    knowHandles
    let t ← peek
    if t.kind != .documentStart then fail .start t.mark "did not find expected <document start>"
    goTo (.documentNode true)
    skip
    return true
  | _ => knowHandles; return true

/-- Reads the end of a document. -/
def documentEnd : Read Unit := do
  if (← peek).kind == .documentEnd then skip

end Read

/-- The start of a stream. -/
def Reading.start (t : Text) : Reading := ⟨.start t, .documentNode false, [.documentEnd], [], []⟩

end TinyLang.Yaml
