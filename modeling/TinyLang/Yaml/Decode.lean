import TinyLang.Yaml.Node
import TinyLang.Yaml.Data
import TinyLang.Text.Base64

/-!
# Decoding nodes

The nodes of a document are decoded into values of types that are asked for. Values that do not have
the type, and keys that are repeated, are collected as problems and reported together; a few faults
end decoding at once. Aliases are followed, but never into themselves, and not if nearly all of a long
decoding would come from them.

A mapping is taken in pair by pair. A key `<<` merges other mappings in: what the mapping itself
gives, or an earlier merge, stays.
-/

namespace TinyLang.Yaml

/-- What is known in the course of decoding. -/
structure Progress where
  /-- The problems so far, newest first. -/
  problems : List Text := []
  /-- How many nodes were decoded. -/
  decoded : Nat := 0
  /-- How many of them were decoded inside of an alias. -/
  repeated : Nat := 0
  /-- The aliases that are being followed, the innermost first. -/
  following : List Nat := []
  /-- The keys that a merge may not give again, if one is going on. -/
  taken : Option (List Data) := none

/-- Decoding the nodes of a document. -/
abbrev Decode := ReaderT Document (StateT Progress (Except Error))

namespace Progress

/-- Whether too much of the decoding comes from aliases: more than 99 of 100 nodes in up to 400000,
and gradually less in more of them, down to ten of 100 in four million. -/
def isExcessive (p : Progress) : Bool :=
  let d := p.decoded
  let scaled (share : Nat) : Bool := d * share < p.repeated * 360000000
  100 < p.repeated && 1000 < d &&
    if d ≤ 400000 then scaled 356400000
    else if 4000000 ≤ d then scaled 36000000
    else scaled (356400000 - 89 * (d - 400000))

/-- The progress with one more node. -/
def count (p : Progress) : Progress :=
  { p with
    decoded := p.decoded + 1
    repeated := if p.following.isEmpty then p.repeated else p.repeated + 1 }

end Progress

namespace Decode

/-- Ends decoding. -/
def fail {α : Type} (problem : Text) : Decode α := throw (.value problem)

/-- Adds a problem. -/
def problem (t : Text) : Decode Unit := modify fun p => { p with problems := t :: p.problems }

/-- Says which keys are taken. -/
def setTaken (taken : Option (List Data)) : Decode Unit := modify fun p => { p with taken }

/-- Counts a node. -/
def count : Decode Unit := do
  modify Progress.count
  if (← get).isExcessive then fail "document contains excessive aliasing"

/-- Decodes the node of a number. An alias is followed. -/
def through {α : Type} (id : Nat) (decode : Node → Decode α) : Decode α := do
  count
  match (← read).node id with
  | .aliased name target _ =>
    if (← get).following.contains id then fail ("anchor '" ++ name ++ "' value contains itself")
    else
      modify fun p => { p with following := id :: p.following }
      count
      let a ← decode ((← read).node target)
      modify fun p => { p with following := p.following.drop 1 }
      return a
  | node => decode node

/-- Adds the problem of a value that does not have the type asked for. Long texts are cut. -/
def typeProblem (line : Nat) (tag text : Text) (wanted : Text) : Decode Unit :=
  let shown : Text :=
    if tag = seqTag || tag = mapTag then text
    else if 10 < text.length then " \x60" ++ text.take 7 ++ "...\x60"
    else " \x60" ++ text ++ "\x60"
  problem ("line " ++ Text.ofNat line ++ ": cannot unmarshal " ++ tag ++ shown ++ " into " ++ wanted)

/-- The meaning of a scalar; binary data is decoded. -/
def scalarValue (tag text : Text) : Decode Value :=
  if tag = binaryTag then
    match text.ofBase64? with
    | some data => return .text data
    | none => fail "!!binary value contains invalid base64 data"
  else
    match valueOf tag text with
    | .ok v => return v
    | .error problem => fail problem

/-! ## Keys -/

/-- What tells keys apart as they are written: the kind of node and its text. -/
def keyIdentity : Node → Nat × Text
  | .scalar _ text _ => (0, text)
  | .sequence _ _ _ => (1, [])
  | .mapping _ _ _ => (2, [])
  | .aliased name _ _ => (3, name)

/-- The problems of keys that stand again later. -/
def repeatedKeys : List Node → List Text
  | [] => []
  | k :: rest =>
    (rest.filter fun l => keyIdentity l == keyIdentity k).map (fun l =>
      "line " ++ Text.ofNat l.line ++ ": mapping key " ++ (keyIdentity l).2.quoted ++
        " already defined at line " ++ Text.ofNat k.line) ++ repeatedKeys rest

/-- Reports repeated keys; true if there are none. -/
def keysApart (pairs : List (Nat × Nat)) : Decode Bool := do
  let d ← read
  let problems := repeatedKeys (pairs.map fun (k, _) => d.node k)
  problems.forM problem
  return problems.isEmpty

/-- Adds a key to those that are taken, unless it is one of them. Collections cannot be told apart. -/
def note (key : Data) (taken : List Data) : Except Error (Option (List Data)) :=
  match key.collectionType? with
  | some type => .error (.unhashable type)
  | none => .ok (if taken.any key.sameKey then none else some (key :: taken))

/-! ## Values of simple types -/

/-- The value of a simple type, if the node of a number has one. `take` gives it for the text of a
scalar and its meaning. -/
def simple {α : Type} (wanted : Text) (take : Text → Value → Option α) (id : Nat) :
    Decode (Option α) :=
  through id fun
    | .scalar tag text line => do
      match ← scalarValue tag text with
      | .null => return none
      | v =>
        match take text v with
        | some a => return some a
        | none => typeProblem line tag text wanted; return none
    | .sequence tag _ line => do typeProblem line tag [] wanted; return none
    | .mapping tag pairs line => do
      if ← keysApart pairs then typeProblem line tag [] wanted
      return none
    | .aliased _ _ _ => return none

/-- A text: that of any scalar, as it is written. -/
def text : Nat → Decode (Option Text) :=
  simple "string" fun written v =>
    match v with
    | .text t => some t
    | _ => some written

/-- A truth value, by the words of either version of the language. -/
def bool : Nat → Decode (Option Bool) :=
  simple "bool" fun _ v =>
    match v with
    | .bool b => some b
    | .text t => oldBool? t
    | _ => none

/-- The integer part of a number as 64 bits; what lies outside becomes the least integer. -/
def truncate (v : Number) : Int :=
  let n : Int := v.numerator / v.denominator
  let n := if v.isNegative then -n else n
  if !v.isInfinite && -0x8000000000000000 ≤ n && n < 0x8000000000000000 then n
  else -0x8000000000000000

/-- An integer of 64 bits. Of a number the integer part is taken. -/
def int : Nat → Decode (Option Int) :=
  simple "int" fun _ v =>
    match v with
    | .int n => if n < 0x8000000000000000 then some n else none
    | .float x => if x.atMost ⟨0x43E0000000000000⟩ then some (truncate x) else none
    | _ => none

/-! ## Mappings -/

/-- What the pairs of a mapping are taken into. -/
structure Sink (σ : Type) where
  /-- Prepares for the pairs of one more mapping. -/
  start : σ → σ
  /-- Decodes a key. -/
  key : Nat → Decode (Option Data)
  /-- Takes a pair in. -/
  put : σ → Data → (key value : Nat) → Decode σ

/-- The fault of a merge with something that is no mapping. -/
def mergeFault : Text := "map merge requires map or sequence of maps as the value"

/-- Takes in a pair that asks for no merge, unless its key is taken. -/
def takePair {σ : Type} (sink : Sink σ) (s : σ × Option (List Data)) (pair : Nat × Nat) :
    Decode (σ × Option (List Data)) := do
  let (held, taken) := s
  if ((← read).node pair.1).isMerge then return s
  match ← sink.key pair.1 with
  | none => return s
  | some key =>
    match taken with
    | none => return (← sink.put held key pair.1 pair.2, none)
    | some keys =>
      match ← (note key keys : Except Error _) with
      | none => return s
      | some keys => return (← sink.put held key pair.1 pair.2, some keys)

/-- Makes the keys of a mapping the taken ones. -/
def takeKeys (free : Nat → Decode (Option Data)) (pairs : List (Nat × Nat)) : Decode Unit := do
  setTaken (some [])
  pairs.forM fun (k, _) => do
    match ← free k with
    | none => pure ()
    | some key =>
      let keys := (← get).taken.getD []
      setTaken (some ((← (note key keys : Except Error _)).getD keys))

/-- What a mapping merges in: the last of its merges counts. -/
def mergeSources? (pairs : List (Nat × Nat)) : Decode (Option (List Nat)) := do
  let d ← read
  return (pairs.reverse.find? fun (k, _) => (d.node k).isMerge).map fun (_, v) =>
    match d.node v with
    | .sequence _ items _ => items
    | _ => [v]

/-- Takes a mapping in, and then what it merges in. There is no result if its keys are repeated.
`free` decodes keys of any type. -/
def mapping {σ : Type} (free : Nat → Decode (Option Data)) (sink : Sink σ) :
    (fuel : Nat) → List (Nat × Nat) → σ → Decode (Option σ)
  | 0, _, s => return some s
  | fuel + 1, pairs, s => do
    if !(← keysApart pairs) then return none
    let taken := (← get).taken
    setTaken none
    let (s, taken) ← pairs.foldlM (takePair sink) (sink.start s, taken)
    setTaken taken
    match ← mergeSources? pairs with
    | none => return some s
    | some sources =>
      if taken.isNone then takeKeys free pairs
      let s ← sources.foldlM (fun s id => do
        match (← read).target id with
        | .mapping _ pairs _ =>
          through id fun _ => return (← mapping free sink fuel pairs s).getD s
        | _ => fail mergeFault) s
      if taken.isNone then setTaken none
      return some s

/-! ## Data -/

/-- Whether all keys of a mapping are texts or ask for merges. -/
def hasTextKeys (pairs : List (Nat × Nat)) : Decode Bool := do
  let d ← read
  return pairs.all fun (k, _) =>
    let tag := (d.target k).tag
    tag = strTag || tag = mergeTag

/-- Takes the pairs of mappings into the entries of a table, the newest first. -/
def tableSink (textual : Bool) (free : Nat → Decode (Option Data)) : Sink (List (Data × Data)) where
  start := id
  key := fun k => if textual then return (← text k).map Data.ofText else free k
  put := fun entries key _ value => do
    if key.collectionType?.isSome then fail ("invalid map key: " ++ key.literal)
    else
      let others := entries.filter fun e => !key.sameKey e.1
      match ← free value with
      | some d => return (key, d) :: others
      | none =>
        if others.length = entries.length && ((← read).target value).tag = nullTag then
          return (key, .value .null) :: entries
        else return entries

/-- The data of a node, if it has any. -/
def data : (fuel : Nat) → Nat → Decode (Option Data)
  | 0, _ => return none
  | fuel + 1, id =>
    through id fun
      | .scalar tag text _ => return some (.value (← scalarValue tag text))
      | .sequence _ items _ => return some (.list (← items.filterMapM (data fuel)))
      | .mapping _ pairs _ => do
        let textual ← hasTextKeys pairs
        let sink := tableSink textual (data fuel)
        let entries ← mapping (data fuel) sink fuel pairs []
        return entries.map fun es => .table textual es.reverse
      | .aliased _ _ _ => return none

/-! ## Records -/

/-- How a record is decoded: its fields, and how one of them is set from the node of a number. -/
structure Schema (σ : Type) where
  typeName : Text
  fields : List Text
  set : σ → (name : Text) → Nat → Decode σ

/-- Takes the pairs of mappings into a record. The second part holds the fields that the current
mapping has set. -/
def recordSink {σ : Type} (schema : Schema σ) : Sink (σ × List Text) where
  start := fun (r, _) => (r, [])
  key := fun k => return (← text k).map Data.ofText
  put := fun (r, done) key k value => do
    match key with
    | .value (.text name) =>
      let line := Text.ofNat ((← read).node k).line
      if !schema.fields.contains name then
        problem ("line " ++ line ++ ": field " ++ name ++ " not found in type " ++ schema.typeName)
        return (r, done)
      else if done.contains name then
        problem ("line " ++ line ++ ": field " ++ name ++ " already set in type " ++ schema.typeName)
        return (r, done)
      else return (← schema.set r name value, name :: done)
    | _ => return (r, done)

/-- Sets the fields of a record from the node of a number. -/
def record {σ : Type} (schema : Schema σ) (fuel : Nat) (r : σ) (id : Nat) : Decode σ :=
  through id fun
    | .scalar tag text line => do
      match ← scalarValue tag text with
      | .null => return r
      | _ => typeProblem line tag text schema.typeName; return r
    | .sequence tag _ line => do typeProblem line tag [] schema.typeName; return r
    | .mapping _ pairs _ => do
      match ← mapping (data fuel) (recordSink schema) fuel pairs (r, []) with
      | some (r, _) => return r
      | none => return r
    | .aliased _ _ _ => return r

end Decode

/-- A record from a document. The schema may be given more steps than it needs to follow any path. -/
def Document.record {σ : Type} (d : Document) (schema : (fuel : Nat) → Decode.Schema σ) (r : σ) :
    Except Error σ := do
  let fuel := (d.nodes.size + 2) * (d.nodes.size + 2)
  let decode : Decode σ := do
    Decode.count
    Decode.record (schema fuel) fuel r d.root
  let (r, p) ← (decode.run d).run {}
  if p.problems.isEmpty then return r else throw (.types p.problems.reverse)

end TinyLang.Yaml
