import TinyLang.Yaml.Event
import TinyLang.Yaml.Value

/-!
# Nodes of a YAML document

A document is a graph of scalars, sequences and mappings. Its nodes are numbered in the order in which
they start, and a collection holds the numbers of its contents. An alias is a node of its own that
holds the number of the node that was given its name before; it may stand inside of that node.

Only the first document of a stream is read.
-/

namespace TinyLang.Yaml

/-- A node. Lines are counted from one. -/
inductive Node
  | scalar (tag : Text) (text : Text) (line : Nat)
  | sequence (tag : Text) (items : List Nat) (line : Nat)
  | mapping (tag : Text) (pairs : List (Nat × Nat)) (line : Nat)
  /-- A name for another node. -/
  | aliased (name : Text) (target : Nat) (line : Nat)
deriving DecidableEq, Repr, Inhabited

namespace Node

/-- The line of a node. -/
def line : Node → Nat
  | scalar _ _ line | sequence _ _ line | mapping _ _ line | aliased _ _ line => line

/-- The tag of a node; an alias has none of its own. -/
def tag : Node → Text
  | scalar tag _ _ | sequence tag _ _ | mapping tag _ _ => tag
  | aliased _ _ _ => []

/-- Whether a node, as a key, asks for a merge. -/
def isMerge : Node → Bool
  | scalar tag text _ => text = "<<" && tag = mergeTag
  | _ => false

/-- Two by two, the first of each pair being the key of the second. -/
def pairsOf : List Nat → List (Nat × Nat)
  | k :: v :: rest => (k, v) :: pairsOf rest
  | _ => []

/-- A collection with its contents, in order. -/
def withContents (contents : List Nat) : Node → Node
  | sequence tag _ line => sequence tag contents line
  | mapping tag _ line => mapping tag (pairsOf contents) line
  | other => other

end Node

/-- A document. -/
structure Document where
  nodes : Array Node
  root : Nat
deriving Repr

namespace Document

/-- The node of a number. -/
def node (d : Document) (id : Nat) : Node := d.nodes.getD id (.scalar nullTag [] 0)

/-- The node that a number leads to: that of its name, if it is an alias. -/
def target (d : Document) (id : Nat) : Node :=
  match d.node id with
  | .aliased _ target _ => d.node target
  | n => n

end Document

/-! ## Tags -/

/-- The short form of a tag. -/
def shortTag (t : Text) : Text :=
  if t.startsWith Read.standardTags then "!!" ++ t.drop Read.standardTags.length else t

/-- The tag of a node: the one asked for, or else its own. -/
def chooseTag (asked own : Text) : Text :=
  if asked.isEmpty || asked = "!" then own else shortTag asked

/-- The own tag of a scalar. -/
def ownTag (text : Text) (plain : Bool) : Text :=
  if !plain then strTag else if text = "<<" then mergeTag else (plainValue true text).tag

/-! ## Building -/

/-- A collection that is not complete: its number and its contents, the last one first. -/
structure OpenNode where
  id : Nat
  contents : List Nat
deriving Repr

/-- A document that is not complete. -/
structure Draft where
  nodes : Array Node := #[]
  /-- The nodes that have names, the newest first. -/
  anchors : List (Text × Nat) := []
  /-- The collections that are not complete, the innermost first. -/
  around : List OpenNode := []
deriving Repr

namespace Draft

/-- Puts a node into the collection around it. A node with none around it is the root. -/
def place (d : Draft) (id : Nat) : Draft × Option Nat :=
  match d.around with
  | [] => (d, some id)
  | c :: outer => ({ d with around := { c with contents := id :: c.contents } :: outer }, none)

/-- Adds a node that may have a name, and gives its number. -/
def add (d : Draft) (anchor : Option Text) (n : Node) : Draft × Nat :=
  let id := d.nodes.size
  let named := anchor.toList.map fun name => (name, id)
  ({ d with nodes := d.nodes.push n, anchors := named ++ d.anchors }, id)

/-- Adds a collection without its contents. -/
def openNode (d : Draft) (anchor : Option Text) (n : Node) : Draft :=
  let (d, id) := d.add anchor n
  { d with around := ⟨id, []⟩ :: d.around }

/-- Completes the innermost collection. -/
def closeNode (d : Draft) : Draft × Option Nat :=
  match d.around with
  | [] => (d, none)
  | c :: outer =>
    let nodes := d.nodes.modify c.id (Node.withContents c.contents.reverse)
    ({ d with nodes, around := outer }.place c.id)

/-- Takes an event in. The root's number is given once the root is complete. -/
def feed (d : Draft) (e : Event) : Except Error (Draft × Option Nat) :=
  let line := e.mark.line + 1
  match e.kind with
  | .aliasName name =>
    match d.anchors.find? fun a => a.1 = name with
    | some (_, target) =>
      let (d, id) := d.add none (.aliased name target line)
      .ok (d.place id)
    | none => .error (.value ("unknown anchor '" ++ name ++ "' referenced"))
  | .scalar text plain =>
    let (d, id) := d.add e.anchor (.scalar (chooseTag e.tag (ownTag text plain)) text line)
    .ok (d.place id)
  | .sequenceStart => .ok (d.openNode e.anchor (.sequence (chooseTag e.tag seqTag) [] line), none)
  | .mappingStart => .ok (d.openNode e.anchor (.mapping (chooseTag e.tag mapTag) [] line), none)
  | .sequenceEnd | .mappingEnd => .ok d.closeNode

end Draft

namespace Read

/-- Reads events until the root is complete. -/
def nodes : (fuel : Nat) → Draft → Read (Option Document)
  | 0, _ => return none
  | fuel + 1, d => do
    let e ← checked event
    match ← (d.feed e : Except Error _) with
    | (d, some root) => return some ⟨d.nodes, root⟩
    | (d, none) => nodes fuel d

/-- Reads the first document; there may be none. -/
def document : Read (Option Document) := do
  if ← checked documentStart then
    let d ← nodes (8 * (← get).tokens.input.size + 8) {}
    checked documentEnd
    return d
  else return none

end Read

/-- The first document of a stream. -/
def readDocument (t : Text) : Except Error Document := do
  match ← Read.document.run (.start t) with
  | (some d, _) => return d
  | (none, _) => throw .noDocument

end TinyLang.Yaml
