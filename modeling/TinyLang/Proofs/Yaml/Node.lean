import TinyLang.Yaml.Node
import TinyLang.Proofs.Yaml.Event

/-!
# The document of a block mapping

The nodes of a mapping whose values are scalars but for the last one, which is a mapping of scalars.
Nodes are numbered in the order in which they start, so the keys and values of a mapping have
consecutive numbers.

* `Reading.At.nodes_nested`: the nodes of such a document are read to its end.
* `Document.Nested`: what its nodes are.
-/

namespace TinyLang.Yaml

/-- A key with a scalar. -/
structure Entry where
  key : Text
  text : Text
  plain : Bool

namespace Entry

/-- The tokens of a key with a scalar. -/
def kinds (e : Entry) : List TokenKind := [.key, .scalar e.key true, .value, .scalar e.text e.plain]

end Entry

theorem modify_length {α : Type} (before : List α) (a : α) (behind : List α) (f : α → α) :
    (before ++ a :: behind).modify before.length f = before ++ f a :: behind := by
  induction before with
  | nil => rfl
  | cons b before ih => simp [ih]

/-- The nodes of entries. -/
inductive NodesOf : List Entry → List Node → Prop
  | nil : NodesOf [] []
  | cons {e : Entry} {es : List Entry} {ns : List Node} (line line' : Nat) (h : NodesOf es ns) :
    NodesOf (e :: es) (.scalar (ownTag e.key true) e.key line ::
      .scalar (ownTag e.text e.plain) e.text line' :: ns)

theorem NodesOf.length {es : List Entry} {ns : List Node} (h : NodesOf es ns) :
    ns.length = 2 * es.length := by
  induction h with
  | nil => rfl
  | cons line line' h ih =>
    simp only [List.length_cons, ih]
    omega

/-- The tokens of a mapping whose last value is a mapping. -/
def nestedKinds (outer : List Entry) (name : Text) (inner : List Entry) : List TokenKind :=
  .blockMappingStart :: (outer.flatMap Entry.kinds ++
    .key :: .scalar name true :: .value :: .blockMappingStart :: (inner.flatMap Entry.kinds ++
      [.blockEnd, .blockEnd]))

namespace Document

/-- The nodes of entries stand at consecutive places. -/
def Holds (d : Document) : Nat → List Entry → Prop
  | _, [] => True
  | base, e :: es =>
    (∃ line, d.node base = .scalar (ownTag e.key true) e.key line) ∧
      (∃ line, d.node (base + 1) = .scalar (ownTag e.text e.plain) e.text line) ∧
      Holds d (base + 2) es

/-- A document with these entries, and a last one that holds the inner entries. -/
structure Nested (d : Document) (outer : List Entry) (name : Text) (inner : List Entry) : Prop where
  root : d.root = 0
  mapping : ∃ line,
    d.node 0 = .mapping mapTag (Node.pairsOf (List.range' 1 (2 * outer.length + 2))) line
  outerAt : d.Holds 1 outer
  nameAt : ∃ line, d.node (2 * outer.length + 1) = .scalar (ownTag name true) name line
  valueAt : ∃ line, d.node (2 * outer.length + 2) =
    .mapping mapTag (Node.pairsOf (List.range' (2 * outer.length + 3) (2 * inner.length))) line
  innerAt : d.Holds (2 * outer.length + 3) inner

theorem node_append (before : List Node) (n : Node) (behind : List Node) (root : Nat) :
    (⟨(before ++ n :: behind).toArray, root⟩ : Document).node before.length = n := by
  simp [node]

theorem holds_of_nodesOf {es : List Entry} {ns : List Node} (h : NodesOf es ns)
    (before behind : List Node) (root : Nat) : (⟨(before ++ (ns ++ behind)).toArray, root⟩ :
    Document).Holds before.length es := by
  induction h generalizing before with
  | nil => trivial
  | @cons e es ns line line' h ih =>
    have hkey := node_append before (.scalar (ownTag e.key true) e.key line)
      (.scalar (ownTag e.text e.plain) e.text line' :: (ns ++ behind)) root
    have htext := node_append (before ++ [.scalar (ownTag e.key true) e.key line])
      (.scalar (ownTag e.text e.plain) e.text line') (ns ++ behind) root
    have hrest := ih (before ++ [.scalar (ownTag e.key true) e.key line,
      .scalar (ownTag e.text e.plain) e.text line'])
    exact ⟨⟨line, hkey⟩, ⟨line', by simpa using htext⟩, by simpa using hrest⟩

theorem nested_of_nodesOf {outer inner : List Entry} {os is : List Node} (hos : NodesOf outer os)
    (his : NodesOf inner is) (name : Text) (line line' line'' : Nat) :
    (⟨(Node.mapping mapTag (Node.pairsOf (List.range' 1 (2 * outer.length + 2))) line ::
      (os ++ .scalar (ownTag name true) name line' ::
        .mapping mapTag (Node.pairsOf (List.range' (2 * outer.length + 3) (2 * inner.length)))
          line'' ::
          is)).toArray, 0⟩ : Document).Nested outer name inner := by
  have hname := node_append
      (Node.mapping mapTag (Node.pairsOf (List.range' 1 (2 * outer.length + 2))) line :: os)
    (.scalar (ownTag name true) name line')
  have hvalue := node_append
      (Node.mapping mapTag (Node.pairsOf (List.range' 1 (2 * outer.length + 2))) line ::
    (os ++ [.scalar (ownTag name true) name line']))
    (.mapping mapTag (Node.pairsOf (List.range' (2 * outer.length + 3) (2 * inner.length)))
      line'') is 0
  have hinner := holds_of_nodesOf his
    (Node.mapping mapTag (Node.pairsOf (List.range' 1 (2 * outer.length + 2))) line ::
      (os ++ [.scalar (ownTag name true) name line',
        .mapping mapTag (Node.pairsOf (List.range' (2 * outer.length + 3) (2 * inner.length)))
          line''])) [] 0
  simp only [List.length_cons, List.length_append, hos.length] at hname hvalue hinner
  refine ⟨rfl, ⟨line, rfl⟩, holds_of_nodesOf hos [_] _ 0, ⟨line', hname _ 0⟩, ⟨line'', ?_⟩, ?_⟩
  · simpa using hvalue
  · simpa using hinner

end Document

/-! ## Drafts -/

namespace Draft

variable {ns : List Node} {c : OpenNode} {outer : List OpenNode}

theorem feed_scalar (text : Text) (plain : Bool) (m : Mark) :
    feed ⟨ns.toArray, [], c :: outer⟩ (.bare (.scalar text plain) m) =
      .ok (⟨(ns ++ [Node.scalar (ownTag text plain) text (m.line + 1)]).toArray, [],
        ⟨c.id, ns.length :: c.contents⟩ :: outer⟩, none) := by
  simp [feed, Event.bare, add, place, chooseTag]

theorem feed_start (m : Mark) :
    feed ⟨ns.toArray, [], outer⟩ (.bare .mappingStart m) =
      .ok (⟨(ns ++ [Node.mapping mapTag [] (m.line + 1)]).toArray, [], ⟨ns.length, []⟩ :: outer⟩,
        none) := by
  simp [feed, Event.bare, add, openNode, chooseTag]

theorem feed_end (m : Mark) {inner : OpenNode} :
    feed ⟨ns.toArray, [], inner :: c :: outer⟩ (.bare .mappingEnd m) =
      .ok (⟨(ns.modify inner.id (Node.withContents inner.contents.reverse)).toArray, [],
        ⟨c.id, inner.id :: c.contents⟩ :: outer⟩, none) := by
  simp [feed, Event.bare, closeNode, place]

theorem feed_root (m : Mark) :
    feed ⟨ns.toArray, [], [c]⟩ (.bare .mappingEnd m) =
      .ok (⟨(ns.modify c.id (Node.withContents c.contents.reverse)).toArray, [], []⟩, some c.id) := by
  simp [feed, Event.bare, closeNode, place]

end Draft

namespace Reading.At

variable {r : Reading} {size : Nat} {s : Stage} {ss : List Stage} {ks : List TokenKind}

/-- One event of a document that goes on. -/
theorem nodes_step {r' : Reading} {e : Event} {d d' : Draft} (hevent : Read.event.run r = .ok (e, r'))
    (h : r'.At size s ss ks) (hfeed : d.feed e = .ok (d', none)) (fuel : Nat) :
    (Read.nodes (fuel + 1) d).run r = (Read.nodes fuel d').run r' := by
  rw [Read.nodes, run_bind_ok (checked_run hevent h), hfeed]
  rfl

/-- The event that completes a document. -/
theorem nodes_last {r' : Reading} {e : Event} {d d' : Draft} {root : Nat}
    (hevent : Read.event.run r = .ok (e, r')) (h : r'.At size s ss ks)
    (hfeed : d.feed e = .ok (d', some root)) (fuel : Nat) :
    (Read.nodes (fuel + 1) d).run r = .ok (some ⟨d'.nodes, root⟩, r') := by
  rw [Read.nodes, run_bind_ok (checked_run hevent h), hfeed]
  rfl

/-- The nodes of entries are put into the mapping around them. -/
theorem nodes_entries (es : List Entry) (h : r.At size .blockKey ss (es.flatMap Entry.kinds ++ ks))
    (ns : List Node) (c : OpenNode) (outer : List OpenNode) :
    ∃ r' new, r'.At size .blockKey ss ks ∧ NodesOf es new ∧ ∀ fuel,
      (Read.nodes (2 * es.length + fuel) ⟨ns.toArray, [], c :: outer⟩).run r =
        (Read.nodes fuel ⟨(ns ++ new).toArray, [],
          ⟨c.id, (List.range' ns.length (2 * es.length)).reverse ++ c.contents⟩ :: outer⟩).run
            r' := by
  induction es generalizing r ns c with
  | nil => exact ⟨r, [], h, .nil, fun fuel => by simp⟩
  | cons e es ih =>
    obtain ⟨m₁, r₁, hkey, h₁⟩ := h.event_key
    obtain ⟨m₂, r₂, hvalue, h₂⟩ := h₁.event_scalar
    obtain ⟨r₃, new, h₃, hnew, hrest⟩ := ih h₂
      (ns ++ [Node.scalar (ownTag e.key true) e.key (m₁.line + 1)] ++
        [Node.scalar (ownTag e.text e.plain) e.text (m₂.line + 1)])
      ⟨c.id, (ns.length + 1) :: ns.length :: c.contents⟩
    refine ⟨r₃, _, h₃, .cons (m₁.line + 1) (m₂.line + 1) hnew, fun fuel => ?_⟩
    rw [show 2 * (e :: es).length + fuel = 2 * es.length + fuel + 1 + 1 by simp; omega,
      nodes_step hkey h₁ (Draft.feed_scalar e.key true m₁) (2 * es.length + fuel + 1),
      nodes_step hvalue h₂ (Draft.feed_scalar e.text e.plain m₂) (2 * es.length + fuel)]
    have hrange : List.range' ns.length (2 * (e :: es).length) =
        ns.length :: (ns.length + 1) :: List.range' (ns.length + 2) (2 * es.length) := by
      rw [show 2 * (e :: es).length = 2 * es.length + 1 + 1 by simp; omega]
      rfl
    rw [hrange]
    simpa [List.append_assoc] using hrest fuel

/-- **A mapping of scalars with a mapping of scalars behind its last key is read to its end.** -/
theorem nodes_nested {outer inner : List Entry} {name : Text}
    (h : r.At size (.documentNode false) (s :: ss) (nestedKinds outer name inner ++ ks)) {fuel : Nat}
    (hfuel : 2 * outer.length + 2 * inner.length + 5 ≤ fuel) :
    ∃ d r', (Read.nodes fuel {}).run r = .ok (some d, r') ∧ d.Nested outer name inner ∧
      r'.At size s ss ks := by
  obtain ⟨spare, rfl⟩ := Nat.exists_eq_add_of_le' hfuel
  obtain ⟨m₀, r₀, hstart, h₀⟩ := h.event_document
  have h₀ : r₀.At size .blockKey (s :: ss) (outer.flatMap Entry.kinds ++
      .key :: .scalar name true :: .value :: .blockMappingStart :: (inner.flatMap Entry.kinds ++
        .blockEnd :: .blockEnd :: ks)) := by
    simpa using h₀
  obtain ⟨r₁, os, h₁, hos, houter⟩ :=
    nodes_entries outer h₀ [Node.mapping mapTag [] (m₀.line + 1)] ⟨0, []⟩ []
  obtain ⟨m₂, r₂, hkey, h₂⟩ := h₁.event_key
  obtain ⟨m₃, r₃, hvalue, h₃⟩ := h₂.event_mapping
  obtain ⟨r₄, is, h₄, his, hinner⟩ := nodes_entries inner h₃
    (([Node.mapping mapTag [] (m₀.line + 1)] ++ os ++
      [Node.scalar (ownTag name true) name (m₂.line + 1)]) ++
      [Node.mapping mapTag [] (m₃.line + 1)]) ⟨2 * outer.length + 2, []⟩
    [⟨0, (2 * outer.length + 1) :: ((List.range' 1 (2 * outer.length)).reverse ++ [])⟩]
  obtain ⟨m₅, r₅, hend, h₅⟩ := h₄.event_end
  obtain ⟨m₆, r₆, hroot, h₆⟩ := h₅.event_end
  refine ⟨_, r₆, ?_, Document.nested_of_nodesOf hos his name (m₀.line + 1) (m₂.line + 1)
    (m₃.line + 1), h₆⟩
  rw [show spare + (2 * outer.length + 2 * inner.length + 5) =
      2 * outer.length + (2 * inner.length + (spare + 1 + 1) + 1 + 1) + 1 by omega,
    nodes_step hstart h₀ (Draft.feed_start m₀)]
  refine (houter _).trans ?_
  rw [nodes_step hkey h₂ (Draft.feed_scalar name true m₂), nodes_step hvalue h₃ (Draft.feed_start m₃)]
  have hlength : ([Node.mapping mapTag [] (m₀.line + 1)] ++ os).length = 2 * outer.length + 1 := by
    simp [hos.length]
  rw [List.length_append, hlength]
  refine (hinner _).trans ?_
  rw [nodes_step hend h₅ (Draft.feed_end m₅), nodes_last hroot h₆ (Draft.feed_root m₆)]
  have hplace : 2 * outer.length + 1 =
      (os ++ [Node.scalar (ownTag name true) name (m₂.line + 1)]).length := by
    simp [hos.length]
  have hinside := modify_length (os ++ [Node.scalar (ownTag name true) name (m₂.line + 1)])
    (Node.mapping mapTag [] (m₃.line + 1)) is
    (Node.withContents (List.range' (2 * outer.length + 3) (2 * inner.length)))
  rw [← hplace] at hinside
  have hranges : List.range' 1 (2 * outer.length) ++ [2 * outer.length + 1, 2 * outer.length + 2] =
      List.range' 1 (2 * outer.length + 2) := by
    rw [show 2 * outer.length + 2 = 2 * outer.length + 1 + 1 from rfl, List.range'_concat,
      List.range'_concat]
    simp [Nat.add_comm]
  simp only [List.append_assoc, List.singleton_append] at hinside
  simp [hos.length, hinside, Node.withContents, hranges]

end Reading.At

end TinyLang.Yaml
