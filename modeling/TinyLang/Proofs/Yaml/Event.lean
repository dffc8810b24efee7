import TinyLang.Yaml.Event
import TinyLang.Proofs.Yaml.Token

/-!
# Events of a block mapping

What a reader makes of the tokens of a block mapping: an event for its start, one for each key and
each scalar behind a key, and one for its end. A mapping behind a key leaves on the stack what follows
it.

* `Reading.At.event_key`, `Reading.At.event_scalar`, `Reading.At.event_mapping`,
  `Reading.At.event_end`: the next event, by the tokens to come.
-/

namespace TinyLang.Yaml

namespace Reading

/-- A reader at a stage, with the stages that it comes back to and the tokens that are still to
come. -/
structure At (r : Reading) (size : Nat) (stage : Stage) (stages : List Stage)
    (kinds : List TokenKind) :
    Prop where
  tokens : r.tokens.Delivers size kinds
  stage : r.stage = stage
  stages : r.stages = stages

namespace At

variable {r : Reading} {size : Nat} {s s' : Stage} {ss : List Stage} {kind : TokenKind}
  {ks : List TokenKind}

theorem fetch_run {α : Type} {x : Fetch α} {a : α} {t : Tokenizer} (h : x.run r.tokens = .ok (a, t)) :
    (Read.fetch x).run r = .ok (a, { r with tokens := t }) := by
  rw [Read.fetch, run_get_bind, StateT.run_bind]
  change (do let p ← x.run r.tokens; pure (p, r)) >>= _ = _
  rw [h]
  rfl

theorem peek (h : r.At size s ss (kind :: ks)) :
    ∃ tok r', Read.peek.run r = .ok (tok, r') ∧ tok.kind = kind ∧ r'.At size s ss (kind :: ks) ∧
      r'.tokens.settled = true := by
  obtain ⟨tok, t, hpeek, hkind, ht, hsettled⟩ := h.tokens.peek
  exact ⟨tok, { r with tokens := t }, fetch_run hpeek, hkind, ⟨ht, h.stage, h.stages⟩, hsettled⟩

theorem skip (h : r.At size s ss (kind :: ks)) (hsettled : r.tokens.settled = true) :
    ∃ r', Read.skip.run r = .ok ((), r') ∧ r'.At size s ss ks := by
  obtain ⟨t, hskip, ht⟩ := h.tokens.skip hsettled
  exact ⟨{ r with tokens := t }, fetch_run hskip, ht, h.stage, h.stages⟩

theorem overdue (h : r.At size s ss ks) : r.tokens.input.overdue = none := h.tokens.pending.input_eq.2

/-- A step of reading that leaves no fault behind. -/
theorem checked_run {α : Type} {x : Read α} {a : α} {r' : Reading} (hx : x.run r = .ok (a, r'))
    (h : r'.At size s ss ks) : (Read.checked x).run r = .ok (a, r') := by
  rw [Read.checked, run_bind_ok hx, run_get_bind, h.overdue]
  rfl

/-! ## Nodes -/

/-- A node of these tokens has neither a name nor a tag. -/
theorem takeProperties (h : r.At size s ss (kind :: ks)) (hanchor : ∀ name, kind ≠ .anchor name)
    (htag : ∀ name, kind ≠ .tag name) :
    ∃ r', Read.takeProperties.run r = .ok ((none, none), r') ∧ r'.At size s ss (kind :: ks) := by
  obtain ⟨tok, r₁, hpeek, rfl, h₁, -⟩ := h.peek
  obtain ⟨tok', r₂, hpeek', hkind, h₂, -⟩ := h₁.peek
  refine ⟨r₂, ?_, h₂⟩
  have hfirst : Read.takeAnchor.run r = .ok (none, r₁) := by
    rw [Read.takeAnchor, run_bind_ok hpeek]
    split
    · rename_i name heq
      exact absurd heq (hanchor name)
    · rfl
  have hsecond : Read.takeTag.run r₁ = .ok (none, r₂) := by
    rw [Read.takeTag, run_bind_ok hpeek', hkind]
    split
    · rename_i name heq
      exact absurd heq (htag name)
    · rfl
  rw [Read.takeProperties, run_bind_ok hfirst, run_bind_ok hsecond]
  rfl

theorem goBack (h : r.At size s (s' :: ss) ks) :
    ∃ r', Read.goBack.run r = .ok ((), r') ∧ r'.At size s' ss ks ∧ r'.tokens = r.tokens := by
  refine ⟨{ r with stage := r.stages.headD .documentEnd, stages := r.stages.drop 1 }, rfl, ?_, rfl⟩
  refine ⟨h.tokens, ?_, ?_⟩ <;> simp [h.stages]

theorem later (h : r.At size s ss ks) (after : Stage) :
    ∃ r', (Read.later after).run r = .ok ((), r') ∧ r'.At size s (after :: ss) ks :=
  ⟨{ r with stages := after :: r.stages }, rfl, h.tokens, h.stage, by simp [h.stages]⟩

/-- A scalar is a node. -/
theorem node_scalar {text : Text} {plain : Bool}
    (h : r.At size s (s' :: ss) (.scalar text plain :: ks)) (place : Read.Place) :
    ∃ m r', (Read.node place).run r = .ok (.bare (.scalar text plain) m, r') ∧
      r'.At size s' ss ks := by
  obtain ⟨first, r₁, hpeek, hfirst, h₁, -⟩ := h.peek
  obtain ⟨r₂, hproperties, h₂⟩ := h₁.takeProperties (by simp) (by simp)
  obtain ⟨tok, r₃, hpeek', hkind, h₃, hsettled⟩ := h₂.peek
  obtain ⟨r₄, hback, h₄, htokens⟩ := h₃.goBack
  obtain ⟨r₅, hskip, h₅⟩ := h₄.skip (by rw [htokens, hsettled])
  refine ⟨first.mark, r₅, ?_, h₅⟩
  rw [Read.node, run_bind_ok hpeek, hfirst]
  dsimp only
  rw [run_bind_ok hproperties, Read.addressOf, pure_bind, run_bind_ok hpeek', hkind]
  cases place <;> exact (run_bind_ok hback).trans ((run_bind_ok hskip).trans rfl)

/-- Enters a mapping. -/
theorem enter (h : r.At size s ss (kind :: ks)) (inside : Stage) :
    ∃ r', (Read.enter inside).run r = .ok ((), r') ∧ r'.At size inside ss ks := by
  obtain ⟨tok, r₁, hpeek, -, h₁, hsettled⟩ := h.peek
  obtain ⟨r₂, hskip, h₂⟩ := h₁.skip hsettled
  refine ⟨{ r₂ with stage := inside, starts := tok.mark :: r₂.starts }, ?_, h₂.tokens, rfl, h₂.stages⟩
  rw [Read.enter, run_bind_ok hpeek, run_bind_ok hskip]
  rfl

/-- The start of a block mapping is the start of a node. -/
theorem node_mapping (h : r.At size s ss (.blockMappingStart :: ks)) (place : Read.Place)
    (hplace : place ≠ .flow) :
    ∃ m r', (Read.node place).run r = .ok (.bare .mappingStart m, r') ∧
      r'.At size .blockKey ss ks := by
  obtain ⟨first, r₁, hpeek, hfirst, h₁, -⟩ := h.peek
  obtain ⟨r₂, hproperties, h₂⟩ := h₁.takeProperties (by simp) (by simp)
  obtain ⟨tok, r₃, hpeek', hkind, h₃, -⟩ := h₂.peek
  obtain ⟨r₄, henter, h₄⟩ := h₃.enter .blockKey
  refine ⟨first.mark, r₄, ?_, h₄⟩
  rw [Read.node, run_bind_ok hpeek, hfirst]
  dsimp only
  rw [run_bind_ok hproperties, Read.addressOf, pure_bind, run_bind_ok hpeek', hkind]
  cases place with
  | flow => exact absurd rfl hplace
  | block => exact (run_bind_ok henter).trans rfl
  | blockInMapping => exact (run_bind_ok henter).trans rfl

/-- A node that is not missing. -/
theorem nodeUnless_run (h : r.At size s ss (kind :: ks)) (kinds : List TokenKind)
    (hkind : kind ∉ kinds) (place : Read.Place) (after : Stage) (missing : Mark) :
    ∃ r', r'.At size s (after :: ss) (kind :: ks) ∧
      (Read.nodeUnless kinds place after missing).run r = (Read.node place).run r' := by
  obtain ⟨tok, r₁, hpeek, rfl, h₁, -⟩ := h.peek
  obtain ⟨r₂, hlater, h₂⟩ := h₁.later after
  refine ⟨r₂, h₂, ?_⟩
  rw [Read.nodeUnless, run_bind_ok hpeek, if_neg (by simpa using hkind), run_bind_ok hlater]

/-! ## Events -/

/-- The start of the mapping that a document is. -/
theorem event_document (h : r.At size (.documentNode false) ss (.blockMappingStart :: ks)) :
    ∃ m r', Read.event.run r = .ok (.bare .mappingStart m, r') ∧ r'.At size .blockKey ss ks := by
  obtain ⟨tok, r₁, hpeek, -, h₁, -⟩ := h.peek
  obtain ⟨m, r₂, hnode, h₂⟩ := h₁.node_mapping .block (by simp)
  refine ⟨m, r₂, ?_, h₂⟩
  rw [Read.event, run_get_bind, h.stage]
  dsimp only
  rw [Read.documentNode, run_bind_ok hpeek, if_neg (by simp), hnode]

/-- A key. -/
theorem event_key {text : Text} {plain : Bool}
    (h : r.At size .blockKey ss (.key :: .scalar text plain :: ks)) :
    ∃ m r', Read.event.run r = .ok (.bare (.scalar text plain) m, r') ∧
      r'.At size .blockValue ss ks := by
  obtain ⟨tok, r₁, hpeek, hkind, h₁, hsettled⟩ := h.peek
  obtain ⟨r₂, hskip, h₂⟩ := h₁.skip hsettled
  obtain ⟨r₃, h₃, hunless⟩ := h₂.nodeUnless_run [.key, .value, .blockEnd] (by simp) .blockInMapping
    .blockValue tok.mark
  obtain ⟨m, r₄, hnode, h₄⟩ := h₃.node_scalar .blockInMapping
  refine ⟨m, r₄, ?_, h₄⟩
  rw [Read.event, run_get_bind, h.stage]
  dsimp only
  rw [Read.blockKey, run_bind_ok hpeek, hkind]
  dsimp only
  rw [run_bind_ok hskip, hunless, hnode]

/-- What stands behind a colon. -/
theorem event_value (h : r.At size .blockValue ss (.value :: kind :: ks))
    (hkind : kind ∉ [.key, .value, .blockEnd]) :
    ∃ r', r'.At size .blockValue (.blockKey :: ss) (kind :: ks) ∧
      Read.event.run r = (Read.node .blockInMapping).run r' := by
  obtain ⟨tok, r₁, hpeek, hvalue, h₁, hsettled⟩ := h.peek
  obtain ⟨r₂, hskip, h₂⟩ := h₁.skip hsettled
  obtain ⟨r₃, h₃, hunless⟩ :=
      h₂.nodeUnless_run [.key, .value, .blockEnd] hkind .blockInMapping .blockKey
    tok.mark
  refine ⟨r₃, h₃, ?_⟩
  rw [Read.event, run_get_bind, h.stage]
  dsimp only
  rw [Read.blockValue, run_bind_ok hpeek, hvalue]
  dsimp only
  rw [run_bind_ok hskip, hunless]

/-- A scalar behind a colon. -/
theorem event_scalar {text : Text} {plain : Bool}
    (h : r.At size .blockValue ss (.value :: .scalar text plain :: ks)) :
    ∃ m r', Read.event.run r = .ok (.bare (.scalar text plain) m, r') ∧
      r'.At size .blockKey ss ks := by
  obtain ⟨r₁, h₁, hevent⟩ := h.event_value (by simp)
  obtain ⟨m, r₂, hnode, h₂⟩ := h₁.node_scalar .blockInMapping
  exact ⟨m, r₂, hevent.trans hnode, h₂⟩

/-- A mapping behind a colon. -/
theorem event_mapping (h : r.At size .blockValue ss (.value :: .blockMappingStart :: ks)) :
    ∃ m r', Read.event.run r = .ok (.bare .mappingStart m, r') ∧
      r'.At size .blockKey (.blockKey :: ss) ks := by
  obtain ⟨r₁, h₁, hevent⟩ := h.event_value (by simp)
  obtain ⟨m, r₂, hnode, h₂⟩ := h₁.node_mapping .blockInMapping (by simp)
  exact ⟨m, r₂, hevent.trans hnode, h₂⟩

/-- The end of a mapping. -/
theorem event_end (h : r.At size .blockKey (s :: ss) (.blockEnd :: ks)) :
    ∃ m r', Read.event.run r = .ok (.bare .mappingEnd m, r') ∧ r'.At size s ss ks := by
  obtain ⟨tok, r₁, hpeek, hkind, h₁, -⟩ := h.peek
  obtain ⟨tok', r₂, hpeek', -, h₂, hsettled⟩ := h₁.peek
  obtain ⟨r₃, hback, h₃, htokens⟩ := h₂.goBack
  obtain ⟨r₄, hskip, h₄⟩ := h₃.skip (by rw [htokens, hsettled])
  refine ⟨tok'.mark, { r₄ with starts := r₄.starts.drop 1 }, ?_, h₄.tokens, h₄.stage, h₄.stages⟩
  rw [Read.event, run_get_bind, h.stage]
  dsimp only
  rw [Read.blockKey, run_bind_ok hpeek, hkind]
  dsimp only
  rw [Read.leave, run_bind_ok hpeek', run_bind_ok hback, run_bind_ok hskip]
  rfl

/-! ## Documents -/

/-- A document that starts with a mapping and no mark. -/
theorem documentStart_run (h : r.At size s ss (.streamStart :: .blockMappingStart :: ks)) :
    ∃ r', Read.documentStart.run r = .ok (true, r') ∧ r'.At size s ss (.blockMappingStart :: ks) := by
  obtain ⟨tok, r₁, hpeek, -, h₁, hsettled⟩ := h.peek
  obtain ⟨r₂, hskip, h₂⟩ := h₁.skip hsettled
  obtain ⟨tok', r₃, hpeek', hkind, h₃, -⟩ := h₂.peek
  have hadvance : Read.advance.run r₁ = .ok (tok', r₃) := by
    rw [Read.advance, run_bind_ok hskip, hpeek']
  refine ⟨{ r₃ with handles := r₃.handles ++ Read.standardHandles }, ?_, h₃.tokens, h₃.stage,
    h₃.stages⟩
  rw [Read.documentStart, run_bind_ok hpeek, run_bind_ok hadvance, hkind]
  rfl

/-- A document that ends with the stream. -/
theorem documentEnd_run (h : r.At size s ss (.streamEnd :: ks)) :
    ∃ r', Read.documentEnd.run r = .ok ((), r') ∧ r'.At size s ss (.streamEnd :: ks) := by
  obtain ⟨tok, r₁, hpeek, hkind, h₁, -⟩ := h.peek
  refine ⟨r₁, ?_, h₁⟩
  rw [Read.documentEnd, run_bind_ok hpeek, hkind, if_neg (by decide)]
  rfl

end At

end Reading

end TinyLang.Yaml
