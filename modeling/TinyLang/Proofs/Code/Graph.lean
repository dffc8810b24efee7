import TinyLang.Proofs.Code.Reference
import Mathlib.Data.List.Nodup

/-!
# The graph of a module, and when a module is well formed

What can be said of the blocks of a module without executing them: which blocks a block may hand
over to, and which registers its instructions read and assign.

* `Module.Edge`: the graph of the blocks.
* `Module.Dominates`: every way from the entry to a block goes through another one.
* `Block.ReadsAfter`, `Module.Available`: where a register is read, and that its value is there.
* `Module.WellFormed`: what a module must satisfy to be accepted as code.
-/

namespace TinyLang.Code

/-! ## What instructions read -/

/-- The registers of an operand. -/
def Operand.reads : Operand → List Nat
  | .reg r => [r]
  | .const _ => []

namespace Instr

/-- The registers that an instruction reads. -/
def reads : Instr → List Nat
  | storeValue value _ => value.reads
  | arith _ _ a b => a.reads ++ b.reads
  | compare _ _ a b => a.reads ++ b.reads
  | widen _ flag => [flag]
  | printNumber value => value.reads
  | _ => []

end Instr

namespace Terminator

/-- The blocks that a terminator may hand over to. -/
def targets : Terminator → List Label
  | jump target => [target]
  | fork _ yes no => [yes, no]
  | ret => []
  | unreachable => []

/-- The registers that a terminator reads. -/
def reads : Terminator → List Nat
  | fork flag _ _ => [flag]
  | _ => []

end Terminator

/-- The registers that instructions assign, in order. -/
def resultsOf (is : List Instr) : List Nat := is.filterMap Instr.dst?

/-- The registers that a block assigns, in order. -/
def Block.results (b : Block) : List Nat := resultsOf b.instrs

/-- A register is read in a block with the instructions `before` in front of the place. -/
inductive Block.ReadsAfter (b : Block) : (before : List Instr) → (r : Nat) → Prop
  | instr {before after : List Instr} {i : Instr} {r : Nat} (h : b.instrs = before ++ i :: after)
      (hr : r ∈ i.reads) : ReadsAfter b before r
  | terminator {r : Nat} (hr : r ∈ b.terminator.reads) : ReadsAfter b b.instrs r

/-! ## Ways through a module -/

namespace Module

variable (M : Module)

/-- Whether a block may hand over to another. -/
def Edge (a b : Label) : Prop := ∃ x ∈ M.blocks, x.label = a ∧ b ∈ x.terminator.targets

/-- Whether a block can be reached from the entry without going through the block `d`. -/
inductive ReachedWithout (d : Label) : Label → Prop
  | entry (h : d ≠ .entry) : ReachedWithout d .entry
  | step {a b : Label} (h : ReachedWithout d a) (hedge : M.Edge a b) (hne : d ≠ b) :
      ReachedWithout d b

/-- Every way from the entry to the block `b` goes through the block `d`. A block that there is no
way to is dominated by all. -/
def Dominates (d b : Label) : Prop := ¬ M.ReachedWithout d b

/-- **A register that is read has its value**: it is assigned earlier in the block, or in another
block that every way to this one goes through. -/
def Available (b : Block) (before : List Instr) (r : Nat) : Prop :=
  r ∈ resultsOf before ∨
    ∃ a ∈ M.blocks, r ∈ a.results ∧ a.label ≠ b.label ∧ M.Dominates a.label b.label

variable {M}

theorem dominates_self (d : Label) : M.Dominates d d := by
  rintro (⟨h⟩ | ⟨-, -, h⟩) <;> exact h rfl

/-- What dominates every block that may hand over to a block dominates that block too. -/
theorem dominates_of_edges {d b : Label} (hb : b ≠ .entry)
    (h : ∀ a, M.Edge a b → M.Dominates d a) : M.Dominates d b := by
  rintro (⟨-⟩ | ⟨ha, hedge, -⟩)
  · exact hb rfl
  · exact h _ hedge ha

end Module

/-! ## Well-formed modules -/

/-- **What makes a module acceptable as code.** -/
structure Module.WellFormed (M : Module) : Prop where
  /-- No two blocks have the same label. -/
  labels : (M.blocks.map Block.label).Nodup
  /-- Every branch names a block. -/
  targets : ∀ b ∈ M.blocks, ∀ l ∈ b.terminator.targets, l ∈ M.blocks.map Block.label
  /-- The first block is the entry. -/
  entry : (M.blocks.map Block.label).head? = some .entry
  /-- No branch goes to the entry. -/
  fresh : ∀ a, ¬ M.Edge a .entry
  /-- Every register is assigned once. -/
  results : (M.blocks.flatMap Block.results).Nodup
  /-- Every register that is read has its value. -/
  available : ∀ b ∈ M.blocks, ∀ before r, b.ReadsAfter before r → M.Available b before r
  /-- In the text of the module control leaves a block with its last line, and with no other. -/
  ends : ∀ b ∈ M.blocks, ∃ body last, b.Ends (PrintContext.ofModule M) body last
  /-- Every global that the text of a block names is introduced once. -/
  defined : ∀ b ∈ M.blocks, ∀ g ∈ globalsIn (blockText (PrintContext.ofModule M) b),
    ∃ t, M.introducing g = [t]

end TinyLang.Code
