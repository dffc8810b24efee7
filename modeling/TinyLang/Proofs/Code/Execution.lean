import TinyLang.Code.Basic
import TinyLang.Proofs.Machine.Lines

/-!
# Executing a module

The meaning of compiled code. A state has registers, the value and the flag of every slot, the
number of input values taken, and what has been printed: the items of the line that is being put
together, and the finished lines. An instruction gives the next state, or ends the program. A block
executes its instructions in order and hands over to the block that its terminator names.

What an instruction cannot make sense of ends the program as `stuck`: a register that was never
assigned or holds the wrong kind of value, a slot, text or block that the module does not have, and
arriving at `unreachable`.

Line numbers that code hands to its run-time support are 32 bit words (`lineWord`).

`Module.config` is the run of a module from its entry, block by block, and `Module.visits` the
sequence of line blocks that it enters.
-/

namespace TinyLang.Code

/-- What a register holds. -/
inductive Value
  | flag (b : Bool)
  | number (v : Number)
deriving DecidableEq, Repr

/-- How a program ends. -/
inductive Halt
  | returned
  | undefinedVariable (name : Text) (line : Int)
  | illegalGoto (label : Text) (line : Int)
  | syntaxError (line : Int)
  | badInput (line : Int)
  /-- The code has no meaning here. -/
  | stuck
deriving DecidableEq, Repr

/-- The state between two instructions. -/
structure State where
  regs : Nat → Option Value
  /-- The value of each slot. -/
  values : Nat → Number
  /-- Whether each slot has been assigned. -/
  flags : Nat → Bool
  /-- The number of input values taken. -/
  taken : Nat
  /-- The items of the unfinished line. -/
  items : List Item
  /-- The items of the finished lines, oldest first. -/
  lines : List (List Item)

namespace State

/-- The state before the first instruction. -/
def start : State where
  regs := fun _ => none
  values := fun _ => .zero
  flags := fun _ => false
  taken := 0
  items := []
  lines := []

/-- The state with a register assigned. -/
def put (s : State) (r : Nat) (v : Value) : State :=
  { s with regs := fun i => if i = r then some v else s.regs i }

/-- The truth value in a register. -/
def flag? (s : State) (r : Nat) : Option Bool :=
  match s.regs r with
  | some (.flag b) => some b
  | _ => none

/-- The number that an operand stands for. -/
def number? (s : State) : Operand → Option Number
  | .const v => some v
  | .reg r =>
    match s.regs r with
    | some (.number v) => some v
    | _ => none

end State

/-- A line number as the signed word of 32 bits that is handed over. -/
def lineWord (n : Nat) : Int := (BitVec.ofNat 32 n).toInt

/-- The arithmetic operation of an instruction. -/
def Arith.apply : Arith → Number → Number → Number
  | add, a, b => a.add b
  | sub, a, b => a.sub b
  | mul, a, b => a.mul b
  | div, a, b => a.div b

/-- Whether a comparison holds. -/
def Relation.holds : Relation → Number → Number → Bool
  | lt, a, b => a.less b
  | gt, a, b => b.less a
  | le, a, b => a.atMost b
  | ge, a, b => b.atMost a
  | eq, a, b => a.equal b
  | ne, a, b => !a.equal b

/-- What code refers to outside its registers: the names of the slots, the constant texts, and the
input, where `none` stands for a value that cannot be read. -/
structure Surroundings where
  slots : List Text
  texts : List Text
  input : Nat → Option Number

/-- The state after some code, or how the program ended in it and in which state. -/
abbrev Result := Except (Halt × State) State

/-- Executes an instruction. -/
def Instr.exec (env : Surroundings) (s : State) : Instr → Result
  | .loadFlag dst slot =>
    if slot < env.slots.length then .ok (s.put dst (.flag (s.flags slot))) else .error (.stuck, s)
  | .loadValue dst slot =>
    if slot < env.slots.length then .ok (s.put dst (.number (s.values slot)))
    else .error (.stuck, s)
  | .storeValue value slot =>
    match s.number? value with
    | some v =>
      if slot < env.slots.length then
        .ok { s with values := fun i => if i = slot then v else s.values i }
      else .error (.stuck, s)
    | none => .error (.stuck, s)
  | .raiseFlag slot =>
    if slot < env.slots.length then
      .ok { s with flags := fun i => if i = slot then true else s.flags i }
    else .error (.stuck, s)
  | .arith dst op a b =>
    match s.number? a, s.number? b with
    | some x, some y => .ok (s.put dst (.number (op.apply x y)))
    | _, _ => .error (.stuck, s)
  | .compare dst rel a b =>
    match s.number? a, s.number? b with
    | some x, some y => .ok (s.put dst (.flag (rel.holds x y)))
    | _, _ => .error (.stuck, s)
  | .widen dst flag =>
    match s.flag? flag with
    | some b => .ok (s.put dst (.number (.ofBool b)))
    | none => .error (.stuck, s)
  | .input dst line =>
    match env.input s.taken with
    | some v => .ok { s.put dst (.number v) with taken := s.taken + 1 }
    | none => .error (.badInput (lineWord line), s)
  | .printText text =>
    match env.texts[text]? with
    | some t => .ok { s with items := s.items ++ [.text t] }
    | none => .error (.stuck, s)
  | .printNumber value =>
    match s.number? value with
    | some v => .ok { s with items := s.items ++ [.number v] }
    | none => .error (.stuck, s)
  | .printEnd => .ok { s with items := [], lines := s.lines ++ [s.items] }
  | .undefinedVariable text line =>
    match env.texts[text]? with
    | some t => .error (.undefinedVariable t (lineWord line), s)
    | none => .error (.stuck, s)
  | .illegalGoto text line =>
    match env.texts[text]? with
    | some t => .error (.illegalGoto t (lineWord line), s)
    | none => .error (.stuck, s)
  | .syntaxError line => .error (.syntaxError (lineWord line), s)

/-- Executes instructions in order. -/
def execAll (env : Surroundings) (instrs : List Instr) (s : State) : Result :=
  instrs.foldlM (Instr.exec env) s

/-- Where an execution is: before a block, or at its end. -/
inductive Config
  | entering (label : Label) (s : State)
  | ended (halt : Halt) (s : State)

/-- Where a terminator hands over. -/
def Terminator.exec (s : State) : Terminator → Config
  | .jump target => .entering target s
  | .fork flag yes no =>
    match s.flag? flag with
    | some b => .entering (if b then yes else no) s
    | none => .ended .stuck s
  | .ret => .ended .returned s
  | .unreachable => .ended .stuck s

/-- Executes a block. -/
def Block.exec (env : Surroundings) (b : Block) (s : State) : Config :=
  match execAll env b.instrs s with
  | .ok s' => b.terminator.exec s'
  | .error (halt, s') => .ended halt s'

/-- The line and state of an execution that is before the block of a line. -/
def Config.visit? : Config → Option (Nat × State)
  | .entering (.line n) s => some (n, s)
  | _ => none

namespace Module

/-- The block with a label. -/
def block? (M : Module) (l : Label) : Option Block := M.blocks.find? fun b => b.label == l

/-- What the code of a module refers to, with an input. -/
def surroundings (M : Module) (input : Nat → Option Number) : Surroundings :=
  ⟨slotNamesOf M.globals, textsOf M.globals, input⟩

/-- Executes one block. An execution that has ended stays where it is. -/
def step (M : Module) (input : Nat → Option Number) : Config → Config
  | .ended halt s => .ended halt s
  | .entering l s =>
    match M.block? l with
    | some b => b.exec (M.surroundings input) s
    | none => .ended .stuck s

/-- The run of a module: where it is after a number of blocks. -/
def config (M : Module) (input : Nat → Option Number) (n : Nat) : Config :=
  (M.step input)^[n] (.entering .entry .start)

/-- The line blocks entered in the first `n` steps of a run, with the state there. -/
def visits (M : Module) (input : Nat → Option Number) (n : Nat) : List (Nat × State) :=
  (List.range n).filterMap fun i => (M.config input i).visit?

end Module

/-- The value of a variable: none if its flag is not set or it has no slot. -/
def State.value? (s : State) (slots : List Text) (name : Text) : Option Number :=
  if name ∈ slots ∧ s.flags (slots.idxOf name) = true then some (s.values (slots.idxOf name))
  else none

end TinyLang.Code
