import TinyLang.Code.Basic
import TinyLang.Program

/-!
# Compiling a program

Every source line has a block, and a branch goes from block to block as a run goes from line to
line. A statement is compiled in two stages. First it becomes straight-line code (`Step`), in which
a variable is read by a single guarded step. Then the code is cut into blocks: a guard ends a block
and goes on in a fresh one if the variable has been assigned, and in another that reports it
otherwise. Quoted text used as a number ends the program, and what follows it is put into a block
that nothing reaches.

Slots and texts are created in the order in which the code first asks for them (`demands`).
-/

namespace TinyLang.Code

/-! ## Slots and texts -/

/-- What the code of an expression asks for: for each variable its slot, and its name for the
message. -/
def demandsOfExpr : Expr → List Global
  | .var name => [.slot name, .text name]
  | .binary _ left right => demandsOfExpr left ++ demandsOfExpr right
  | _ => []

/-- What the code of an action asks for. A label that no line carries is named in a message. -/
def demandsOfAction (labels : Table Nat) : Action → List Global
  | .assign target e => demandsOfExpr e ++ [.slot target]
  | .branch c label => demandsOfExpr c ++ (if labels.has label then [] else [.text label])
  | .print items => items.flatMap fun
    | .literal t => [.text t]
    | .value e => demandsOfExpr e
  | .input target => [.slot target]

/-- The first occurrences in a list, in order. -/
def firstOccurrences (gs : List Global) : List Global :=
  (gs.foldl (fun seen g => if g ∈ seen then seen else g :: seen) []).reverse

/-- The slots and texts of a program. -/
def globalsOf (p : Program) : List Global :=
  let labels := p.labels
  firstOccurrences (p.statements.flatMap fun (_, s) => demandsOfAction labels s.action)

/-- What compiling a statement looks up. -/
structure Names where
  slots : List Text
  texts : List Text
  labels : Table Nat
  /-- The number of lines. -/
  size : Nat

namespace Names

/-- The number of a variable's slot. -/
def slot (ns : Names) (name : Text) : Nat := ns.slots.idxOf name

/-- The number of a text. -/
def text (ns : Names) (t : Text) : Nat := ns.texts.idxOf t

/-- The block for a line, the exit past the last. -/
def block (ns : Names) (line : Nat) : Label :=
  if line < 1 || ns.size < line then .exit else .line line

end Names

/-! ## Straight-line code -/

/-- A step of straight-line code. -/
inductive Step
  | plain (i : Instr)
  /-- Reads a variable into `value` after checking its flag. -/
  | guarded (flag value slot text : Nat)
  /-- Ends the program. -/
  | abort
deriving DecidableEq, Repr

/-- How straight-line code ends. -/
inductive Tail
  | jump (target : Label)
  | fork (flag : Nat) (yes no : Label)
  /-- Goes on at `no` unless the flag is set, and reports the label in `text` otherwise. -/
  | forkOrFail (flag text : Nat) (no : Label)
deriving DecidableEq, Repr

/-- Why a tree built by hand has no code. -/
inductive BuildFault
  | notNumber (text : Text)
  | hole
  | noSuchOperator (op : Operator)
deriving DecidableEq, Repr

/-- A build fault on a line. -/
structure BuildError where
  line : Nat
  fault : BuildFault
deriving DecidableEq, Repr

/-- The wording of a build error. -/
def BuildError.message (e : BuildError) : Text :=
  "line " ++ Text.ofNat e.line ++ ": " ++
    match e.fault with
    | .notNumber t => "invalid number " ++ t.quoted
    | .hole => ("unknown expression <nil>" : Text)
    | .noSuchOperator op => "unknown operator " ++
        match op.render with
        | .ok t => t
        | .error d => d.placeholder

/-- The arithmetic instruction or the comparison of an operator. -/
def selectInstr : Operator → Option (Arith ⊕ Relation)
  | .add => some (.inl .add)
  | .sub => some (.inl .sub)
  | .mul => some (.inl .mul)
  | .div => some (.inl .div)
  | .less => some (.inr .lt)
  | .greater => some (.inr .gt)
  | .lessEq => some (.inr .le)
  | .greaterEq => some (.inr .ge)
  | .equal => some (.inr .eq)
  | .notEqual => some (.inr .ne)
  | .unlisted _ => none

/-- Straight-line code, the operand that holds its value, and the next unused register. -/
structure Fragment where
  steps : List Step
  value : Operand
  next : Nat
deriving DecidableEq, Repr

/-- The code of an expression, with registers from `reg` on. -/
def fragmentOf (ns : Names) (reg : Nat) : Expr → Except BuildFault Fragment
  | .var name => .ok ⟨[.guarded reg (reg + 1) (ns.slot name) (ns.text name)], .reg (reg + 1), reg + 2⟩
  | .number text =>
    match Number.read? text with
    | some v => .ok ⟨[], .const v, reg⟩
    | none => .error (.notNumber text)
  | .quotation _ => .ok ⟨[.abort], .const .zero, reg⟩
  | .binary op left right => do
    let l ← fragmentOf ns reg left
    let r ← fragmentOf ns l.next right
    match selectInstr op with
    | some (.inl a) =>
      return ⟨l.steps ++ r.steps ++ [.plain (.arith r.next a l.value r.value)], .reg r.next,
        r.next + 1⟩
    | some (.inr rel) =>
      return ⟨l.steps ++ r.steps ++ [.plain (.compare r.next rel l.value r.value),
        .plain (.widen (r.next + 1) r.next)], .reg (r.next + 1), r.next + 2⟩
    | none => .error (.noSuchOperator op)
  | .hole => .error .hole

/-- Straight-line code with its end, and the next unused register. -/
structure Routine where
  steps : List Step
  tail : Tail
  next : Nat
deriving DecidableEq, Repr

/-- The code that prints a list of items. -/
def printSteps (ns : Names) (reg : Nat) : List PrintItem → Except BuildFault (List Step × Nat)
  | [] => .ok ([.plain .printEnd], reg)
  | .literal t :: items => do
    let (rest, next) ← printSteps ns reg items
    return (.plain (.printText (ns.text t)) :: rest, next)
  | .value e :: items => do
    let f ← fragmentOf ns reg e
    let (rest, next) ← printSteps ns f.next items
    return (f.steps ++ .plain (.printNumber f.value) :: rest, next)

/-- The code that puts an operand into a variable. -/
def storeSteps (ns : Names) (target : Text) (value : Operand) : List Step :=
  [.plain (.storeValue value (ns.slot target)), .plain (.raiseFlag (ns.slot target))]

/-- The code of the action on a line. -/
def routineOf (ns : Names) (line reg : Nat) : Action → Except BuildFault Routine
  | .assign target e => do
    let f ← fragmentOf ns reg e
    return ⟨f.steps ++ storeSteps ns target f.value, .jump (ns.block (line + 1)), f.next⟩
  | .branch c label => do
    let f ← fragmentOf ns reg c
    let taken := [.plain (.compare f.next .ne f.value (.const .zero))]
    let tail := match ns.labels.find? label with
      | some target => Tail.fork f.next (ns.block target) (ns.block (line + 1))
      | none => Tail.forkOrFail f.next (ns.text label) (ns.block (line + 1))
    return ⟨f.steps ++ taken, tail, f.next + 1⟩
  | .print items => do
    let (steps, next) ← printSteps ns reg items
    return ⟨steps, .jump (ns.block (line + 1)), next⟩
  | .input target =>
    .ok ⟨.plain (.input reg line) :: storeSteps ns target (.reg reg),
      .jump (ns.block (line + 1)), reg + 1⟩

/-! ## Blocks -/

/-- Puts a block behind the first of a list. -/
def putSecond (b : Block) : List Block → List Block
  | [] => [b]
  | first :: others => first :: b :: others

/-- Cuts straight-line code into blocks, the first of them `label`. `before` holds the
instructions already in that block, newest first, and `aux` is the next unused block number. -/
def cutBlocks (line : Nat) (tail : Tail) :
    (label : Label) → (before : List Instr) → (aux : Nat) → List Step → List Block
  | label, before, aux, [] =>
    match tail with
    | .jump target => [⟨label, before.reverse, .jump target⟩]
    | .fork flag yes no => [⟨label, before.reverse, .fork flag yes no⟩]
    | .forkOrFail flag text no =>
      [⟨label, before.reverse, .fork flag (.aux aux) no⟩,
        ⟨.aux aux, [.illegalGoto text line], .unreachable⟩]
  | label, before, aux, .plain i :: rest => cutBlocks line tail label (i :: before) aux rest
  | label, before, aux, .guarded flag value slot text :: rest =>
    ⟨label, (.loadFlag flag slot :: before).reverse, .fork flag (.aux aux) (.aux (aux + 1))⟩ ::
      putSecond ⟨.aux (aux + 1), [.undefinedVariable text line], .unreachable⟩
        (cutBlocks line tail (.aux aux) [.loadValue value slot] (aux + 2) rest)
  | label, before, aux, .abort :: rest =>
    ⟨label, (.syntaxError line :: before).reverse, .unreachable⟩ ::
      cutBlocks line tail (.aux aux) [] (aux + 1) rest

/-- Line blocks and other blocks of a part of a program, with the next unused register and block
number. -/
structure Layout where
  lines : List Block
  others : List Block
  reg : Nat
  aux : Nat
deriving DecidableEq, Repr

/-- Adds the blocks of a line. The newest are first. -/
def Layout.addLine (ns : Names) (lay : Layout) (line : Nat) (s : Option Stmt) :
    Except BuildError Layout :=
  match s with
  | none => .ok { lay with lines := ⟨.line line, [], .jump (ns.block (line + 1))⟩ :: lay.lines }
  | some stmt =>
    match routineOf ns line lay.reg stmt.action with
    | .error fault => .error ⟨line, fault⟩
    | .ok routine =>
      match cutBlocks line routine.tail (.line line) [] lay.aux routine.steps with
      | [] => .ok lay
      | first :: others =>
        .ok ⟨first :: lay.lines, others.reverse ++ lay.others, routine.next,
          lay.aux + others.length⟩

/-- Compiles a program. The blocks of lines come first, then the others in the order of their
numbers. -/
def compile (p : Program) : Except BuildError Module := do
  let globals := globalsOf p
  let ns : Names := ⟨slotNamesOf globals, textsOf globals, p.labels, p.size⟩
  let lay ← (p.slots.toList.zipIdx 1).foldlM
    (fun lay (slot, line) => Layout.addLine ns lay line slot.stmt?) (⟨[], [], 0, 0⟩ : Layout)
  return ⟨p.name, globals,
    ⟨.entry, [], .jump (ns.block 1)⟩ :: lay.lines.reverse ++
      ⟨.exit, [], .ret⟩ :: lay.others.reverse⟩

end TinyLang.Code
