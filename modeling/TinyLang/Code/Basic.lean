import TinyLang.Number.Basic
import TinyLang.Text.Basic

/-!
# Modules of native code

A compiled program is a module with one function made of basic blocks. Each variable of the program
has a *slot*: a memory cell for its value and a flag that says whether it has been assigned. Texts
that the program prints or names in messages are constants. Slots and texts are numbered apart, each
in the order of creation.

Registers are assigned once. A block is a list of instructions and one terminator.
-/

namespace TinyLang.Code

/-- The name of a block. -/
inductive Label
  | entry
  /-- The block of a source line. -/
  | line (n : Nat)
  | exit
  /-- A block without a source line of its own. -/
  | aux (id : Nat)
deriving DecidableEq, Repr

/-- What an instruction works on: a register or a constant. -/
inductive Operand
  | reg (r : Nat)
  | const (v : Number)
deriving DecidableEq, Repr

/-- The arithmetic instructions. -/
inductive Arith
  | add
  | sub
  | mul
  | div
deriving DecidableEq, Repr

/-- The comparisons: ordered ones are false if either side is no number, `ne` is true then. -/
inductive Relation
  | lt
  | gt
  | le
  | ge
  | eq
  | ne
deriving DecidableEq, Repr

/-- An instruction. The last three end the program with a message. -/
inductive Instr
  | loadFlag (dst slot : Nat)
  | loadValue (dst slot : Nat)
  | storeValue (value : Operand) (slot : Nat)
  | raiseFlag (slot : Nat)
  | arith (dst : Nat) (op : Arith) (a b : Operand)
  | compare (dst : Nat) (rel : Relation) (a b : Operand)
  /-- A truth value as a number. -/
  | widen (dst flag : Nat)
  | input (dst line : Nat)
  | printText (text : Nat)
  | printNumber (value : Operand)
  | printEnd
  | undefinedVariable (text line : Nat)
  | illegalGoto (text line : Nat)
  | syntaxError (line : Nat)
deriving DecidableEq, Repr

/-- How a block ends. -/
inductive Terminator
  | jump (target : Label)
  | fork (flag : Nat) (yes no : Label)
  /-- The program ends normally. -/
  | ret
  /-- Nothing comes here. -/
  | unreachable
deriving DecidableEq, Repr

/-- A basic block. -/
structure Block where
  label : Label
  instrs : List Instr
  terminator : Terminator
deriving DecidableEq, Repr

/-- Something that lives as long as the program. -/
inductive Global
  /-- The value and the flag of a variable. -/
  | slot (name : Text)
  /-- A constant text. -/
  | text (bytes : Text)
deriving DecidableEq, Repr

/-- A compiled program. -/
structure Module where
  /-- The name of the source. -/
  name : Text
  /-- Slots and texts in the order of creation, each once. -/
  globals : List Global
  blocks : List Block
deriving DecidableEq, Repr

/-- The register that an instruction assigns. -/
def Instr.dst? : Instr → Option Nat
  | loadFlag dst _ => some dst
  | loadValue dst _ => some dst
  | arith dst _ _ _ => some dst
  | compare dst _ _ _ => some dst
  | widen dst _ => some dst
  | input dst _ => some dst
  | _ => none

/-- The variables that have slots, in the order of their numbers. -/
def slotNamesOf (globals : List Global) : List Text :=
  globals.filterMap fun
    | .slot name => some name
    | .text _ => none

/-- The constant texts, in the order of their numbers. -/
def textsOf (globals : List Global) : List Text :=
  globals.filterMap fun
    | .text bytes => some bytes
    | .slot _ => none

end TinyLang.Code
