import TinyLang.Code.Basic
import TinyLang.Code.Literal

/-!
# Module text

The text of a module. Blocks of lines are named; the other blocks and the registers are numbered
from one counter in the order in which they appear, a block before its instructions.
-/

namespace TinyLang.Code

/-! ## Numbering -/

/-- The printed numbers of registers and unnamed blocks. -/
structure Numbering where
  next : Nat
  regs : List (Nat × Nat)
  auxs : List (Nat × Nat)

namespace Numbering

/-- Numbers a block, if it has no name. -/
def addLabel (nb : Numbering) : Label → Numbering
  | .aux id => { nb with next := nb.next + 1, auxs := (id, nb.next) :: nb.auxs }
  | _ => nb

/-- Numbers the register that an instruction assigns. -/
def addInstr (nb : Numbering) (i : Instr) : Numbering :=
  match i.dst? with
  | some r => { nb with next := nb.next + 1, regs := (r, nb.next) :: nb.regs }
  | none => nb

/-- Numbers a block and its registers. -/
def addBlock (nb : Numbering) (b : Block) : Numbering :=
  b.instrs.foldl addInstr (nb.addLabel b.label)

/-- The numbering of a sequence of blocks. -/
def ofBlocks (bs : List Block) : Numbering := bs.foldl addBlock ⟨0, [], []⟩

end Numbering

/-- A finite map from numbers to numbers, as an array. -/
def denseMap (size : Nat) (pairs : List (Nat × Nat)) : Array Nat :=
  pairs.foldl (fun a (k, v) => a.setIfInBounds k v) (Array.replicate size 0)

/-- What printing looks up: the printed numbers, and the texts. -/
structure PrintContext where
  regs : Array Nat
  auxs : Array Nat
  texts : Array Text

/-- The context for printing a module. -/
def PrintContext.ofModule (m : Module) : PrintContext :=
  let nb := Numbering.ofBlocks m.blocks
  ⟨denseMap nb.next nb.regs, denseMap nb.next nb.auxs, (textsOf m.globals).toArray⟩

/-! ## Names and operands -/

/-- Bytes in a quoted name: a byte that is no printable ASCII, a quote and a backslash become a
backslash and two upper-case hexadecimal digits. -/
def escapeByte (b : UInt8) : Text :=
  if 32 ≤ b && b ≤ 126 && b != 34 && b != 92 then [b]
  else Text.byte '\\' :: (Text.hexByte b).map fun d => if 97 ≤ d then d - 32 else d

/-- Bytes between quotes. -/
def quotedBytes (t : Text) : Text := "\"" ++ t.flatMap escapeByte ++ "\""

/-- The name of a block. -/
def labelText (cx : PrintContext) : Label → Text
  | .entry => "entry"
  | .line n => "line" ++ Text.ofNat n
  | .exit => "exit"
  | .aux id => Text.ofNat (cx.auxs.getD id 0)

/-- A register. -/
def regText (cx : PrintContext) (r : Nat) : Text := "%" ++ Text.ofNat (cx.regs.getD r 0)

/-- An operand. -/
def operandText (cx : PrintContext) : Operand → Text
  | .reg r => regText cx r
  | .const v => literalText v

/-- The type of a constant text: its bytes and a final zero. -/
def arrayType (t : Text) : Text := "[" ++ Text.ofNat (t.length + 1) ++ " x i8]"

/-- A pointer to a constant text. -/
def pointerText (cx : PrintContext) (text : Nat) : Text :=
  let ty := arrayType (cx.texts.getD text [])
  "i8* getelementptr (" ++ ty ++ ", " ++ ty ++ "* @str." ++ Text.ofNat text ++ ", i32 0, i32 0)"

/-! ## Instructions -/

/-- The word for an arithmetic instruction. -/
def Arith.word : Arith → Text
  | add => "fadd"
  | sub => "fsub"
  | mul => "fmul"
  | div => "fdiv"

/-- The word for a comparison. -/
def Relation.word : Relation → Text
  | lt => "olt"
  | gt => "ogt"
  | le => "ole"
  | ge => "oge"
  | eq => "oeq"
  | ne => "une"

/-- An instruction, without the register it assigns. -/
def instrBody (cx : PrintContext) : Instr → Text
  | .loadFlag _ slot => "load i1, i1* @set." ++ Text.ofNat slot
  | .loadValue _ slot => "load double, double* @var." ++ Text.ofNat slot
  | .storeValue v slot =>
    "store double " ++ operandText cx v ++ ", double* @var." ++ Text.ofNat slot
  | .raiseFlag slot => "store i1 true, i1* @set." ++ Text.ofNat slot
  | .arith _ op a b => op.word ++ " double " ++ operandText cx a ++ ", " ++ operandText cx b
  | .compare _ rel a b =>
    "fcmp " ++ rel.word ++ " double " ++ operandText cx a ++ ", " ++ operandText cx b
  | .widen _ flag => "uitofp i1 " ++ regText cx flag ++ " to double"
  | .input _ line => "call double @tl_input(i32 " ++ Text.ofNat line ++ ")"
  | .printText t => "call void @tl_print_str(" ++ pointerText cx t ++ ")"
  | .printNumber v => "call void @tl_print_num(double " ++ operandText cx v ++ ")"
  | .printEnd => "call void @tl_print_end()"
  | .undefinedVariable t line =>
    "call void @tl_undefined(" ++ pointerText cx t ++ ", i32 " ++ Text.ofNat line ++ ")"
  | .illegalGoto t line =>
    "call void @tl_illegal_goto(" ++ pointerText cx t ++ ", i32 " ++ Text.ofNat line ++ ")"
  | .syntaxError line => "call void @tl_syntax_error(i32 " ++ Text.ofNat line ++ ")"

/-- An instruction. -/
def instrText (cx : PrintContext) (i : Instr) : Text :=
  match i.dst? with
  | some r => regText cx r ++ " = " ++ instrBody cx i
  | none => instrBody cx i

/-- A terminator. -/
def terminatorText (cx : PrintContext) : Terminator → Text
  | .jump target => "br label %" ++ labelText cx target
  | .fork flag yes no =>
    "br i1 " ++ regText cx flag ++ ", label %" ++ labelText cx yes ++ ", label %" ++ labelText cx no
  | .ret => "ret i32 0"
  | .unreachable => "unreachable"

/-- A block: its name, then each instruction after a tab. -/
def blockText (cx : PrintContext) (b : Block) : Text :=
  labelText cx b.label ++ ":\n" ++
    ((b.instrs.map (instrText cx)) ++ [terminatorText cx b.terminator]).flatMap fun t =>
      ("\t" ++ t ++ "\n" : Text)

/-! ## The module -/

/-- The lines that define globals, slots and texts numbered from `slot` and `text` on. -/
def globalLines : (slot text : Nat) → List Global → List Text
  | _, _, [] => []
  | slot, text, .slot _ :: rest =>
    ("@var." ++ Text.ofNat slot ++ " = global double 0.0") ::
      ("@set." ++ Text.ofNat slot ++ " = global i1 false") :: globalLines (slot + 1) text rest
  | slot, text, .text bytes :: rest =>
    ("@str." ++ Text.ofNat text ++ " = constant " ++ arrayType bytes ++ " c" ++
      quotedBytes (bytes ++ [0])) :: globalLines slot (text + 1) rest

/-- The functions that compiled code calls. -/
def declarations : List Text :=
  ["declare void @tl_print_str(i8* %s)", "declare void @tl_print_num(double %v)",
    "declare void @tl_print_end()", "declare double @tl_input(i32 %line)",
    "declare void @tl_undefined(i8* %name, i32 %line) noreturn",
    "declare void @tl_illegal_goto(i8* %label, i32 %line) noreturn",
    "declare void @tl_syntax_error(i32 %line) noreturn"]

/-- The text of a module: its sections with an empty line between them. -/
def Module.text (m : Module) : Text :=
  let cx := PrintContext.ofModule m
  let name := if m.name.isEmpty then [] else [("source_filename = " ++ quotedBytes m.name : Text)]
  let globals := match globalLines 0 0 m.globals with
    | [] => []
    | lines => [Text.join "\n" lines]
  let body := "define i32 @main() \x7b\n" ++ Text.join "\n" (m.blocks.map (blockText cx)) ++ "\x7d"
  Text.join "\n\n" (name ++ globals ++ declarations ++ [body]) ++ "\n"

end TinyLang.Code
