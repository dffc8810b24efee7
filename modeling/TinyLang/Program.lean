import TinyLang.Stmt
import TinyLang.Token
import TinyLang.Table

/-!
# Programs

A program has one slot for each physical line of its text. A slot holds a statement or nothing, and
may carry a label; every label stands before a statement. Loading stops at the first line that is
not of this form. The tables of labels are derived from the slots: a label defined twice means its
last line.

`Program.source` writes a program back in canonical form, one line for each slot.
-/

namespace TinyLang

/-- The contents of one physical line. -/
structure Slot where
  label? : Option Text
  stmt? : Option Stmt
deriving DecidableEq, Repr

/-- A loaded program. -/
structure Program where
  name : Text
  slots : Array Slot
deriving DecidableEq, Repr

/-! ## Loading -/

namespace Slot

/-- The slot of a blank line. -/
def blank : Slot := ⟨none, none⟩

/-- The slot that the words of a line are. -/
def ofWords (words : List Text) (line : Int) : Except Diagnostic Slot :=
  match words with
  | [] => .ok blank
  | first :: rest =>
    if first.endsWith ":" then
      let label := first.dropLast
      if label.isEmpty then .error (SyntaxFault.emptyLabel.on line)
      else if rest.isEmpty then .error ((SyntaxFault.bareLabel label).on line)
      else do return ⟨some label, some (← Stmt.ofWords rest line)⟩
    else do return ⟨none, some (← Stmt.ofWords words line)⟩

/-- The canonical text of a slot, without a newline. -/
def text (s : Slot) : Text :=
  (match s.label? with
    | some label => label ++ ": "
    | none => []) ++
  (match s.stmt? with
    | some stmt => stmt.text
    | none => [])

end Slot

namespace Program

/-- Loads a program from its text. -/
def load (name src : Text) : Except Diagnostic Program := do
  let slots ← src.tokenize.mapM fun l => Slot.ofWords l.words l.number
  return ⟨name, slots.toArray⟩

/-! ## Looking up -/

/-- The number of lines. -/
def size (p : Program) : Nat := p.slots.size

/-- The slot on a line, counted from 1. -/
def slot? (p : Program) (line : Int) : Option Slot :=
  if line < 1 then none else p.slots[line.toNat - 1]?

/-- The statement on a line; none on a blank line or outside the program. -/
def stmt? (p : Program) (line : Int) : Option Stmt := (p.slot? line).bind Slot.stmt?

/-- The label on a line. -/
def label? (p : Program) (line : Int) : Option Text := (p.slot? line).bind Slot.label?

/-- The labels with their lines, in the order of the lines. -/
def definitions (p : Program) : List (Text × Nat) :=
  (p.slots.toList.zipIdx 1).filterMap fun (s, line) => s.label?.map fun l => (l, line)

/-- The line that each label means, the last one that carries it. -/
def labels (p : Program) : Table Nat := Table.ofEntries p.definitions

/-- The labels that more than one line carries, with all those lines. -/
def redefined (p : Program) : Table (List Nat) :=
  (Table.gather p.definitions).filter fun (_, lines) => 1 < lines.length

/-- The statements with their lines, in order. -/
def statements (p : Program) : List (Nat × Stmt) :=
  (p.slots.toList.zipIdx 1).filterMap fun (s, line) => s.stmt?.map fun stmt => (line, stmt)

/-! ## Writing -/

/-- The program in canonical form, a newline after each line. -/
def source (p : Program) : Text := p.slots.toList.flatMap fun s => s.text ++ "\n"

/-! ## Replacing an expression -/

/-- An action with its value, its condition or its first print item replaced. -/
def replaceExpr (e : Expr) : Action → Action
  | .assign target _ => .assign target e
  | .branch _ label => .branch e label
  | .print (_ :: items) => .print (.value e :: items)
  | a => a

/-- The program with the expression on a line replaced. -/
def patch (p : Program) (line : Int) (e : Expr) : Program :=
  if line < 1 then p
  else { p with slots := p.slots.modify (line.toNat - 1) fun s =>
    { s with stmt? := s.stmt?.map fun st => { st with action := replaceExpr e st.action } } }

end Program

end TinyLang
