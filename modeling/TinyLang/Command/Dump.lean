import TinyLang.Program
import TinyLang.Text.Columns

/-!
# Dumps

A dump shows everything that a loaded program holds: its name, its labels, its statements, the label
of each line, and the labels that are defined more than once.
-/

namespace TinyLang.Command

/-- The number of items of a list that a dump shows. -/
def dumpLimit : Nat := 100

/-- A text with its control characters written out. -/
def visibleControls (t : Text) : Text :=
  t.flatMap fun b =>
    if b = 0x0A then "\\n"
    else if b = 0x09 then "\\t"
    else if b = 0x0D then "\\r"
    else if b = 0x0B then "\\v"
    else if b = 0x0C then "\\f"
    else if b = 0x1B then "\\x1b"
    else [b]

/-- The number of characters of a text that a dump shows. -/
def dumpTextLimit : Nat := 100000

/-- A text, cut after the characters that a dump shows. In a text that is cut a stray byte becomes a
replacement character. -/
def cutForDump (t : Text) : Text :=
  let runes := t.runes
  if runes.length ≤ dumpTextLimit then t
  else
    (runes.take dumpTextLimit).flatMap (fun r => Rune.encode (r.code?.getD 0xFFFD)) ++
      Rune.encode 0x2026

/-- A text as a dump shows it. -/
def dumpText (t : Text) : Text := "\"" ++ cutForDump (visibleControls t) ++ "\" #string"

/-- An integer as a dump shows it. -/
def dumpNat (n : Nat) : Text := Text.ofNat n ++ " #int"

/-- A statement, or the lack of one. -/
def dumpStmt : Option Stmt → Text
  | some s => s.text ++ " #parser.Stmt"
  | none => "parser.Stmt(nil)"

/-- Items in lines of their own, cut after the first hundred. -/
def dumpItems (indent : Nat) (items : List Text) : Text :=
  let margin : Text := List.replicate indent 32
  let line := fun (t : Text) => (margin ++ t ++ "\n" : Text)
  (items.take dumpLimit).flatMap line ++
    (if dumpLimit < items.length then line "... (truncated)" else [])

/-- A list between brackets, each item behind its index. -/
def dumpList (indent : Nat) (type : Text) (items : List Text) : Text :=
  let numbered := items.zipIdx.map fun (t, n) => (Text.ofNat n ++ " => " ++ t : Text)
  let margin : Text := List.replicate indent 32
  "#[]" ++ type ++ " [\n" ++ dumpItems (indent + 2) numbered ++ margin ++ "]"

/-- A table between braces. -/
def dumpTable (type : Text) (entries : Table Text) : Text :=
  let lines := entries.map fun (name, t) => (" " ++ name ++ " => " ++ t : Text)
  "#map[string]" ++ type ++ " \x7b\n" ++ dumpItems 4 lines ++ "  \x7d"

/-- The dump of a program. -/
def dump (p : Program) : Text :=
  let slots := p.slots.toList
  let redefined : Text :=
    if p.redefined.isEmpty then "map[string][]int(nil)"
    else dumpTable "[]int" (p.redefined.mapValues fun lines => dumpList 4 "int" (lines.map dumpNat))
  let body : Text :=
    "#*parser.Program \x7b\n" ++
    "  +Name\t=> " ++ dumpText p.name ++ "\n" ++
    "  +Labels\t=> " ++ dumpTable "int" (p.labels.mapValues dumpNat) ++ "\n" ++
    "  -stmts\t=> " ++ dumpList 2 "parser.Stmt" (slots.map fun s => dumpStmt s.stmt?) ++ "\n" ++
    "  -lineLabels\t=> " ++
      dumpList 2 "string" (slots.map fun s => dumpText (s.label?.getD [])) ++ "\n" ++
    "  -redefined\t=> " ++ redefined ++ "\n" ++
    "\x7d\n"
  "<#dump\n" ++ body.layout 0 1

end TinyLang.Command
