import TinyLang.Program

/-!
# Findings

Likely mistakes that can be seen without running a program: a branch to a label that no line
carries, a label definition that a later one replaces, and a variable that is read but never
assigned. They are advice only: a program that loads can run, and a mistake on a path never taken
stops nothing.

`Usage` records where names are assigned, read and jumped to; `Program.findings` lists the findings
in the order of their lines, and of their messages on one line.
-/

namespace TinyLang

/-- A likely mistake. -/
inductive Issue
  /-- A branch to a label that no line carries. -/
  | missingLabel (label : Text)
  /-- A label that stands again on a later line, which is the last. -/
  | replacedLabel (label : Text) (last : Nat)
  /-- A variable that is read and never assigned. -/
  | unassigned (name : Text)
deriving DecidableEq, Repr

/-- The wording of an issue. -/
def Issue.message : Issue → Text
  | missingLabel label => "goto target " ++ label.quoted ++ " is never defined"
  | replacedLabel label last =>
    "label " ++ label.quoted ++ " is redefined on line " ++ Text.ofNat last
  | unassigned name => "variable " ++ name.quoted ++ " is never assigned"

/-- An issue on a line. -/
structure Finding where
  line : Nat
  issue : Issue
deriving DecidableEq, Repr

namespace Finding

/-- The text of a finding. -/
def text (f : Finding) : Text := "line " ++ Text.ofNat f.line ++ ": " ++ f.issue.message

/-- Whether a finding is listed before another: by line, then by message. -/
def precedes (f g : Finding) : Bool :=
  f.line < g.line || (f.line == g.line && f.issue.message.before g.issue.message)

/-- Puts a finding at its place in a list. -/
def place (f : Finding) : List Finding → List Finding
  | [] => [f]
  | g :: rest => if g.precedes f then g :: place f rest else f :: g :: rest

/-- Lists findings in order. -/
def sorted (fs : List Finding) : List Finding := fs.foldr place []

end Finding

/-! ## Where names are used -/

/-- The variable that an action assigns. -/
def Action.target? : Action → Option Text
  | assign target _ => some target
  | input target => some target
  | _ => none

/-- The variables that an action reads, in order. -/
def Action.reads : Action → List Text
  | assign _ e => e.reads
  | branch c _ => c.reads
  | print items => items.flatMap fun
    | .literal _ => []
    | .value e => e.reads
  | input _ => []

/-- The label that an action may jump to. -/
def Action.goto? : Action → Option Text
  | branch _ label => some label
  | _ => none

/-- Where names are assigned, read and jumped to. A line stands as often as it uses the name. -/
structure Usage where
  assigned : Table (List Nat)
  read : Table (List Nat)
  gotos : Table (List Nat)
deriving DecidableEq, Repr

namespace Program

/-- Collects the lines of the names that each statement gives. -/
def linesOf (p : Program) (names : Action → List Text) : Table (List Nat) :=
  Table.gather (p.statements.flatMap fun (line, s) => (names s.action).map fun n => (n, line))

/-- Where a program uses names. -/
def usage (p : Program) : Usage where
  assigned := p.linesOf fun a => a.target?.toList
  read := p.linesOf Action.reads
  gotos := p.linesOf fun a => a.goto?.toList

/-- The branches to labels that no line carries. -/
def missingLabels (p : Program) : List Finding :=
  let labels := p.labels
  p.usage.gotos.flatMap fun (label, lines) =>
    if labels.has label then [] else lines.map fun line => ⟨line, .missingLabel label⟩

/-- The label definitions that a later one replaces. -/
def replacedLabels (p : Program) : List Finding :=
  p.redefined.flatMap fun (label, lines) =>
    lines.dropLast.map fun line => ⟨line, .replacedLabel label (lines.getLast?.getD 0)⟩

/-- The first reads of variables that are never assigned. -/
def unassignedReads (p : Program) : List Finding :=
  let used := p.usage
  used.read.flatMap fun (name, lines) =>
    if used.assigned.has name then [] else (lines.take 1).map fun line => ⟨line, .unassigned name⟩

/-- The findings of a program, in order. -/
def findings (p : Program) : List Finding :=
  Finding.sorted (p.missingLabels ++ p.replacedLabels ++ p.unassignedReads)

end Program

end TinyLang
