import TinyLang.Text.Quoted

/-!
# Diagnostics

What can go wrong in a program is a *cause* on a line. A cause belongs to one of four kinds, and a
malformed program has a reason of its own (`SyntaxFault`). A `Report` is the flat form that tools
see: a kind, a line, the name of a variable or label, and a reason. All wording is here.
-/

namespace TinyLang

/-- What is wrong with the form of a statement or expression. -/
inductive SyntaxFault
  | missingStatement
  | unknownStatement (word : Text)
  /-- An assignment that is not `let NAME = EXPR`. -/
  | assignForm
  /-- A branch that is not `if EXPR goto LABEL`. -/
  | branchForm
  /-- An input that is not `input NAME`. -/
  | inputForm
  /-- A piece of a print list with a quote that is not closed. -/
  | openQuote (piece : Text)
  | missingExpression
  /-- An expression of neither one nor three words. -/
  | termCount (count : Nat)
  | unknownOperator (word : Text)
  | notNumber (word : Text)
  | emptyLabel
  /-- A label with nothing behind it. -/
  | bareLabel (label : Text)
  /-- Quoted text where a number is needed. -/
  | textAsNumber (text : Text)
  /-- A hole in a tree where an expression is needed. -/
  | hole
deriving DecidableEq, Repr

/-- The wording of a syntax fault. -/
def SyntaxFault.reason : SyntaxFault → Text
  | missingStatement => "missing statement"
  | unknownStatement w => "unknown statement " ++ w.quoted
  | assignForm => "expected let NAME = EXPR"
  | branchForm => "expected if EXPR goto LABEL"
  | inputForm => "expected input NAME"
  | openQuote piece => "unterminated string " ++ piece
  | missingExpression => "missing expression"
  | termCount n => "expected 1 or 3 terms in expression, found " ++ Text.ofNat n
  | unknownOperator w => "unknown operator " ++ w.quoted
  | notNumber w => "invalid number " ++ w.quoted
  | emptyLabel => "empty label"
  | bareLabel l => "label " ++ l ++ " has no statement"
  | textAsNumber t => "string " ++ t ++ " used as a number"
  | hole => "unknown expression <nil>"

/-- Why a program cannot be loaded or cannot go on. -/
inductive Cause
  | malformed (fault : SyntaxFault)
  | undefinedVariable (name : Text)
  | illegalGoto (label : Text)
  | badInput
deriving DecidableEq, Repr

/-- A cause and the line it was met on. -/
structure Diagnostic where
  line : Int
  cause : Cause
deriving DecidableEq, Repr

/-! ## Reports -/

/-- The kind of a report. Codes past the four kinds can be given by hand. -/
inductive ReportKind
  | syntaxError
  | undefinedVariable
  | illegalGoto
  | inputError
  | unlisted (code : Int)
deriving DecidableEq, Repr

namespace ReportKind

/-- The kind with a code. -/
def ofCode : Int → ReportKind
  | 0 => syntaxError
  | 1 => undefinedVariable
  | 2 => illegalGoto
  | 3 => inputError
  | code => unlisted code

/-- The name of a kind. -/
def name : ReportKind → Text
  | syntaxError => "SyntaxError"
  | undefinedVariable => "UndefinedVariableError"
  | illegalGoto => "IllegalGotoError"
  | inputError => "InputError"
  | unlisted code => "Kind(" ++ Text.ofInt code ++ ")"

end ReportKind

/-- A diagnostic in flat form. -/
structure Report where
  kind : ReportKind
  line : Int
  name : Text
  reason : Text
deriving DecidableEq, Repr

namespace Report

/-- The message of a report. The reason is not part of it. -/
def message (r : Report) : Text :=
  match r.kind with
  | .undefinedVariable => "Undefined variable " ++ r.name ++ " at line " ++ Text.ofInt r.line ++ "."
  | .illegalGoto => "Illegal goto " ++ r.name ++ " at line " ++ Text.ofInt r.line ++ "."
  | .inputError => "Illegal or missing input at line " ++ Text.ofInt r.line ++ "."
  | _ => "Syntax error on line " ++ Text.ofInt r.line ++ "."

/-- The message, followed by the reason if there is one. -/
def detail (r : Report) : Text :=
  if r.reason.isEmpty then r.message else r.message ++ " (" ++ r.reason ++ ")"

end Report

namespace Diagnostic

/-- The flat form of a diagnostic. -/
def report (d : Diagnostic) : Report :=
  match d.cause with
  | .malformed fault => ⟨.syntaxError, d.line, "", fault.reason⟩
  | .undefinedVariable name => ⟨.undefinedVariable, d.line, name, ""⟩
  | .illegalGoto label => ⟨.illegalGoto, d.line, label, ""⟩
  | .badInput => ⟨.inputError, d.line, "", ""⟩

/-- The message of a diagnostic. -/
def message (d : Diagnostic) : Text := d.report.message

/-- The message of a diagnostic with its reason. -/
def detail (d : Diagnostic) : Text := d.report.detail

end Diagnostic

end TinyLang
