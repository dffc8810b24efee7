import TinyLang.Expr
import TinyLang.Text.Space

/-!
# Statements

A statement assigns, branches, prints or reads input. It knows the line it stands on. Its words
are recognised by the first one; a print list is put together again from its words and cut at
commas, so a comma inside quotes cuts too.
-/

namespace TinyLang

/-- An item of a print list: text between quotes, or an expression. -/
inductive PrintItem
  | literal (text : Text)
  | value (expr : Expr)
deriving DecidableEq, Repr

/-- What a statement does. -/
inductive Action
  /-- `let TARGET = EXPR` -/
  | assign (target : Text) (value : Expr)
  /-- `if EXPR goto LABEL` -/
  | branch (condition : Expr) (label : Text)
  /-- `print ITEM, ITEM, ...` -/
  | print (items : List PrintItem)
  /-- `input TARGET` -/
  | input (target : Text)
deriving DecidableEq, Repr

/-- An action on a line. -/
structure Stmt where
  line : Int
  action : Action
deriving DecidableEq, Repr

/-! ## Text -/

/-- The text of a print item. -/
def PrintItem.render : PrintItem → Except Defect Text
  | literal text => .ok ("\"" ++ text ++ "\"")
  | value expr => expr.render

/-- The text of an action. -/
def Action.render : Action → Except Defect Text
  | assign target value => do return "let " ++ target ++ " = " ++ (← value.render)
  | branch condition label => do return "if " ++ (← condition.render) ++ " goto " ++ label
  | print items => do return "print " ++ Text.join ", " (← items.mapM PrintItem.render)
  | input target => .ok ("input " ++ target)

/-- The text of a statement. -/
def Stmt.render (s : Stmt) : Except Defect Text := s.action.render

/-- The text of a statement, with a placeholder if it has none. -/
def Stmt.text (s : Stmt) : Text :=
  match s.render with
  | .ok t => t
  | .error d => d.placeholder

/-! ## From words -/

/-- The text between the first two double quotes of a text. -/
def betweenQuotes? (t : Text) : Option Text := do
  let (_, afterOpen) ← t.cut? (Text.byte '"')
  let (inside, _) ← afterOpen.cut? (Text.byte '"')
  return inside

/-- The print item that a piece between commas is. -/
def PrintItem.ofPiece (piece : Text) : Except SyntaxFault PrintItem :=
  if piece.contains (Text.byte '"') then
    match betweenQuotes? piece with
    | some text => .ok (.literal text)
    | none => .error (.openQuote piece.trim)
  else do return .value (← Expr.ofWords piece.words)

namespace Action

/-- `let NAME = EXPR`, from the words after the first. -/
def assignOfWords : List Text → Except SyntaxFault Action
  | target :: eq :: term :: rest =>
    if eq = "=" then do return .assign target (← Expr.ofWords (term :: rest))
    else .error .assignForm
  | _ => .error .assignForm

/-- `if EXPR goto LABEL`, from the words after the first. The word before the label may be any. -/
def branchOfWords (words : List Text) : Except SyntaxFault Action :=
  match words.reverse with
  | label :: _ :: term :: rest => do return .branch (← Expr.ofWords (term :: rest).reverse) label
  | _ => .error .branchForm

/-- `print ITEM, ITEM, ...`, from the words after the first. -/
def printOfWords (words : List Text) : Except SyntaxFault Action := do
  return .print (← ((Text.join " " words).pieces (Text.byte ',')).mapM PrintItem.ofPiece)

/-- `input NAME`, from the words after the first. -/
def inputOfWords : List Text → Except SyntaxFault Action
  | [target] => .ok (.input target)
  | _ => .error .inputForm

/-- The action that a sequence of words is. -/
def ofWords : List Text → Except SyntaxFault Action
  | [] => .error .missingStatement
  | first :: rest =>
    if first = "let" then assignOfWords rest
    else if first = "if" then branchOfWords rest
    else if first = "print" then printOfWords rest
    else if first = "input" then inputOfWords rest
    else .error (.unknownStatement first)

end Action

/-- A syntax fault as a diagnostic on a line. -/
def SyntaxFault.on (fault : SyntaxFault) (line : Int) : Diagnostic := ⟨line, .malformed fault⟩

/-- The statement that the words on a line are. -/
def Stmt.ofWords (words : List Text) (line : Int) : Except Diagnostic Stmt :=
  match Action.ofWords words with
  | .ok action => .ok ⟨line, action⟩
  | .error fault => .error (fault.on line)

end TinyLang
