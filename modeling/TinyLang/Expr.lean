import TinyLang.Operator
import TinyLang.Diagnostic
import TinyLang.Text.Letter
import TinyLang.Number.Reader

/-!
# Expressions

An expression is a single term, or one operator between two terms: there is no nesting and no
precedence. A term is one word and is a variable if it starts with a letter, quoted text if it
holds a double quote, and a number otherwise. Quoted text may stand where a term stands but has no
value.

Trees built by hand are freer than what words give: they nest, and may have holes and unlisted
operators. What such a tree cannot do is a `Defect`.
-/

namespace TinyLang

/-- An expression. -/
inductive Expr
  | var (name : Text)
  /-- A number, as its text. -/
  | number (text : Text)
  /-- Quoted text, its quotes included. -/
  | quotation (text : Text)
  | binary (op : Operator) (left right : Expr)
  /-- Nothing where an expression should be. -/
  | hole
deriving DecidableEq, Repr, Inhabited

/-- What a tree built by hand cannot do. -/
inductive Defect
  /-- A hole has no text. -/
  | emptyTree
  /-- A negative operator code has no text. -/
  | negativeCode (code : Int)
  /-- An unlisted operator has no value. -/
  | noSuchOperator
deriving DecidableEq, Repr

/-- The wording of a defect. -/
def Defect.message : Defect → Text
  | emptyTree => "runtime error: invalid memory address or nil pointer dereference"
  | negativeCode code => "runtime error: index out of range [" ++ Text.ofInt code ++ "]"
  | noSuchOperator => "interp: unknown operator ?"

/-- How a defect met while text is being put together is shown in place of the text. -/
def Defect.placeholder (d : Defect) : Text := "%!s(PANIC=String method: " ++ d.message ++ ")"

namespace Operator

/-- The text of an operator. -/
def render (op : Operator) : Except Defect Text :=
  match op.spelling? with
  | some t => .ok t
  | none => .error (.negativeCode op.code)

end Operator

namespace Expr

/-- The text of an expression, its parts separated by single spaces. -/
def render : Expr → Except Defect Text
  | var name => .ok name
  | number text => .ok text
  | quotation text => .ok text
  | binary op left right => do
    let l ← left.render
    let o ← op.render
    let r ← right.render
    return l ++ " " ++ o ++ " " ++ r
  | hole => .error .emptyTree

/-- The variables that an expression reads, from left to right. -/
def reads : Expr → List Text
  | var name => [name]
  | binary _ left right => left.reads ++ right.reads
  | _ => []

/-! ## From words -/

/-- The term that a word is. -/
def ofTerm (word : Text) : Except SyntaxFault Expr :=
  if word.startsWithLetter then .ok (.var word)
  else if word.contains (Text.byte '"') then .ok (.quotation word)
  else match Number.read? word with
    | some _ => .ok (.number word)
    | none => .error (.notNumber word)

/-- The expression that a sequence of words is. -/
def ofWords (words : List Text) : Except SyntaxFault Expr :=
  match words with
  | [] => .error .missingExpression
  | [term] => ofTerm term
  | [left, op, right] =>
    match Operator.ofWord? op with
    | none => .error (.unknownOperator op)
    | some o => do
      let l ← ofTerm left
      let r ← ofTerm right
      return .binary o l r
  | _ => .error (.termCount words.length)

end Expr

end TinyLang
