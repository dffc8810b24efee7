import TinyLang.Text.Basic
import TinyLang.Number.Basic

/-!
# Operators

The ten binary operators, four of arithmetic and six of comparison. A tree built by hand may also
carry a code outside the ten (`unlisted`); no source text does.
-/

namespace TinyLang

/-- A binary operator. -/
inductive Operator
  | add
  | sub
  | mul
  | div
  | less
  | greater
  | lessEq
  | greaterEq
  | equal
  | notEqual
  /-- A code that names none of the ten. -/
  | unlisted (code : Int)
deriving DecidableEq, Repr

namespace Operator

/-- The ten operators with their spelling, in the order of their codes. -/
def spellings : List (Operator × String) :=
  [(add, "+"), (sub, "-"), (mul, "*"), (div, "/"), (less, "<"), (greater, ">"), (lessEq, "<="),
    (greaterEq, ">="), (equal, "=="), (notEqual, "!=")]

/-- The operator with a code. -/
def ofCode (code : Int) : Operator :=
  if code < 0 then unlisted code
  else match spellings[code.toNat]? with
    | some (op, _) => op
    | none => unlisted code

/-- The code of an operator. -/
def code : Operator → Int
  | add => 0
  | sub => 1
  | mul => 2
  | div => 3
  | less => 4
  | greater => 5
  | lessEq => 6
  | greaterEq => 7
  | equal => 8
  | notEqual => 9
  | unlisted c => c

/-- The operator that a word spells. -/
def ofWord? (w : Text) : Option Operator :=
  (spellings.find? fun (_, s) => Text.ofString s = w).map Prod.fst

/-- The operators whose result is a truth value; codes past the ten count as such. -/
def isComparison (op : Operator) : Bool := 4 ≤ op.code

/-- The spelling of an operator. A code past the ten is shown as a question mark, and a negative
one cannot be shown. -/
def spelling? : Operator → Option Text
  | unlisted c => if c < 0 then none else some "?"
  | op => (spellings.lookup op).map Text.ofString

/-- Applies an operator to two numbers; a comparison gives one for true and zero for false. -/
def result? : Operator → Number → Number → Option Number
  | add, a, b => some (a.add b)
  | sub, a, b => some (a.sub b)
  | mul, a, b => some (a.mul b)
  | div, a, b => some (a.div b)
  | less, a, b => some (.ofBool (a.less b))
  | greater, a, b => some (.ofBool (b.less a))
  | lessEq, a, b => some (.ofBool (a.atMost b))
  | greaterEq, a, b => some (.ofBool (b.atMost a))
  | equal, a, b => some (.ofBool (a.equal b))
  | notEqual, a, b => some (.ofBool (!a.equal b))
  | unlisted _, _, _ => none

end Operator

end TinyLang
