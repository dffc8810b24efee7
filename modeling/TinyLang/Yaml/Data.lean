import TinyLang.Yaml.Value
import TinyLang.Number.Printer
import TinyLang.Text.Quoted

/-!
# Data

What a node is when nothing says what it should be: the value of a scalar, a list, or a table with its
entries in the order of the document. A table whose keys are all texts is of a type of its own.
-/

namespace TinyLang.Yaml

/-- The data of a node. -/
inductive Data
  | value (v : Value)
  | list (items : List Data)
  | table (textual : Bool) (entries : List (Data × Data))
deriving Repr, Inhabited

namespace Data

/-- Data that is a text. -/
def ofText (t : Text) : Data := .value (.text t)

/-- The type of a list. -/
def listType : Text := "[]interface {}"

/-- The type of a table. -/
def tableType (textual : Bool) : Text :=
  if textual then "map[string]interface {}" else "map[interface {}]interface {}"

/-- The type of a collection. -/
def collectionType? : Data → Option Text
  | value _ => none
  | list _ => some listType
  | table textual _ => some (tableType textual)

/-- Whether two keys are the same. Numbers of different kinds are not, and what is no number is not
even the same as itself. -/
def sameKey : Data → Data → Bool
  | value (.float v), value (.float w) => v.equal w
  | value (.timestamp s), value (.timestamp t) => s.sameKey t
  | value v, value w => v == w
  | _, _ => false

/-! ## Literals -/

/-- A decimal number in the fewest digits: in fixed notation if its decimal exponent is from -4 to 5. -/
def numberLiteral (v : Number) : Text :=
  if v.isNaN then "NaN"
  else if v.isInfinite then if v.isNegative then "-Inf" else "+Inf"
  else if v.isZero then v.signText ++ "0"
  else
    let (n, k) := v.shortest
    let ds := Text.ofNat n
    let e := k + ds.length - 1
    v.signText ++
      if e < -4 || 5 < e then pointAfterFirst ds ++ exponentText e
      else if 0 ≤ k then ds ++ List.replicate k.toNat (Text.byte '0')
      else fixedText ds k

/-- The literal of a value. -/
def valueLiteral : Value → Text
  | .null => "interface {}(nil)"
  | .bool b => if b then "true" else "false"
  | .int n => if n < 0x8000000000000000 then Text.ofInt n else "0x" ++ Text.ofNatHex 1 n.toNat
  | .float v => numberLiteral v
  | .timestamp t => t.literal
  | .text t => t.quoted

/-- The place of a kind of key among the others. -/
def keyRank : Data → Nat
  | value .null => 0
  | value (.bool _) => 1
  | value (.float _) => 2
  | value (.int _) => 3
  | value (.text _) => 4
  | _ => 5

/-- The order of keys. -/
def keyLE (a b : Data) : Bool :=
  match a, b with
  | value (.bool x), value (.bool y) => !x || y
  | value (.int m), value (.int n) => m ≤ n
  | value (.float v), value (.float w) => v.isNaN || v.atMost w
  | value (.text s), value (.text t) => !Text.before t s
  | a, b => keyRank a ≤ keyRank b

mutual

/-- Data with the types of its collections; tables are sorted by their keys. -/
def literal : Data → Text
  | value v => valueLiteral v
  | list items => listType ++ "\x7b" ++ Text.join ", " (listLiterals items) ++ "\x7d"
  | table textual entries =>
    let sorted := (entryLiterals entries).mergeSort fun a b => keyLE a.1 b.1
    tableType textual ++ "\x7b" ++ Text.join ", " (sorted.map Prod.snd) ++ "\x7d"

/-- The literals of items. -/
def listLiterals : List Data → List Text
  | [] => []
  | d :: rest => d.literal :: listLiterals rest

/-- The literals of entries, each with its key. -/
def entryLiterals : List (Data × Data) → List (Data × Text)
  | [] => []
  | (key, d) :: rest => (key, key.literal ++ ":" ++ d.literal) :: entryLiterals rest

end

end Data

end TinyLang.Yaml
