import TinyLang.Text.Basic

/-!
# Tables

A table maps names to values. It is an association list in the byte order of its names, each name
once, so that two tables with the same entries are the same list and listing a table needs no
sorting.
-/

namespace TinyLang

/-- A map from names to values, in the order of the names. -/
abbrev Table (α : Type) := List (Text × α)

namespace Table

variable {α : Type}

/-- The value of a name. -/
def find? : Table α → Text → Option α
  | [], _ => none
  | (n, v) :: rest, name => if n = name then some v else find? rest name

/-- Whether a name has a value. -/
def has (t : Table α) (name : Text) : Bool := (t.find? name).isSome

/-- Gives a name a value, in place of any it had. -/
def insert : Table α → Text → α → Table α
  | [], name, v => [(name, v)]
  | (n, w) :: rest, name, v =>
    if n = name then (name, v) :: rest
    else if name.before n then (name, v) :: (n, w) :: rest
    else (n, w) :: insert rest name v

/-- The table of a sequence of entries. A later entry replaces an earlier one of its name. -/
def ofEntries (entries : List (Text × α)) : Table α :=
  entries.foldl (fun t (name, v) => insert t name v) []

/-- Applies a function to every value. -/
def mapValues {β : Type} (f : α → β) (t : Table α) : Table β := t.map fun (name, v) => (name, f v)

/-- Collects the values of a sequence of entries by name, in the sequence's order. -/
def gather (entries : List (Text × α)) : Table (List α) :=
  entries.foldl (fun t (name, v) => insert t name ((find? t name).getD [] ++ [v])) []

/-! ## Reading after writing -/

theorem find?_insert_self (t : Table α) (name : Text) (v : α) :
    (t.insert name v).find? name = some v := by
  induction t with
  | nil => simp [insert, find?]
  | cons e rest ih =>
    simp only [insert]
    split
    · simp [find?]
    · split
      · simp [find?]
      · simp [find?, *]

theorem find?_insert_of_ne (t : Table α) {name other : Text} (v : α) (h : other ≠ name) :
    (t.insert name v).find? other = t.find? other := by
  have h' : ¬ name = other := fun e => h e.symm
  induction t with
  | nil => simp [insert, find?, h']
  | cons e rest ih =>
    simp only [insert]
    split
    · simp_all [find?]
    · split
      · simp [find?, h']
      · simp [find?, ih]

end Table

end TinyLang
