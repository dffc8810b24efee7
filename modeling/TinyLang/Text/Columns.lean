import TinyLang.Text.Rune

/-!
# Columns

Text with tabs is laid out in columns: a tab ends a cell, and the cells of one column in lines that
follow each other get the same width. A line without a cell in a column ends that column's block. A
form feed ends a line and every block. A text between two bytes `0xFF` is passed through as it is.
-/

namespace TinyLang.Text

/-- A piece of a line, with the width that it takes. -/
structure Cell where
  text : Text
  width : Nat
deriving Repr

/-- How a line ends: with the block going on, or not. -/
inductive LineEnd
  | newline
  | formFeed
  | endOfText
deriving DecidableEq, Repr

/-- The cells of a line. -/
structure Row where
  cells : List Cell
  ending : LineEnd
deriving Repr

/-- Text being cut into cells: what has been read of the cell, newest byte first, the width that does
not count, and the cells before it, newest first. -/
structure CellReader where
  bytes : List UInt8 := []
  uncounted : Nat := 0
  cells : List Cell := []
  verbatim : Bool := false

namespace CellReader

/-- Ends the cell. -/
def closeCell (r : CellReader) : CellReader :=
  let text : Text := r.bytes.reverse
  { r with bytes := [], uncounted := 0, cells := ⟨text, text.runes.length - r.uncounted⟩ :: r.cells }

/-- The row that ends here. -/
def row (r : CellReader) (ending : LineEnd) : Row := ⟨r.closeCell.cells.reverse, ending⟩

/-- The rows of a text. -/
def rows : CellReader → Text → List Row
  | r, [] => [r.row .endOfText]
  | r, b :: rest =>
    if b = 0xFF then
      rows { r with
        bytes := b :: r.bytes, uncounted := r.uncounted + 1, verbatim := !r.verbatim } rest
    else if r.verbatim then rows { r with bytes := b :: r.bytes } rest
    else if b = byte '\t' || b = 0x0B then rows r.closeCell rest
    else if b = byte '\n' then r.row .newline :: rows {} rest
    else if b = 0x0C then r.row .formFeed :: rows {} rest
    else rows { r with bytes := b :: r.bytes } rest

end CellReader

/-- The lines of rows whose first cell is in a column: those before the first that has none. -/
def takeBlock : List Row → List Row × List Row
  | [] => ([], [])
  | r :: rest =>
    if r.cells.length < 2 then ([], r :: rest)
    else if r.ending = .formFeed then ([r], rest)
    else
      let (block, after) := takeBlock rest
      (r :: block, after)

/-- The text of rows. Columns are at least `least` wide, and `gap` wider than their cells. -/
def layoutRows (least gap : Nat) : (fuel : Nat) → List Row → List Text
  | 0, _ => []
  | fuel + 1, rows =>
    match takeBlock rows with
    | ([], []) => []
    | ([], r :: rest) => (r.cells.flatMap Cell.text) :: layoutRows least gap fuel rest
    | (block, rest) =>
      let width := block.foldl (fun w r => max w ((r.cells.head?.map (·.width + gap)).getD 0)) least
      let heads := block.map fun r => match r.cells with
        | c :: _ => c.text ++ List.replicate (width - c.width) 32
        | [] => []
      let tails := layoutRows least gap fuel (block.map fun r => { r with cells := r.cells.drop 1 })
      List.zipWith (· ++ ·) heads tails ++ layoutRows least gap fuel rest

/-- Lays a text out in columns. -/
def layout (least gap : Nat) (t : Text) : Text :=
  join "\n" (layoutRows least gap (2 * t.length + 2) (CellReader.rows {} t))

end TinyLang.Text
