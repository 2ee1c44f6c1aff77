import Whiteboard.Text.Lines

namespace Whiteboard
namespace Text

/-!
Columns whose width follows their cells.  A tab ends a cell.  A column is a run of lines that all
have a cell there; the text after the last tab of a line belongs to no column.
-/

def hasCell (column : Nat) (cells : List (List Char)) : Bool :=
  column + 1 < cells.length

def fillCells : List Nat → List (List Char) → List Char
  | _, [] => []
  | [], c :: cs => c ++ fillCells [] cs
  | w :: ws, c :: cs => c ++ List.replicate (w - c.length) ' ' ++ fillCells ws cs

/-- The lines of a block in which the columns before `column` have widths already; `bound` limits
the number of columns. -/
def fillBlock (padding : Nat) : Nat → List Nat → List (List (List Char)) → List (List Char)
  | 0, widths, block => block.map (fillCells widths)
  | bound + 1, widths, block =>
    let column := widths.length
    let runs := block.splitBy fun a b => hasCell column a == hasCell column b
    runs.flatMap fun run =>
      if run.all (hasCell column) then
        let width := (run.map fun cells => ((cells[column]?).getD []).length + padding).foldl max 0
        fillBlock padding bound (widths ++ [width]) run
      else run.map (fillCells widths)

def endsCell (c : Char) : Bool := c == '\t' || c == '\x0b'

def endsLine (c : Char) : Bool := c == '\n' || c == '\x0c'

def inColumns (padding : Nat) (s : String) : String :=
  let lines := (splitWhere endsLine s.toList).map (splitWhere endsCell)
  let most := (lines.map List.length).foldl max 0
  joinWith "\n" ((fillBlock padding most [] lines).map String.ofList)

end Text
end Whiteboard
