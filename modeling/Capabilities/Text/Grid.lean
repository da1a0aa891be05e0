import Capabilities.Text.Blank
import Capabilities.Text.Width

/-!
# Grids of text

A grid shows rows of cells in columns, with a rule of dashes before and after every row. A column
is as wide as its widest line; a cell with several lines makes its row as high as it has lines.
-/

namespace Capabilities.Text

abbrev GridRow := List (List (List Char))

def gridRow (cells : List String) : GridRow := cells.map fun cell => split '\n' cell.toList

def cellWidth (cell : List (List Char)) : Nat := (cell.map width).foldl max 0

def widen : List Nat → List Nat → List Nat
  | [], others => others
  | widths, [] => widths
  | width :: widths, other :: others => max width other :: widen widths others

def columnWidths (rows : List GridRow) : List Nat :=
  (rows.map (·.map cellWidth)).foldl widen []

def gridRule (widths : List Nat) : List Char :=
  '+' :: widths.flatMap fun width => List.replicate (width + 2) '-' ++ ['+']

def gridCell (columns : Nat) (line : List Char) : List Char :=
  ' ' :: line ++ List.replicate (columns - width line + 1) ' ' ++ ['|']

def gridLines (widths : List Nat) (row : GridRow) : List (List Char) :=
  let height := (row.map List.length).foldl max 0
  (List.range height).map fun index =>
    '|' :: (widths.zip row).flatMap fun (columns, cell) => gridCell columns (cell[index]?.getD [])

def grid (rows : List (List String)) : String :=
  let rows := rows.map gridRow
  let widths := columnWidths rows
  let rule := gridRule widths
  String.ofList (joinLines (rule :: rows.flatMap fun row => gridLines widths row ++ [rule]))

end Capabilities.Text
