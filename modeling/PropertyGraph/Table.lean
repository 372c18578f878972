import PropertyGraph.Text.Width

/-! Tables drawn with plain characters. A column is as wide as its widest line, with one
blank on either side; a cell may have several lines. A double rule follows the header
and a single rule stands between rows. -/

namespace PropertyGraph

structure Table where
  header : List String
  rows : List (List String)
deriving DecidableEq

namespace Table

def cellLines (cell : String) : List (List Char) := cell.toList.splitOn '\n'

/-- The columns that a cell needs. -/
def cellWidth (cell : String) : Nat := ((cellLines cell).map Width.ofChars).foldl max 0

def widths (t : Table) : List Nat :=
  (List.range t.header.length).map fun i =>
    ((t.header :: t.rows).map fun row => cellWidth (row.getD i "")).foldl max 0

/-- A line filled up with blanks. -/
def pad (width : Nat) (line : List Char) : List Char :=
  line ++ List.replicate (width - Width.ofChars line) ' '

/-! ### Lines -/

def row (widths : List Nat) (cells : List String) : List (List Char) :=
  let columns := cells.map cellLines
  let height := (columns.map List.length).foldl max 0
  (List.range height).map fun k =>
    let line := List.zipWith (fun w lines => pad w (lines.getD k [])) widths columns
    "| ".toList ++ " | ".toList.intercalate line ++ " |".toList

/-- A line of dashes with a plus sign between columns. -/
def rule (edge : Char) (widths : List Nat) : List Char :=
  edge :: (['+'].intercalate (widths.map fun w => List.replicate (w + 2) '-') ++ [edge])

def headerRule (widths : List Nat) : List Char :=
  '+' :: (List.replicate (widths.foldl (· + · + 3) 0 - 1) '=' ++ ['+'])

def lines (t : Table) : List (List Char) :=
  let ws := t.widths
  let body := [rule '|' ws].intercalate (t.rows.map (row ws))
  [rule '+' ws] ++ row ws t.header ++ [headerRule ws] ++ body ++ [rule '+' ws]

def draw (t : Table) : String := String.ofList (['\n'].intercalate t.lines)

end Table

end PropertyGraph
