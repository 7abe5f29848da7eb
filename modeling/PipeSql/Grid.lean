/-! Drawing a table: a header and rows between lines. -/

namespace PipeSql.Grid

/-- The characters of a horizontal line: its ends, where it crosses columns, and the rest. -/
structure Rule where
  left : String
  fill : Char
  cross : String
  right : String

/-- The line above the header. -/
def top : Rule := ⟨"┌", '─', "┬", "┐"⟩

/-- The line below the header. -/
def below : Rule := ⟨"╞", '═', "╪", "╡"⟩

/-- The line between two rows. -/
def between : Rule := ⟨"├", '╌', "┼", "┤"⟩

/-- The line below all. -/
def bottom : Rule := ⟨"└", '─', "┴", "┘"⟩

/-- A horizontal line over columns of the given widths. -/
def Rule.draw (rule : Rule) (widths : List Nat) : String :=
  rule.left ++ rule.cross.intercalate (widths.map fun width => "".pushn rule.fill (width + 2)) ++
    rule.right

/-- The widths of the columns: that of their longest cell, and at least one. -/
def widths (header : List String) (rows : List (List String)) : List Nat :=
  (header :: rows).foldl (fun widths row => List.zipWith max widths (row.map String.length))
    (header.map fun _ => 1)

/-- A row of cells, which start at the left with a space on both sides. -/
def drawRow (widths : List Nat) (row : List String) : String :=
  "│" ++ "┆".intercalate (List.zipWith
    (fun width cell => " " ++ cell.pushn ' ' (width - cell.length + 1)) widths row) ++ "│"

/-- The lines of a table. -/
def lines (header : List String) (rows : List (List String)) : List String :=
  let widths := widths header rows
  let body := (rows.map (drawRow widths)).intersperse (between.draw widths)
  [top.draw widths, drawRow widths header, below.draw widths] ++ body ++ [bottom.draw widths]

end PipeSql.Grid
