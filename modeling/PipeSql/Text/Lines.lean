/-! Cutting a text into lines. -/

namespace PipeSql.Text

/-- The parts between marks; there is one more than there are marks. -/
def partsBetween [BEq α] (mark : α) : List α → List (List α)
  | [] => [[]]
  | a :: rest =>
    if a == mark then [] :: partsBetween mark rest
    else
      match partsBetween mark rest with
      | part :: parts => (a :: part) :: parts
      | [] => [[a]]

/-- A line without the carriage return at its end. -/
def withoutReturn (line : List Char) : List Char :=
  if line.getLast? = some '\r' then line.dropLast else line

/-- The lines of a text. A line feed, with or without a carriage return before it, ends a line;
behind the last one there may be a line without end. -/
def lines (text : List Char) : List (List Char) :=
  let parts := partsBetween '\n' text
  parts.dropLast.map withoutReturn ++ (parts.getLast?.filter (!·.isEmpty)).toList

end PipeSql.Text
