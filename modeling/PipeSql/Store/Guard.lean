import PipeSql.Text.Blank

/-! Statements that a store never runs. -/

namespace PipeSql.Store

open Text

/-- The words that start a refused statement. -/
def refusedWords : List String :=
  ["DROP", "ATTACH", "DETACH"]

/-- The word for which a statement is refused: in any case, behind blanks, with a space behind
it. -/
def refusedWord? (sql : String) : Option String :=
  let start := (sql.toList.dropWhile isBlank).map Char.toUpper
  refusedWords.find? fun word => (word.toList ++ [' ']).isPrefixOf start

end PipeSql.Store
