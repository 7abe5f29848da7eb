/-!
Patterns of `like`: `%` stands for any text and `_` for any character, unless a backslash stands
before them. The string operators write their operand as a pattern that matches it literally.
-/

namespace PipeSql.Query

/-- The characters that a pattern does not match literally. -/
def isWildcard (c : Char) : Bool :=
  c == '%' || c == '_' || c == '\\'

/-- A text as a pattern: a backslash stands before each wildcard and backslash. -/
def escapedPattern : List Char → List Char
  | [] => []
  | c :: rest => if isWildcard c then '\\' :: c :: escapedPattern rest else c :: escapedPattern rest

/-- How a text is searched in another. -/
inductive Search where
  | contains | startsWith | endsWith
  deriving DecidableEq, Repr

/-- The pattern that a search for a text matches with. -/
def Search.pattern (search : Search) (needle : String) : String :=
  let literal := escapedPattern needle.toList
  String.ofList <|
    match search with
    | .contains => '%' :: literal ++ ['%']
    | .startsWith => literal ++ ['%']
    | .endsWith => '%' :: literal

end PipeSql.Query
