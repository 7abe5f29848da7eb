import PipeSql.Query.Clean
import PipeSql.Query.Error

/-!
Cutting a query into stages at the bars outside text literals and parentheses. Two bars in a row
are an operator and cut nothing. A text that starts with the word `select` is SQL already.
-/

namespace PipeSql.Query

open PipeSql.Text

/-- A query text: SQL to be passed on as it is, or the texts of its stages. -/
inductive Split where
  | sql (text : List Char)
  | stages (texts : List (List Char))
  deriving DecidableEq, Repr

/-- Puts characters in front of the first piece. -/
def prepend (cs : List Char) : List (List Char) → List (List Char)
  | [] => [cs]
  | piece :: pieces => (cs ++ piece) :: pieces

/-- The pieces of a text that starts in the literal opened by `quote?`, if any, and inside `depth`
parentheses. A closing parenthesis that none opened leaves the depth at zero. -/
def piecesFrom (quote? : Option Char) (depth : Nat) : List Char → List (List Char)
  | [] => [[]]
  | c :: rest =>
    match quote?, c, rest with
    | some quote, '\\', d :: rest => prepend ['\\', d] (piecesFrom (some quote) depth rest)
    | some quote, c, rest =>
      prepend [c] (piecesFrom (if c = quote then none else some quote) depth rest)
    | none, '|', '|' :: rest => prepend ['|', '|'] (piecesFrom none depth rest)
    | none, '|', rest =>
      if depth = 0 then [] :: piecesFrom none depth rest
      else prepend ['|'] (piecesFrom none depth rest)
    | none, '(', rest => prepend ['('] (piecesFrom none (depth + 1) rest)
    | none, ')', rest => prepend [')'] (piecesFrom none (depth - 1) rest)
    | none, c, rest =>
      prepend [c] (piecesFrom (if c = '"' || c = '\'' then some c else none) depth rest)

/-- The pieces between the bars that cut a text. -/
def pieces (cs : List Char) : List (List Char) :=
  piecesFrom none 0 cs

/-- A text is SQL when the word `select`, in any case, stands at its start, with nothing, a blank,
a star or a parenthesis behind it. -/
def isSql (cs : List Char) : Bool :=
  (cs.take 6).map Char.toLower == "select".toList &&
    (cs.drop 6).head?.all fun c => isBlank c || c == '*' || c == '('

/-- The stages of a query, or the SQL that it is. Empty pieces are dropped; there has to be
another. -/
def split (cs : List Char) : Except Error Split :=
  let query := clean cs
  if query.isEmpty then .error .emptyQuery
  else if isSql query then .ok (.sql query)
  else
    let stages := ((pieces query).map trim).filter fun stage => !stage.isEmpty
    if stages.isEmpty then .error .emptyQuery else .ok (.stages stages)

end PipeSql.Query
