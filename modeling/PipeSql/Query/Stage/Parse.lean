import PipeSql.Query.Commas
import PipeSql.Query.Expr.Parse
import PipeSql.Query.Stage
import PipeSql.Text.Count

/-!
Parsing stages: a word that names the stage, and its arguments behind it. The first stage of a
pipeline is the name of a table instead.
-/

namespace PipeSql.Query

open PipeSql.Text

/-- The name of a table: letters, numeric characters, `_`, `-` and `.`, or any name in quotes and
brackets. -/
def tableName? (text : List Char) : Option String :=
  let name := trim text
  if name.head? = some '[' then
    match tokens name with
    | .ok [⟨.quotedIdent inner, _, _⟩] => if inner.isEmpty then none else some inner
    | _ => none
  else if name != [] && name.all fun c => isAlphanumeric c || c == '_' || c == '-' || c == '.' then
    some (String.ofList name)
  else none

/-- The first stage of a pipeline. -/
def parseSource (text : List Char) : Except Error Stage :=
  match tableName? text with
  | some table => .ok (.source table)
  | none => .error (.badSource (String.ofList text))

section Arguments

/-! The arguments of a stage are a text, whose tokens are read in parts. -/

variable (arguments : List Char)

/-- A misfit that quotes all of the arguments. -/
def misfitWhole (position : Nat) : Error :=
  .unexpected (trim arguments) position

/-- A misfit that quotes a part of the arguments, at its start. -/
def misfitPart (part : List Token) : Error :=
  .unexpected (sourceOf arguments part) ((part.head?.map Token.start).getD 0)

/-- The tokens of the arguments; there has to be one. -/
def someTokens : Except Error (List Token) := do
  let ts ← tokens arguments
  if ts.isEmpty then
    .error (.misfit (.missingArguments (String.ofList (trim arguments))) (byteSize arguments))
  else .ok ts

/-- The items of a list, none of which may be empty. An empty item is reported at the comma that
opens or closes its slot. -/
def listItems (ts : List Token) : Except Error (List (List Token)) :=
  let items := splitCommas ts
  match items.findIdx? List.isEmpty with
  | none => .ok items
  | some i =>
    let comma := (ts.filter fun token => token.kind == .comma)[i - 1]?
    .error (misfitWhole arguments ((comma.map Token.start).getD 0))

/-- The name and the tokens of its value in `name = value`. -/
def assignment? : List Token → Option (String × List Token)
  | name :: sign :: value =>
    if sign.kind = .assign ∧ value ≠ [] then name.name?.map fun n => (n, value) else none
  | _ => none

/-- The tokens of the value and the label in `value as label`. -/
def labelled? (item : List Token) : Option (List Token × String) :=
  match item.reverse with
  | label :: word :: value =>
    if word.isKeyword "as" then label.name?.map fun n => (value.reverse, n) else none
  | _ => none

/-- The column that a single token names. -/
def column? : List Token → Option Column
  | [⟨.ident name, _, _⟩] => some (.ofPath name)
  | [⟨.quotedIdent name, _, _⟩] => some (.bare name)
  | _ => none

/-- An output of `project`. -/
def parseProjection (item : List Token) : Except Error Projection :=
  match assignment? item with
  | some (label, value) => return ⟨← Expr.ofTokens arguments value, some label⟩
  | none =>
    match labelled? item with
    | some (value, label) => return ⟨← Expr.ofTokens arguments value, some label⟩
    | none => return ⟨← Expr.ofTokens arguments item, none⟩

/-- A name to leave out. -/
def parseRemoved (item : List Token) : Except Error String :=
  match item with
  | [token] =>
    match token.name? with
    | some name => .ok name
    | none => .error (misfitPart arguments item)
  | _ => .error (misfitPart arguments item)

/-- A column that `extend` adds. -/
def parseAssignment (item : List Token) : Except Error Assignment :=
  match assignment? item with
  | some (name, value) => return ⟨name, ← Expr.ofTokens arguments value⟩
  | none => .error (misfitPart arguments item)

/-- A column to sort by, in the direction that stands behind it or else in the given one. -/
def parseSortKey (direction : Direction) (item : List Token) : Except Error SortKey :=
  let key? : Option SortKey :=
    match item with
    | [token] => (column? [token]).map (⟨·, direction⟩)
    | [token, word] =>
      if word.isKeyword "asc" then (column? [token]).map (⟨·, .ascending⟩)
      else if word.isKeyword "desc" then (column? [token]).map (⟨·, .descending⟩)
      else none
    | _ => none
  match key? with
  | some key => .ok key
  | none => .error (misfitPart arguments item)

/-- The name of an aggregate that is given none. -/
def defaultLabel (function : String) : List Expr → String
  | [.column c] => function ++ "_" ++ c.name
  | _ => function ++ "_"

/-- An aggregate: a call, maybe with a name for its output. -/
def parseAggregate (item : List Token) : Except Error Aggregate :=
  if item.isEmpty then .error (.badAggregate (String.ofList (trim arguments)))
  else
    let (label?, call) :=
      match assignment? item with
      | some (label, value) => (some label, value)
      | none => (none, item)
    match Expr.ofTokens arguments call with
    | .ok (.call function args) => .ok ⟨label?.getD (defaultLabel function args), function, args⟩
    | _ => .error (.badAggregate (String.ofList (sourceOf arguments item)))

/-- A column to group by. -/
def parseGroup (item : List Token) : Except Error Column :=
  match column? item with
  | some column => .ok column
  | none => .error (.badAggregate (String.ofList (sourceOf arguments item)))

/-- The tokens before and behind the first `by` outside parentheses. -/
def splitAtBy (depth : Nat) : List Token → Option (List Token × List Token)
  | [] => none
  | token :: rest =>
    let inner := nesting depth token.kind
    if inner = 0 ∧ token.isKeyword "by" then some ([], rest)
    else (splitAtBy inner rest).map fun (before, behind) => (token :: before, behind)

/-- The arguments of `summarize`: aggregates, groups, or both. -/
def parseSummarize : Except Error Stage := do
  let ts ← tokens arguments
  let whole := .badAggregate ("summarize" ++ String.ofList arguments)
  let (aggregateTokens, groupTokens?) :=
    match splitAtBy 0 ts with
    | some (before, behind) => (before, some behind)
    | none => (ts, none)
  let aggregates ←
    if aggregateTokens.isEmpty then pure []
    else (splitCommas aggregateTokens).mapM (parseAggregate arguments)
  let groups ←
    match groupTokens? with
    | none => pure []
    | some [] => .error whole
    | some groupTokens => (splitCommas groupTokens).mapM (parseGroup arguments)
  if aggregates.isEmpty && groups.isEmpty then .error whole
  else .ok (.summarize aggregates groups)

/-- The arguments of `order`. -/
def parseOrderBy : Except Error Stage := do
  match ← tokens arguments with
  | [] => .error (.misfit .missingBy (byteSize arguments))
  | word :: keys =>
    if word.isKeyword "by" && !keys.isEmpty then
      return .orderBy (← (← listItems arguments keys).mapM (parseSortKey arguments .ascending))
    else .error (misfitWhole arguments word.start)

/-- A positive number of rows. -/
def rowCount? (digits : List Char) : Option Nat :=
  (count? digits).filter (0 < ·)

/-- The arguments of `limit` and `take`. -/
def parseRowCount (stage : List Char) : Except Error Nat :=
  match rowCount? (trim arguments) with
  | some n => .ok n
  | none => .error (.badRowCount (String.ofList stage))

/-- The arguments of `top`. -/
def parseTop (stage : List Char) : Except Error Stage := do
  match ← tokens arguments with
  | [] => .error (.badRowCount (String.ofList stage))
  | token :: rest =>
    let count? :=
      match token.kind with
      | .number digits => rowCount? digits.toList
      | _ => none
    match count?, rest with
    | none, _ => .error (.badRowCount (String.ofList stage))
    | some _, [] => .error (.misfit (.missingByIn (String.ofList stage)) (byteSize arguments))
    | some count, word :: key =>
      if word.isKeyword "by" && !key.isEmpty then
        return .top count (← parseSortKey arguments .descending key)
      else .error (.unexpected (dropBytes word.start arguments) word.start)

/-- The kind of join that a word names. -/
def joinKind? (word : String) : Option JoinKind :=
  match word.toLower with
  | "inner" | "innerunique" => some .inner
  | "leftouter" | "left" => some .left
  | _ => none

/-- The kind of join, and the tokens behind it. -/
def parseJoinKind : List Token → Except Error (JoinKind × List Token)
  | word :: sign :: value :: rest =>
    if word.isKeyword "kind" && sign.kind == .assign then
      match value.name?.bind joinKind? with
      | some kind => .ok (kind, rest)
      | none => .error (.unexpected (value.source arguments) value.start)
    else .ok (.inner, word :: sign :: value :: rest)
  | ts => .ok (.inner, ts)

/-- A text without the parentheses around it. -/
def unwrapped (text : List Char) : List Char :=
  match text with
  | '(' :: inner => if inner.getLast? = some ')' then inner.dropLast else text
  | _ => text

/-- The name of a key column: a name without table. -/
def joinKey? : List Token → Option String
  | [⟨.ident name, _, _⟩] => if name.toList.contains '.' then none else some name
  | [⟨.quotedIdent name, _, _⟩] => some name
  | _ => none

/-- The condition of a join: key columns when it is a list of names, or else an expression. -/
def parseJoinCondition (ts : List Token) : Except Error JoinCondition :=
  match (splitCommas ts).mapM joinKey? with
  | some names => .ok (.keys names)
  | none => return .condition (← Expr.ofTokens arguments ts)

/-- The arguments of `join`. -/
def parseJoin : Except Error Stage := do
  let ts ← someTokens arguments
  let (kind, ts) ← parseJoinKind arguments ts
  let tableTokens := ts.takeWhile fun token => !token.isKeyword "on"
  match ts.dropWhile fun token => !token.isKeyword "on" with
  | [] => .error (.misfit (.missingOn (String.ofList (trim arguments))) (byteSize arguments))
  | _ :: conditionTokens =>
    let tableText := unwrapped (sourceOf arguments tableTokens)
    match tableName? tableText with
    | none =>
      .error (.unexpected tableText ((tableTokens.head?.map Token.start).getD 0))
    | some table =>
      if conditionTokens.isEmpty then
        .error
          (.misfit (.missingCondition (String.ofList (trim arguments))) (byteSize arguments))
      else return .join kind table (← parseJoinCondition arguments conditionTokens)

end Arguments

/-- The characters of the word that names a stage. -/
def isKeywordChar (c : Char) : Bool :=
  c.isAlphanum || c == '_' || c == '-'

/-- A stage behind the first one. -/
def parseStage (text : List Char) : Except Error Stage :=
  let keyword := String.ofList ((text.takeWhile isKeywordChar).map Char.toLower)
  let arguments := text.dropWhile isKeywordChar
  match keyword with
  | "where" | "filter" => do
    return .filter (← Expr.ofTokens arguments (← someTokens arguments))
  | "project" => do
    let items ← listItems arguments (← someTokens arguments)
    return .project (← items.mapM (parseProjection arguments))
  | "project-away" => do
    let items ← listItems arguments (← someTokens arguments)
    return .projectAway (← items.mapM (parseRemoved arguments))
  | "extend" => do
    let items ← listItems arguments (← someTokens arguments)
    return .extend (← items.mapM (parseAssignment arguments))
  | "summarize" => parseSummarize arguments
  | "order" | "sort" => parseOrderBy arguments
  | "limit" => return .limit (← parseRowCount arguments text)
  | "take" => return .take (← parseRowCount arguments text)
  | "join" => parseJoin arguments
  | "top" => parseTop arguments text
  | _ => .error (.unknownStage (String.ofList text))

/-- The stages that texts spell; the first is the source. -/
def parsePipeline : List (List Char) → Except Error (List Stage)
  | [] => .error .emptyQuery
  | first :: rest => return (← parseSource first) :: (← rest.mapM parseStage)

end PipeSql.Query
