/-! The causes for which a query is refused, and the words that report them. -/

namespace PipeSql.Query

/-- What is wrong at a position of a stage. -/
inductive Misfit where
  | unexpected (text : String)
  | endOfExpression (text : String)
  | missingArguments (arguments : String)
  | missingBy
  | missingByIn (stage : String)
  | missingOn (arguments : String)
  | missingCondition (arguments : String)
  | noColumnsLeft (removed : List String)
  | wrongArity (function : String) (expected got : Nat)
  | emptySelectList
  deriving DecidableEq, Repr

/-- The words that stand for a misfit in a message. -/
def Misfit.fragment : Misfit → String
  | .unexpected text => text
  | .endOfExpression text => "unexpected end of expression: " ++ text
  | .missingArguments arguments => "missing arguments: " ++ arguments
  | .missingBy => "expected 'by'"
  | .missingByIn stage => "expected 'by' in: " ++ stage
  | .missingOn arguments => "expected 'on': " ++ arguments
  | .missingCondition arguments => "missing join condition: " ++ arguments
  | .noColumnsLeft removed => "project-away " ++ ", ".intercalate removed ++ " leaves no columns"
  | .wrongArity function expected got =>
    function ++ "() expects " ++ toString expected ++ " argument(s), got " ++ toString got
  | .emptySelectList => "empty select list"

/-- Why a query is refused. Positions are byte offsets in the text that was scanned. -/
inductive Error where
  | emptyQuery
  | unknownStage (stage : String)
  | misfit (cause : Misfit) (position : Nat)
  | unterminated (position : Nat)
  | badAggregate (fragment : String)
  | badRowCount (stage : String)
  | badSource (fragment : String)
  | unknownTable (table : String)
  | unknownColumn (column : String)
  | ambiguousColumn (column : String)
  deriving DecidableEq, Repr

/-- The message that reports an error. -/
def Error.message : Error → String
  | .emptyQuery => "query is empty"
  | .unknownStage stage => "unknown stage: " ++ stage
  | .misfit cause position =>
    "syntax error at position " ++ toString position ++ ": " ++ cause.fragment
  | .unterminated position =>
    "unterminated string literal starting at position " ++ toString position
  | .badAggregate fragment => "invalid aggregate: " ++ fragment
  | .badRowCount stage => "invalid row count: " ++ stage
  | .badSource fragment => "first stage must name a table, got: " ++ fragment
  | .unknownTable table => "unknown table: " ++ table
  | .unknownColumn column => "unknown column: " ++ column
  | .ambiguousColumn column =>
    "ambiguous column: " ++ column ++ " (qualify it with a table name)"

/-- A misfit that quotes the text where it stands. -/
def Error.unexpected (text : List Char) (position : Nat) : Error :=
  .misfit (.unexpected (String.ofList text)) position

end PipeSql.Query
