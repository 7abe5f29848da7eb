import PipeSql.Sql.Name
import PipeSql.Sql.Token
import PipeSql.Store.Memory
import PipeSql.Text.Count
import PipeSql.Text.Shortest
import PipeSql.Text.Utf8

/-!
Running statements. Tables in memory answer these SELECTs: columns and constants of one table or of
none, or the count of its rows, with names for the outputs and a limit. A table can also be dropped.
-/

namespace PipeSql.Store

open Sql Text

/-- What an output is computed from. -/
inductive Term where
  | column (table : Option String) (name : String) (isQuoted : Bool)
  | constant (cell : String)
  deriving DecidableEq, Repr

/-- An output: all columns, or a term with its spelling and maybe a name. -/
inductive Output where
  | everything
  | term (term : Term) (spelling : String) (label : Option String)
  deriving DecidableEq, Repr

/-- The outputs of a query: the number of rows, under a header, or a list. -/
inductive Outputs where
  | count (header : String)
  | list (outputs : List Output)
  deriving DecidableEq, Repr

/-- A query that tables in memory answer. -/
structure Query where
  outputs : Outputs
  table : Option String
  limit : Option Nat
  deriving DecidableEq, Repr

/-! ### Constants -/

/-- The double nearest to `digits * 10 ^ exponent`. -/
def nearest (digits : Nat) (exponent : Int) : Float :=
  let size : Int := (Nat.toDigits 10 digits).length + exponent
  if digits = 0 || size < -400 then 0
  else if 400 < size then 1 / 0
  else if 0 ≤ exponent then Float.ofScientific digits false exponent.toNat
  else Float.ofScientific digits true (-exponent).toNat

/-- The double that a number without sign spells. -/
def spelledFloat (spelling : List Char) : Float :=
  let mantissa := spelling.takeWhile fun c => c != 'e' && c != 'E'
  let exponentPart := (spelling.dropWhile fun c => c != 'e' && c != 'E').tail
  let whole := mantissa.takeWhile Char.isDigit
  let fraction := (mantissa.dropWhile Char.isDigit).tail
  let magnitude : Int := digitsValue (exponentPart.filter Char.isDigit)
  let exponent := if exponentPart.head? = some '-' then -magnitude else magnitude
  nearest (digitsValue (whole ++ fraction)) (exponent - fraction.length)

/-- The largest integer of 64 bits, 2⁶³ - 1. -/
def maxInteger : Nat := 9223372036854775807

/-- The cell of a number: an integer of 64 bits as it is, any other as a double. -/
def numberCell (isNegative : Bool) (spelling : String) : String :=
  let limit := if isNegative then maxInteger + 1 else maxInteger
  match (natural? spelling.toList).filter (· ≤ limit) with
  | some n => if isNegative && n ≠ 0 then "-" ++ toString n else toString n
  | none =>
    let x := spelledFloat spelling.toList
    floatText (if isNegative then -x else x)

/-- The value of a hexadecimal digit. -/
def hexDigit (c : Char) : Nat :=
  if c.isDigit then c.toNat - '0'.toNat else c.toLower.toNat - 'a'.toNat + 10

/-- The bytes that pairs of hexadecimal digits spell. -/
def hexBytes : List Char → List UInt8
  | a :: b :: rest => UInt8.ofNat (16 * hexDigit a + hexDigit b) :: hexBytes rest
  | _ => []

/-! ### Reading -/

/-- The end of the text or the token that stands where it does not belong. -/
def misplaced : List Token → Objection
  | [] => .incomplete
  | token :: _ => .unexpected (spanned token token)

/-- A token is the given word, in any case. -/
def isWord (word : String) (token : Token) : Bool :=
  match token.kind with
  | .word spelling => agree spelling word
  | _ => false

/-- The name of a table or a column, and whether it is quoted. -/
def name? (token : Token) : Option (String × Bool) :=
  match token.kind with
  | .word spelling => if reserved.contains spelling.toLower then none else some (spelling, false)
  | .name name => some (name, true)
  | _ => none

/-- Reads a term. -/
def readTerm : List Token → Except Objection (Term × List Token)
  | [] => .error .incomplete
  | token :: rest =>
    match token.kind, rest with
    | .number spelling, rest => .ok (.constant (numberCell false spelling), rest)
    | .text value, rest => .ok (.constant value, rest)
    | .blob digits, rest => .ok (.constant (ofUtf8Lossy (hexBytes digits.toList)), rest)
    | .mark '-', ⟨.number spelling, _, _⟩ :: rest =>
      .ok (.constant (numberCell true spelling), rest)
    | .mark '+', ⟨.number spelling, _, _⟩ :: rest =>
      .ok (.constant (numberCell false spelling), rest)
    | .mark '-', rest | .mark '+', rest => .error (misplaced rest)
    | _, rest =>
      if isWord "null" token then .ok (.constant "", rest)
      else
        match name? token, rest with
        | none, _ => .error (misplaced (token :: rest))
        | some (table, _), ⟨.mark '.', _, _⟩ :: column :: rest =>
          match name? column with
          | some (name, isQuoted) => .ok (.column (some table) name isQuoted, rest)
          | none => .error (misplaced (column :: rest))
        | some (name, isQuoted), rest => .ok (.column none name isQuoted, rest)

/-- Reads the name of an output, if one is given. -/
def readLabel : List Token → Except Objection (Option String × List Token)
  | [] => .ok (none, [])
  | token :: rest =>
    if isWord "as" token then
      match rest with
      | ⟨.text value, _, _⟩ :: behind => .ok (some value, behind)
      | label :: behind =>
        match name? label with
        | some (name, _) => .ok (some name, behind)
        | none => .error (misplaced rest)
      | [] => .error .incomplete
    else .ok (none, token :: rest)

/-- The token in front of `rest`, which was read last, counted from `first`. -/
def spellingOf (first : Token) (rest : List Token) (all : List Token) : String :=
  match all[all.length - rest.length - 1]? with
  | some last => spanned first last
  | none => ""

/-- Reads an output. -/
def readOutput : List Token → Except Objection (Output × List Token)
  | [] => .error .incomplete
  | ⟨.mark '*', _, _⟩ :: rest => .ok (.everything, rest)
  | first :: more => do
    let (term, rest) ← readTerm (first :: more)
    let (label, behind) ← readLabel rest
    return (.term term (spellingOf first rest (first :: more)) label, behind)

/-- Reads outputs between commas, at most `n`. -/
def readList : Nat → List Token → Except Objection (List Output × List Token)
  | 0, ts => .error (misplaced ts)
  | n + 1, ts => do
    let (first, rest) ← readOutput ts
    match rest with
    | ⟨.mark ',', _, _⟩ :: rest =>
      let (more, rest) ← readList n rest
      return (first :: more, rest)
    | rest => return ([first], rest)

/-- Reads the outputs of a query. -/
def readOutputs (ts : List Token) : Except Objection (Outputs × List Token) := do
  match ts with
  | first :: ⟨.mark '(', _, _⟩ :: ⟨.mark '*', _, _⟩ :: last :: rest =>
    if isWord "count" first && last.kind == .mark ')' then
      let (label, rest) ← readLabel rest
      return (.count (label.getD (spanned first last)), rest)
    else .error (misplaced (ts.drop 1))
  | ts =>
    let (outputs, rest) ← readList ts.length ts
    return (.list outputs, rest)

/-- Reads the table of a query, if one is given. -/
def readTable : List Token → Except Objection (Option String × List Token)
  | [] => .ok (none, [])
  | token :: rest =>
    if isWord "from" token then
      match rest with
      | [] => .error .incomplete
      | table :: behind =>
        match name? table with
        | some (name, _) => .ok (some name, behind)
        | none => .error (misplaced rest)
    else .ok (none, token :: rest)

/-- Reads the limit of a query, if one is given. -/
def readLimit : List Token → Except Objection (Option Nat × List Token)
  | [] => .ok (none, [])
  | token :: rest =>
    if isWord "limit" token then
      match rest with
      | ⟨.number spelling, _, _⟩ :: behind =>
        match natural? spelling.toList with
        | some n => .ok (some n, behind)
        | none => .error .notAnInteger
      | rest => .error (misplaced rest)
    else .ok (none, token :: rest)

/-- The query that tokens spell. -/
def readQuery : List Token → Except Objection Query
  | [] => .error .incomplete
  | token :: rest => do
    if isWord "select" token then
      let (outputs, rest) ← readOutputs rest
      let (table, rest) ← readTable rest
      let (limit, rest) ← readLimit rest
      match rest with
      | [] => return ⟨outputs, table, limit⟩
      | rest => .error (misplaced rest)
    else .error (misplaced (token :: rest))

/-! ### Answering -/

/-- How the cells of an output are found in a row: by their place, or as they are. -/
inductive Cell where
  | at (place : Nat)
  | constant (text : String)
  deriving DecidableEq, Repr

/-- The cell in a row. -/
def Cell.of (row : List String) : Cell → String
  | .at place => row.getD place ""
  | .constant text => text

/-- The place and the name of a column in a table. -/
def place? (table : Table) (name : String) : Option (Nat × String) :=
  (table.columns.zipIdx.find? fun (column, _) => agree column name).map fun (column, i) =>
    (i, column)

/-- The header and the cell of a term. A quoted name that no column has stands for itself. -/
def resolveTerm (table? : Option Table) (term : Term) (spelling : String) :
    Except Objection (String × Cell) :=
  match term with
  | .constant cell => .ok (spelling, .constant cell)
  | .column (some qualifier) name _ =>
    match (table?.filter fun table => agree table.name qualifier).bind (place? · name) with
    | some (i, column) => .ok (column, .at i)
    | none => .error (.noSuchColumn (qualifier ++ "." ++ name))
  | .column none name isQuoted =>
    match table?.bind (place? · name) with
    | some (i, column) => .ok (column, .at i)
    | none =>
      if isQuoted then .ok (spelling, .constant name) else .error (.noSuchColumn name)

/-- The headers and the cells of an output. -/
def resolveOutput (table? : Option Table) : Output → Except Objection (List (String × Cell))
  | .everything =>
    match table? with
    | none => .error .noTable
    | some table => .ok (table.columns.zipIdx.map fun (column, i) => (column, .at i))
  | .term term spelling label => do
    let (header, cell) ← resolveTerm table? term spelling
    return [(label.getD header, cell)]

/-- The rows of a table, or the one empty row of no table. -/
def rowsOf : Option Table → List (List String)
  | none => [[]]
  | some table => table.rows

/-- The answer to a query without its limit. -/
def Query.unlimited (table? : Option Table) : Outputs → Except Objection ResultSet
  | .count header => .ok ⟨[header], [[toString (rowsOf table?).length]]⟩
  | .list outputs => do
    let cells := (← outputs.mapM (resolveOutput table?)).flatten
    let rows := (rowsOf table?).map fun row => cells.map fun (_, cell) => cell.of row
    return ⟨cells.map Prod.fst, rows⟩

/-- The answer to a query. Limits are integers of 64 bits with sign. -/
def Query.answer (memory : Memory) (query : Query) : Except Objection ResultSet := do
  let table? ← match query.table with
    | none => pure none
    | some name =>
      match memory.find? name with
      | some table => pure (some table)
      | none => .error (.noSuchTable name)
  let result ← Query.unlimited table? query.outputs
  match query.limit with
  | none => return result
  | some n =>
    if n ≤ maxInteger then return { result with rows := result.rows.take n }
    else .error .notAnInteger

/-! ### Statements -/

/-- A statement: a query, or one that drops a table, which may have to be there. -/
inductive Statement where
  | query (query : Query)
  | drop (table : String) (ifExists : Bool)
  deriving DecidableEq, Repr

/-- The table of a statement that drops one. -/
def readDropped (ifExists : Bool) : List Token → Except Objection Statement
  | [] => .error .incomplete
  | token :: rest =>
    match name? token, rest with
    | some (table, _), [] => .ok (.drop table ifExists)
    | some _, rest => .error (misplaced rest)
    | none, rest => .error (misplaced (token :: rest))

/-- What follows `drop table`. -/
def readDrop : List Token → Except Objection Statement
  | first :: second :: rest =>
    if isWord "if" first && isWord "exists" second then readDropped true rest
    else readDropped false (first :: second :: rest)
  | ts => readDropped false ts

/-- The statement that tokens spell. -/
def readStatement (ts : List Token) : Except Objection Statement :=
  match ts with
  | first :: rest =>
    if isWord "drop" first then
      match rest with
      | second :: rest =>
        if isWord "table" second then readDrop rest else .error (misplaced (second :: rest))
      | [] => .error .incomplete
    else .query <$> readQuery ts
  | [] => .error .incomplete

namespace Memory

/-- The memory without a table, and an empty answer. -/
def drop (memory : Memory) (table : String) (ifExists : Bool) :
    Memory × Except Objection ResultSet :=
  if (memory.find? table).isSome then
    (⟨memory.tables.filter fun other => !agree other.name table⟩, .ok ⟨[], []⟩)
  else if ifExists then (memory, .ok ⟨[], []⟩)
  else (memory, .error (.noSuchTable table))

/-- The memory behind a statement, and its answer. A text without tokens has an empty answer. -/
def perform (memory : Memory) (statement : List Char) : Memory × Except Objection ResultSet :=
  match Sql.tokens statement with
  | .error rest => (memory, .error (.unrecognized (String.ofList rest)))
  | .ok [] => (memory, .ok ⟨[], []⟩)
  | .ok ts =>
    match readStatement ts with
    | .error objection => (memory, .error objection)
    | .ok (.query query) => (memory, query.answer memory)
    | .ok (.drop table ifExists) => memory.drop table ifExists

/-- Performs statements in order, up to the first that fails. What those in front of it did
stays. -/
def performAll (memory : Memory) : List (List Char) → Memory × Except Objection (List ResultSet)
  | [] => (memory, .ok [])
  | statement :: rest =>
    match memory.perform statement with
    | (memory, .error objection) => (memory, .error objection)
    | (memory, .ok result) =>
      let (memory, results) := memory.performAll rest
      (memory, results.map (result :: ·))

/-- The headers of statements, if they can be answered. -/
def headers (memory : Memory) (statements : List (List Char)) :
    Except Objection (List String) := do
  let results ← statements.mapM fun statement => (memory.perform statement).2
  return results.flatMap ResultSet.headers

end Memory

instance : Database Memory where
  empty := ⟨[]⟩
  load := Memory.load
  perform memory sql := memory.performAll (Sql.statements sql.toList)
  headers memory sql := memory.headers (Sql.statements sql.toList)
  tables memory := memory.tables.map fun table => (table.name, table.columns)

end PipeSql.Store
