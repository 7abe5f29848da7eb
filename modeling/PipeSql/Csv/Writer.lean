/-!
Writing CSV: a field is quoted where it holds a comma, a quote or a line end, or where its record
would otherwise be an empty line.
-/

namespace PipeSql.Csv

/-- A field with these characters is quoted. -/
def isSpecial (c : Char) : Bool :=
  c == ',' || c == '"' || c == '\n' || c == '\r'

/-- A field with each quote written twice. -/
def escaped (cs : List Char) : List Char :=
  cs.flatMap fun c => if c = '"' then ['"', '"'] else [c]

/-- A field, quoted where needed. -/
def fieldText (field : String) : String :=
  if field.toList.any isSpecial then "\"" ++ String.ofList (escaped field.toList) ++ "\""
  else field

/-- A record and the line feed that ends it. -/
def recordText (fields : List String) : String :=
  (match fields with
    | [] | [""] => "\"\""
    | fields => ",".intercalate (fields.map fieldText)) ++ "\n"

/-- A record whose length differs from that of the first. -/
structure Unequal where
  expected : Nat
  got : Nat
  deriving DecidableEq, Repr

/-- The message that reports an unequal record. -/
def Unequal.message (unequal : Unequal) : String :=
  "CSV error: found record with " ++ toString unequal.got ++
    " fields, but the previous record has " ++ toString unequal.expected ++ " fields"

/-- The text of records, which have to be equally long. -/
def write (records : List (List String)) : Except Unequal String :=
  let expected := (records.head?.map List.length).getD 0
  match records.find? fun fields => fields.length != expected with
  | some fields => .error ⟨expected, fields.length⟩
  | none => .ok (String.join (records.map recordText))

end PipeSql.Csv
