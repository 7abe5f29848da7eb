/-! JSON texts, one value a line, indented by two spaces a level. -/

namespace PipeSql

/-- What a JSON value is written as, given the indentation of the line on which it starts. -/
def JsonText := Nat → String

namespace JsonText

/-- A character of a string. -/
def charText (c : Char) : List Char :=
  match c with
  | '"' => ['\\', '"']
  | '\\' => ['\\', '\\']
  | '\n' => ['\\', 'n']
  | '\r' => ['\\', 'r']
  | '\t' => ['\\', 't']
  | '\x08' => ['\\', 'b']
  | '\x0c' => ['\\', 'f']
  | c =>
    if c.toNat < 0x20 then
      ['\\', 'u', '0', '0', Nat.digitChar (c.toNat / 16), Nat.digitChar (c.toNat % 16)]
    else [c]

/-- A string between its quotes. -/
def quoted (s : String) : String :=
  "\"" ++ String.ofList (s.toList.flatMap charText) ++ "\""

/-- A string. -/
def string (s : String) : JsonText :=
  fun _ => quoted s

/-- A natural number. -/
def natural (n : Nat) : JsonText :=
  fun _ => toString n

/-- A truth value. -/
def bool (b : Bool) : JsonText :=
  fun _ => if b then "true" else "false"

/-- Parts between brackets, each on lines of its own. -/
def enclosed (opening closing : String) (parts : List JsonText) : JsonText :=
  fun n =>
    let indented := parts.map fun part => "".pushn ' ' (n + 2) ++ part (n + 2)
    if indented.isEmpty then opening ++ closing
    else opening ++ "\n" ++ ",\n".intercalate indented ++ "\n" ++ "".pushn ' ' n ++ closing

/-- An array. -/
def array (items : List JsonText) : JsonText :=
  enclosed "[" "]" items

/-- An object with its members in order. -/
def object (members : List (String × JsonText)) : JsonText :=
  enclosed "\x7b" "\x7d"
    (members.map fun (name, value) => fun n => quoted name ++ ": " ++ value n)

/-- The text of a value on its own. -/
def text (value : JsonText) : String :=
  value 0

end JsonText

end PipeSql
