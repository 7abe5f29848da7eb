/-!
Reading JSON. Strings and numbers keep the spelling that they have in the text: a string is
decoded only where its content matters, since not every one stands for a text.
-/

namespace PipeSql

/-- A JSON value as it is spelled. -/
inductive Json where
  | null
  | bool (value : Bool)
  | number (spelling : List Char)
  | string (spelling : List Char)
  | array (items : List Json)
  | object (members : List (List Char × Json))
  deriving Inhabited

namespace Json

/-- Blanks between the tokens. -/
def isBlank (c : Char) : Bool :=
  c == ' ' || c == '\n' || c == '\t' || c == '\r'

/-- The value of a hexadecimal digit. -/
def hexValue? (c : Char) : Option Nat :=
  if c.isDigit then some (c.toNat - '0'.toNat)
  else if 'a' ≤ c && c ≤ 'f' then some (c.toNat - 'a'.toNat + 10)
  else if 'A' ≤ c && c ≤ 'F' then some (c.toNat - 'A'.toNat + 10)
  else none

/-- The number of four hexadecimal digits. -/
def hexQuad? (a b c d : Char) : Option Nat := do
  return (((← hexValue? a) * 16 + (← hexValue? b)) * 16 + (← hexValue? c)) * 16 + (← hexValue? d)

/-- The character that a backslash and `c` stand for. -/
def escape? : Char → Option Char
  | '"' => some '"'
  | '\\' => some '\\'
  | '/' => some '/'
  | 'b' => some '\x08'
  | 'f' => some '\x0c'
  | 'n' => some '\n'
  | 'r' => some '\r'
  | 't' => some '\t'
  | _ => none

/-- The spelling of a string behind its opening quote, and what stands behind the closing one.
Control characters and unknown escapes are refused. -/
def spelled? : List Char → Option (List Char × List Char)
  | [] => none
  | '"' :: rest => some ([], rest)
  | '\\' :: 'u' :: a :: b :: c :: d :: rest =>
    if (hexQuad? a b c d).isSome then
      (spelled? rest).map fun (s, behind) => ('\\' :: 'u' :: a :: b :: c :: d :: s, behind)
    else none
  | '\\' :: c :: rest =>
    if (escape? c).isSome then
      (spelled? rest).map fun (s, behind) => ('\\' :: c :: s, behind)
    else none
  | c :: rest =>
    if c = '\\' || c.toNat < 0x20 then none
    else (spelled? rest).map fun (s, behind) => (c :: s, behind)

theorem length_spelled?_lt {cs s behind : List Char} (h : spelled? cs = some (s, behind)) :
    behind.length < cs.length := by
  fun_induction spelled? cs generalizing s behind <;> simp_all <;> grind

/-- The text that a spelling stands for. Halves of surrogate pairs stand for none. -/
def decoded? : List Char → Option (List Char)
  | [] => some []
  | '\\' :: 'u' :: a :: b :: c :: d :: '\\' :: 'u' :: a' :: b' :: c' :: d' :: rest => do
    let high ← hexQuad? a b c d
    if 0xD800 ≤ high && high < 0xDC00 then
      let low ← hexQuad? a' b' c' d'
      if 0xDC00 ≤ low && low < 0xE000 then
        return Char.ofNat (0x10000 + (high - 0xD800) * 0x400 + (low - 0xDC00)) :: (← decoded? rest)
      else none
    else if 0xDC00 ≤ high && high < 0xE000 then none
    else return Char.ofNat high :: (← decoded? ('\\' :: 'u' :: a' :: b' :: c' :: d' :: rest))
  | '\\' :: 'u' :: a :: b :: c :: d :: rest => do
    let code ← hexQuad? a b c d
    if 0xD800 ≤ code && code < 0xE000 then none
    else return Char.ofNat code :: (← decoded? rest)
  | '\\' :: c :: rest => return (← escape? c) :: (← decoded? rest)
  | c :: rest => return c :: (← decoded? rest)

/-- The digits at the start of a text, of which there has to be one, are passed over. -/
def digits? (cs : List Char) : Option (List Char) :=
  if cs.head?.any Char.isDigit then some (cs.dropWhile Char.isDigit) else none

/-- A number: an optional minus sign, an integer without leading zeros, an optional fraction and an
optional exponent. -/
def isNumber (cs : List Char) : Bool :=
  let unsigned := if cs.head? = some '-' then cs.tail else cs
  let whole? := if unsigned.head? = some '0' then some unsigned.tail else digits? unsigned
  let fraction? := whole?.bind fun cs =>
    if cs.head? = some '.' then digits? cs.tail else some cs
  let exponent? := fraction?.bind fun cs =>
    if cs.head? = some 'e' || cs.head? = some 'E' then
      let signed := cs.tail
      digits? (if signed.head? = some '+' || signed.head? = some '-' then signed.tail else signed)
    else some cs
  exponent? = some []

/-- The characters of numbers and of the words `null`, `true` and `false`. -/
def isWordChar (c : Char) : Bool :=
  c.isAlphanum || c == '+' || c == '-' || c == '.'

/-- The value that a word spells. -/
def ofWord? (word : List Char) : Option Json :=
  if word = "null".toList then some .null
  else if word = "true".toList then some (.bool true)
  else if word = "false".toList then some (.bool false)
  else if isNumber word then some (.number word)
  else none

/-- What was read, and the text behind it, which is shorter than `limit`. -/
structure Read (α : Type) (limit : Nat) where
  value : α
  rest : List Char
  shorter : rest.length < limit

/-- Leaves out blanks at the start. -/
def skipBlanks (cs : List Char) : List Char :=
  cs.dropWhile isBlank

theorem length_skipBlanks_le (cs : List Char) : (skipBlanks cs).length ≤ cs.length :=
  (List.dropWhile_sublist _).length_le

/-- Reads a string whose quote comes next. -/
def readString (cs : List Char) : Option (Read (List Char) cs.length) :=
  match h : skipBlanks cs with
  | '"' :: more =>
    match hs : spelled? more with
    | none => none
    | some (s, rest) => some ⟨s, rest, by
        have hle := length_skipBlanks_le cs
        have hlt := length_spelled?_lt hs
        rw [h, List.length_cons] at hle
        omega⟩
  | _ => none

/-- Passes over a mark that comes next. -/
def readMark (mark : Char) (cs : List Char) : Option (Read Unit cs.length) :=
  match h : skipBlanks cs with
  | [] => none
  | c :: rest =>
    if c = mark then
      some ⟨(), rest, by
        have hle := length_skipBlanks_le cs
        rw [h, List.length_cons] at hle
        omega⟩
    else none

mutual

/-- Reads a value. -/
def readValue (cs : List Char) : Option (Read Json cs.length) :=
  match readMark '[' cs with
  | some opening =>
    match readMark ']' opening.rest with
    | some closing => some ⟨.array [], closing.rest, Nat.lt_trans closing.shorter opening.shorter⟩
    | none =>
      match readItems opening.rest with
      | none => none
      | some items =>
        some ⟨.array items.value, items.rest, Nat.lt_trans items.shorter opening.shorter⟩
  | none =>
    match readMark '\x7b' cs with
    | some opening =>
      match readMark '\x7d' opening.rest with
      | some closing =>
        some ⟨.object [], closing.rest, Nat.lt_trans closing.shorter opening.shorter⟩
      | none =>
        match readMembers opening.rest with
        | none => none
        | some members =>
          some ⟨.object members.value, members.rest, Nat.lt_trans members.shorter opening.shorter⟩
    | none =>
      match readString cs with
      | some s => some ⟨.string s.value, s.rest, s.shorter⟩
      | none =>
        match h : skipBlanks cs with
        | [] => none
        | c :: rest =>
          match ofWord? ((c :: rest).takeWhile isWordChar) with
          | none => none
          | some value => some ⟨value, rest.dropWhile isWordChar, by
              have hle := length_skipBlanks_le cs
              have hword := (List.dropWhile_sublist (l := rest) isWordChar).length_le
              rw [h, List.length_cons] at hle
              omega⟩
  termination_by (cs.length, 0)
  decreasing_by
    · exact Prod.Lex.left _ _ opening.shorter
    · exact Prod.Lex.left _ _ opening.shorter

/-- Reads the items of an array behind its opening bracket, of which there is one. -/
def readItems (cs : List Char) : Option (Read (List Json) cs.length) :=
  match readValue cs with
  | none => none
  | some first =>
    match readMark ',' first.rest with
    | some comma =>
      match readItems comma.rest with
      | none => none
      | some more =>
        some ⟨first.value :: more.value, more.rest,
          Nat.lt_trans more.shorter (Nat.lt_trans comma.shorter first.shorter)⟩
    | none =>
      match readMark ']' first.rest with
      | none => none
      | some closing =>
        some ⟨[first.value], closing.rest, Nat.lt_trans closing.shorter first.shorter⟩
  termination_by (cs.length, 1)
  decreasing_by
    · exact Prod.Lex.right _ (by decide)
    · exact Prod.Lex.left _ _ (Nat.lt_trans comma.shorter first.shorter)

/-- Reads the members of an object behind its opening brace, of which there is one. -/
def readMembers (cs : List Char) : Option (Read (List (List Char × Json)) cs.length) :=
  match readString cs with
  | none => none
  | some name =>
    match readMark ':' name.rest with
    | none => none
    | some colon =>
      match readValue colon.rest with
      | none => none
      | some first =>
        have hfirst := Nat.lt_trans first.shorter (Nat.lt_trans colon.shorter name.shorter)
        match readMark ',' first.rest with
        | some comma =>
          match readMembers comma.rest with
          | none => none
          | some more =>
            some ⟨(name.value, first.value) :: more.value, more.rest,
              Nat.lt_trans more.shorter (Nat.lt_trans comma.shorter hfirst)⟩
        | none =>
          match readMark '\x7d' first.rest with
          | none => none
          | some closing =>
            some ⟨[(name.value, first.value)], closing.rest, Nat.lt_trans closing.shorter hfirst⟩
  termination_by (cs.length, 1)
  decreasing_by
    · exact Prod.Lex.left _ _ (Nat.lt_trans colon.shorter name.shorter)
    · exact Prod.Lex.left _ _ (Nat.lt_trans comma.shorter hfirst)

end

/-- The value that is spelled by all of a text. -/
def parse? (cs : List Char) : Option Json :=
  match readValue cs with
  | some p => if (skipBlanks p.rest).isEmpty then some p.value else none
  | none => none

end Json

end PipeSql
