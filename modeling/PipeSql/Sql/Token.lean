import PipeSql.Text.Doubled

/-!
The tokens of SQL: words, quoted names, texts, numbers, blobs and marks, with the blanks and the
comments between them left out. Semicolons cut a text into statements.
-/

namespace PipeSql.Sql

open Text

/-- What a token of SQL is. -/
inductive TokenKind where
  | word (spelling : String)
  | name (name : String)
  | text (value : String)
  | number (spelling : String)
  | blob (digits : String)
  | mark (c : Char)
  deriving DecidableEq, Repr

/-- A token of SQL, with the text from its first character on and the text behind it. -/
structure Token where
  kind : TokenKind
  source : List Char
  behind : List Char
  deriving DecidableEq, Repr

/-- The text from one token to another. -/
def spanned (first last : Token) : String :=
  String.ofList (first.source.take (first.source.length - last.behind.length))

/-- Blanks between the tokens. -/
def isBlank (c : Char) : Bool :=
  c == ' ' || c == '\t' || c == '\n' || c == '\x0c' || c == '\r'

/-- The text behind a comment between `/*` and `*/`, or nothing where it is not closed. -/
def behindComment : List Char → List Char
  | [] => []
  | '*' :: '/' :: rest => rest
  | _ :: rest => behindComment rest

/-- The text behind a blank or a comment that starts with `c`. Two hyphens open a comment up to the
end of the line. -/
def gap? (c : Char) (rest : List Char) : Option (List Char) :=
  if isBlank c then some rest
  else
    match c, rest with
    | '-', '-' :: comment => some (comment.dropWhile (· != '\n'))
    | '/', '*' :: d :: comment => some (behindComment (d :: comment))
    | _, _ => none

/-- Words start with a letter, `_` or a character beyond ASCII. -/
def startsWord (c : Char) : Bool :=
  c.isAlpha || c == '_' || 0x80 ≤ c.toNat

/-- Words go on with digits and `$` as well. -/
def continuesWord (c : Char) : Bool :=
  startsWord c || c.isDigit || c == '$'

/-- The point at the start of a text with the digits behind it, and the text behind them. -/
def fraction : List Char → List Char × List Char
  | '.' :: rest => ('.' :: rest.takeWhile Char.isDigit, rest.dropWhile Char.isDigit)
  | rest => ([], rest)

/-- The sign at the start of a text, and the text behind. -/
def sign : List Char → List Char × List Char
  | '+' :: rest => (['+'], rest)
  | '-' :: rest => (['-'], rest)
  | rest => ([], rest)

/-- The exponent at the start of a text, which has at least one digit, and the text behind. -/
def exponent : List Char → List Char × List Char
  | [] => ([], [])
  | e :: more =>
    let digits := (sign more).2.takeWhile Char.isDigit
    if (e == 'e' || e == 'E') && !digits.isEmpty then
      (e :: ((sign more).1 ++ digits), (sign more).2.dropWhile Char.isDigit)
    else ([], e :: more)

/-- The digits, the fraction and the exponent at the start of a text, and the text behind. -/
def numeral (cs : List Char) : List Char × List Char :=
  let (fraction, rest) := fraction (cs.dropWhile Char.isDigit)
  let (exponent, behind) := exponent rest
  (cs.takeWhile Char.isDigit ++ fraction ++ exponent, behind)

/-- The digits of numbers to the base sixteen. -/
def isHexDigit (c : Char) : Bool :=
  c.isDigit || ('a' ≤ c && c ≤ 'f') || ('A' ≤ c && c ≤ 'F')

/-- The token that starts with `c`, and the text behind it. -/
def tokenAt? (c : Char) (rest : List Char) : Option (TokenKind × List Char) :=
  if c = '"' then
    (undoubled? c rest).map fun (name, behind) => (.name (String.ofList name), behind)
  else if c = '\'' then
    (undoubled? c rest).map fun (value, behind) => (.text (String.ofList value), behind)
  else if (c == 'x' || c == 'X') && rest.head? = some '\'' then
    let digits := rest.tail.takeWhile isHexDigit
    match rest.tail.dropWhile isHexDigit with
    | '\'' :: behind =>
      if digits.length % 2 = 0 then some (.blob (String.ofList digits), behind) else none
    | _ => none
  else if c.isDigit || (c == '.' && rest.head?.any Char.isDigit) then
    let (digits, behind) := numeral (c :: rest)
    if behind.head?.any continuesWord then none
    else some (.number (String.ofList digits), behind)
  else if startsWord c then
    some (.word (String.ofList (c :: rest.takeWhile continuesWord)),
      rest.dropWhile continuesWord)
  else if "*(),.;=<>+-/%|&~".toList.contains c then some (.mark c, rest)
  else none

/-- The tokens at the start of a text, of which `n` characters and tokens are read at most. -/
def tokensWithin : Nat → List Char → Except (List Char) (List Token)
  | _, [] => .ok []
  | 0, _ => .ok []
  | n + 1, c :: rest =>
    match gap? c rest with
    | some behind => tokensWithin n behind
    | none =>
      match tokenAt? c rest with
      | none => .error (c :: rest)
      | some (kind, behind) => return ⟨kind, c :: rest, behind⟩ :: (← tokensWithin n behind)

/-- The tokens of a text, or the text from the first character on that starts none. -/
def tokens (cs : List Char) : Except (List Char) (List Token) :=
  tokensWithin cs.length cs

/-- The texts between the semicolons at the start of a text, of which `n` characters and tokens are
read at most. Behind a character that starts no token nothing is cut. -/
def statementsWithin : Nat → List Char → List (List Char)
  | _, [] => [[]]
  | 0, cs => [cs]
  | n + 1, c :: rest =>
    if c = ';' then [] :: statementsWithin n rest
    else
      let behind := ((gap? c rest).or ((tokenAt? c rest).map Prod.snd)).getD []
      let text := c :: rest.take (rest.length - behind.length)
      (statementsWithin n behind).modifyHead (text ++ ·)

/-- The statements of a text, which may be blank. -/
def statements (cs : List Char) : List (List Char) :=
  statementsWithin cs.length cs

end PipeSql.Sql
