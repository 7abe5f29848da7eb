import PipeSql.Query.Error
import PipeSql.Query.Token
import PipeSql.Text.Blank
import PipeSql.Text.Numeric

/-!
Scanning: the tokens of a text, in order, with blanks between them left out. A lexeme is found by
its first character and the rest of the text; it is told by its kind and by the number of
characters that belong to it behind the first.
-/

namespace PipeSql.Query

open PipeSql.Text

/-- A name starts with a letter, `_` or `$`. -/
def startsName (c : Char) : Bool :=
  isAlphabetic c || c == '_' || c == '$'

/-- A name goes on with letters, numeric characters, `_` and `$`. -/
def continuesName (c : Char) : Bool :=
  isAlphanumeric c || c == '_' || c == '$'

/-- Counts the characters that continue a name; a dot does where a further name starts behind it. -/
def nameLength : List Char → Nat
  | [] => 0
  | c :: rest =>
    if continuesName c || (c == '.' && rest.head?.any startsName) then nameLength rest + 1 else 0

/-- The text of a number is a run of ASCII letters, digits and dots. -/
def continuesNumber (c : Char) : Bool :=
  c.isAlphanum || c == '.'

/-- Such a run is a number when it consists of digits, with at most one dot among or around them,
and at most one exponent. -/
def isNumeral (cs : List Char) : Bool :=
  let whole := cs.takeWhile Char.isDigit
  let tail := cs.dropWhile Char.isDigit
  let fraction := if tail.head? = some '.' then tail.tail.takeWhile Char.isDigit else []
  let exponent := if tail.head? = some '.' then tail.tail.dropWhile Char.isDigit else tail
  (whole ++ fraction != []) &&
    match exponent with
    | [] => true
    | e :: digits => (e == 'e' || e == 'E') && digits != [] && digits.all Char.isDigit

/-- The character that a backslash and `c` stand for in a text literal. -/
def unescaped (c : Char) : Char :=
  if c = 'n' then '\n' else if c = 't' then '\t' else c

/-- Reads a text literal behind its opening quote: its value, and the number of characters up to
and with the closing quote. -/
def quoted? (quote : Char) : List Char → Option (List Char × Nat)
  | [] => none
  | '\\' :: [] => none
  | '\\' :: c :: rest =>
    (quoted? quote rest).map fun (value, n) => (unescaped c :: value, n + 2)
  | c :: rest =>
    if c = quote then some ([], 1)
    else (quoted? quote rest).map fun (value, n) => (c :: value, n + 1)

/-- The signs of two characters. -/
def pairSign? : Char → Char → Option TokenKind
  | '=', '=' => some .equal
  | '!', '=' => some .notEqual
  | '<', '=' => some .lessEqual
  | '>', '=' => some .greaterEqual
  | '<', '>' => some .notEqual
  | '&', '&' => some .and
  | '|', '|' => some .or
  | _, _ => none

/-- The signs of one character. -/
def sign? : Char → Option TokenKind
  | '=' => some .assign
  | '<' => some .less
  | '>' => some .greater
  | '+' => some .plus
  | '-' => some .minus
  | '*' => some .star
  | '/' => some .slash
  | '%' => some .percent
  | '!' => some .bang
  | '(' => some .openParen
  | ')' => some .closeParen
  | ',' => some .comma
  | _ => none

/-- Quotes that delimit text literals. -/
def isQuote (c : Char) : Bool :=
  c == '"' || c == '\''

theorem isQuote_iff {c : Char} : isQuote c ↔ c = '"' ∨ c = '\'' := by
  simp [isQuote]

/-- The name in quotes and brackets that starts at position `start`. -/
def bracketed (start : Nat) (rest : List Char) : Except Error (TokenKind × Nat) :=
  match rest with
  | [] => .error (.unexpected ('[' :: rest) start)
  | quote :: more =>
    if isQuote quote then
      match quoted? quote more with
      | none => .error (.unterminated (start + 1))
      | some (name, n) =>
        if (more.drop n).head? = some ']' then .ok (.quotedIdent (String.ofList name), n + 2)
        else .error (.unexpected ('[' :: rest) start)
    else .error (.unexpected ('[' :: rest) start)

/-- The sign that starts with `c`; of two that fit, the longer. -/
def signAt (start : Nat) (c : Char) (rest : List Char) : Except Error (TokenKind × Nat) :=
  match rest.head?.bind (pairSign? c) with
  | some kind => .ok (kind, 1)
  | none =>
    match sign? c with
    | some kind => .ok (kind, 0)
    | none => .error (.unexpected [c] start)

/-- The lexeme that starts with `c` at position `start`: its kind, and the number of characters
that belong to it behind `c`. -/
def lexeme (start : Nat) (c : Char) (rest : List Char) : Except Error (TokenKind × Nat) :=
  if isQuote c then
    match quoted? c rest with
    | none => .error (.unterminated start)
    | some (value, n) => .ok (.text (String.ofList value), n)
  else if c = '[' then bracketed start rest
  else if c.isDigit || (c == '.' && rest.head?.any Char.isDigit) then
    let digits := c :: rest.takeWhile continuesNumber
    if isNumeral digits then .ok (.number (String.ofList digits), digits.length - 1)
    else .error (.unexpected digits start)
  else if startsName c then
    let n := nameLength rest
    .ok (.ident (String.ofList (c :: rest.take n)), n)
  else signAt start c rest

/-- The tokens of a text whose first character has the position `start`. -/
def tokensFrom (start : Nat) : List Char → Except Error (List Token)
  | [] => .ok []
  | c :: rest =>
    if isBlank c then tokensFrom (start + c.utf8Size) rest
    else
      match lexeme start c rest with
      | .error e => .error e
      | .ok (kind, n) =>
        let stop := start + byteSize (c :: rest.take n)
        match tokensFrom stop (rest.drop n) with
        | .error e => .error e
        | .ok tokens => .ok (⟨kind, start, stop⟩ :: tokens)
  termination_by cs => cs.length
  decreasing_by
    · simp
    · simp only [List.length_drop, List.length_cons]
      omega

/-- The tokens of a text. -/
def tokens (source : List Char) : Except Error (List Token) :=
  tokensFrom 0 source

end PipeSql.Query
