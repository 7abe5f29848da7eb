import PipeSql.Text.Case
import PipeSql.Text.Offset

/-! The tokens of stage arguments and expressions. -/

namespace PipeSql.Query

open PipeSql.Text

/-- What a token is. A name in brackets is never a keyword; a dotted name is one token. -/
inductive TokenKind where
  | ident (name : String)
  | quotedIdent (name : String)
  | text (value : String)
  | number (digits : String)
  | equal | assign | notEqual | less | greater | lessEqual | greaterEqual
  | and | or
  | plus | minus | star | slash | percent
  | bang | openParen | closeParen | comma
  deriving DecidableEq, Repr

/-- A token with the byte offsets at which its source text starts and stops. -/
structure Token where
  kind : TokenKind
  start : Nat
  stop : Nat
  deriving DecidableEq, Repr

/-- A plain name that agrees with `keyword` but for the case of its letters. -/
def Token.isKeyword (token : Token) (keyword : String) : Bool :=
  match token.kind with
  | .ident name => agree name keyword
  | _ => false

/-- The name that a token spells, in brackets or not. -/
def Token.name? (token : Token) : Option String :=
  match token.kind with
  | .ident name | .quotedIdent name => some name
  | _ => none

/-- The source text from the first of the tokens to the last. -/
def sourceOf (source : List Char) (tokens : List Token) : List Char :=
  match tokens.head?, tokens.getLast? with
  | some first, some last => slice source first.start last.stop
  | _, _ => []

/-- The source text of one token. -/
def Token.source (source : List Char) (token : Token) : List Char :=
  slice source token.start token.stop

end PipeSql.Query
