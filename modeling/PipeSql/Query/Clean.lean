import PipeSql.Text.Blank

/-!
Cleaning a query: the placeholder line of the editor goes, then the comments, then the blanks at
both ends. Comments inside text literals stay.
-/

namespace PipeSql.Query

open PipeSql.Text

/-- The mark of the line that an editor puts into an empty query. -/
def placeholder : List Char :=
  "Write your KQL query here".toList

/-- Whether a text occurs in another. -/
def occurs (part : List Char) : List Char → Bool
  | [] => part.isEmpty
  | c :: rest => part.isPrefixOf (c :: rest) || occurs part rest

/-- The lines of a text, each with the line feed that ends it. -/
def lines : List Char → List (List Char)
  | [] => []
  | c :: rest =>
    if c = '\n' then [c] :: lines rest
    else
      match lines rest with
      | [] => [[c]]
      | line :: more => (c :: line) :: more

/-- Leaves out the lines that hold the placeholder. -/
def dropPlaceholder (cs : List Char) : List Char :=
  ((lines cs).filter fun line => !occurs placeholder line).flatten

/-- Where a character stands: in the query proper, with the character before it; in a text
literal, with its quote; or in a comment. -/
inductive Place where
  | code (previous : Option Char)
  | literal (quote : Char)
  | lineComment
  | blockComment
  deriving DecidableEq, Repr

/-- Two hyphens open a comment only at the start of the text or behind a blank. -/
def opensComment : Option Char → Bool
  | none => true
  | some c => isBlank c

/-- Leaves out the comments behind a place. A block comment leaves a space, which keeps the tokens
around it apart. -/
def stripFrom : Place → List Char → List Char
  | _, [] => []
  | .literal _, ['\\'] => ['\\']
  | .literal quote, '\\' :: c :: rest => '\\' :: c :: stripFrom (.literal quote) rest
  | .literal quote, c :: rest =>
    c :: stripFrom (if c = quote then .code (some c) else .literal quote) rest
  | .lineComment, c :: rest =>
    if c = '\n' then c :: stripFrom (.code (some c)) rest else stripFrom .lineComment rest
  | .blockComment, '*' :: '/' :: rest => stripFrom (.code (some '/')) rest
  | .blockComment, _ :: rest => stripFrom .blockComment rest
  | .code previous, '-' :: '-' :: rest =>
    if opensComment previous then stripFrom .lineComment rest
    else '-' :: '-' :: stripFrom (.code (some '-')) rest
  | .code _, '/' :: '/' :: rest => stripFrom .lineComment rest
  | .code _, '/' :: '*' :: rest => ' ' :: stripFrom .blockComment rest
  | .code _, c :: rest =>
    c :: stripFrom (if c = '"' || c = '\'' then .literal c else .code (some c)) rest

/-- Leaves out the comments of a text. -/
def stripComments (cs : List Char) : List Char :=
  stripFrom (.code none) cs

/-- The query that a text holds. -/
def clean (cs : List Char) : List Char :=
  trim (stripComments (dropPlaceholder cs))

end PipeSql.Query
