import PipeSql.Query.Token

/-! Lists of tokens that are separated by commas outside parentheses. -/

namespace PipeSql.Query

/-- The nesting of parentheses behind a token, from the nesting before it. A closing parenthesis
that none opened leaves it at zero. -/
def nesting (depth : Nat) : TokenKind → Nat
  | .openParen => depth + 1
  | .closeParen => depth - 1
  | _ => depth

/-- Puts a token in front of the first part. -/
def pushFront (token : Token) : List (List Token) → List (List Token)
  | [] => [[token]]
  | part :: parts => (token :: part) :: parts

/-- The parts between the commas of depth zero, where the first token stands at `depth`. -/
def splitCommasFrom (depth : Nat) : List Token → List (List Token)
  | [] => [[]]
  | token :: rest =>
    if token.kind = .comma ∧ depth = 0 then [] :: splitCommasFrom depth rest
    else pushFront token (splitCommasFrom (nesting depth token.kind) rest)

/-- The parts between the commas outside parentheses. There is always one, maybe empty. -/
def splitCommas (tokens : List Token) : List (List Token) :=
  splitCommasFrom 0 tokens

theorem splitCommasFrom_ne_nil (depth : Nat) (tokens : List Token) :
    splitCommasFrom depth tokens ≠ [] := by
  cases tokens with
  | nil => simp [splitCommasFrom]
  | cons token rest =>
    unfold splitCommasFrom
    split
    · simp
    · cases splitCommasFrom (nesting depth token.kind) rest <;> simp [pushFront]

end PipeSql.Query
