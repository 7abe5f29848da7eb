import PipeSql.Query.Expr
import PipeSql.Query.Pattern
import PipeSql.Query.Scan

/-!
Parsing expressions. Operators bind, from the loosest: `or`, `and`, comparisons and string
operators (which do not chain), sums, products, the sign. All but comparisons group to the left.
-/

namespace PipeSql.Query

open PipeSql.Text

/-- Where no expression can be read: at a token that does not fit, or behind the last token. -/
inductive Stuck where
  | at (token : Token)
  | atEnd
  deriving DecidableEq, Repr

/-- What was read, and the tokens behind it, which are fewer than `limit`. -/
structure Parsed (α : Type) (limit : Nat) where
  value : α
  rest : List Token
  fewer : rest.length < limit

/-- A looser limit holds as well. -/
def Parsed.widen {α : Type} {m n : Nat} (h : m ≤ n) (p : Parsed α m) : Parsed α n :=
  ⟨p.value, p.rest, Nat.lt_of_lt_of_le p.fewer h⟩

/-- The levels whose operators chain. -/
inductive Chain where
  | disjunction | conjunction | sum | product
  deriving DecidableEq, Repr

/-- The levels of binding. -/
inductive Level where
  | chain (of : Chain)
  | comparison | signed | primary
  deriving DecidableEq, Repr

/-- The level of the operands in a chain. -/
def Chain.operand : Chain → Level
  | .disjunction => .chain .conjunction
  | .conjunction => .comparison
  | .sum => .chain .product
  | .product => .signed

/-- How many levels bind tighter. -/
def Level.rank : Level → Nat
  | .chain .disjunction => 6
  | .chain .conjunction => 5
  | .comparison => 4
  | .chain .sum => 3
  | .chain .product => 2
  | .signed => 1
  | .primary => 0

theorem Chain.operand_rank_lt (chain : Chain) : chain.operand.rank < (Level.chain chain).rank := by
  cases chain <;> decide

/-- The operator that a token stands for in a chain. -/
def Chain.operator? (chain : Chain) (token : Token) : Option Operator :=
  match chain with
  | .disjunction =>
    if token.kind = .or || token.isKeyword "or" then some (.connect .or) else none
  | .conjunction =>
    if token.kind = .and || token.isKeyword "and" then some (.connect .and) else none
  | .sum =>
    match token.kind with
    | .plus => some (.compute .add)
    | .minus => some (.compute .subtract)
    | _ => none
  | .product =>
    match token.kind with
    | .star => some (.compute .multiply)
    | .slash => some (.compute .divide)
    | .percent => some (.compute .modulo)
    | _ => none

/-- The comparison that a sign stands for; a lone `=` compares too. -/
def comparison? : TokenKind → Option Comparison
  | .equal | .assign => some .equal
  | .notEqual => some .notEqual
  | .less => some .less
  | .greater => some .greater
  | .lessEqual => some .lessEqual
  | .greaterEqual => some .greaterEqual
  | _ => none

/-- The search that a word stands for. -/
def search? (token : Token) : Option Search :=
  if token.isKeyword "contains" then some .contains
  else if token.isKeyword "startswith" then some .startsWith
  else if token.isKeyword "endswith" then some .endsWith
  else none

/-- The negative of an expression: the sign of a number turns, all else is multiplied by `-1`. -/
def negated : Expr → Expr
  | .number digits =>
    match digits.toList with
    | '-' :: rest => .number (String.ofList rest)
    | _ => .number ("-" ++ digits)
  | e => .binary (.compute .multiply) (.number "-1") e

/-- What a plain name stands for: a truth value or a column. -/
def named (name : String) : Expr :=
  if agree name "true" then .bool true
  else if agree name "false" then .bool false
  else .column (.ofPath name)

/-- The comparison of `left` with the pattern for the literal that heads the tokens. -/
def searched (op : Comparison) (search : Search) (left : Expr) :
    (tokens : List Token) → Except Stuck (Parsed Expr tokens.length)
  | [] => .error .atEnd
  | token :: rest =>
    match token.kind with
    | .text s | .number s =>
      .ok ⟨.binary (.compare op) left (.text (search.pattern s)), rest, by simp⟩
    | _ => .error (.at token)

mutual

/-- Reads an expression of a level from the front of the tokens. -/
def parseAt (level : Level) (tokens : List Token) : Except Stuck (Parsed Expr tokens.length) :=
  match level with
  | .chain chain =>
    match parseAt chain.operand tokens with
    | .error e => .error e
    | .ok left =>
      (parseChain chain left.value left.rest).map (.widen (Nat.succ_le_of_lt left.fewer))
  | .comparison =>
    match parseAt (.chain .sum) tokens with
    | .error e => .error e
    | .ok left => (parseCompared left.value left.rest).map (.widen (Nat.succ_le_of_lt left.fewer))
  | .signed =>
    match tokens with
    | ⟨.minus, _, _⟩ :: rest =>
      match parseAt .signed rest with
      | .error e => .error e
      | .ok p => .ok ⟨negated p.value, p.rest, Nat.lt_succ_of_lt p.fewer⟩
    | tokens => parseAt .primary tokens
  | .primary =>
    match tokens with
    | [] => .error .atEnd
    | token :: rest =>
      match token.kind with
      | .number digits => .ok ⟨.number digits, rest, by simp⟩
      | .text value => .ok ⟨.text value, rest, by simp⟩
      | .quotedIdent name => .ok ⟨.column (.bare name), rest, by simp⟩
      | .openParen =>
        match parseAt (.chain .disjunction) rest with
        | .error e => .error e
        | .ok inner =>
          match hrest : inner.rest with
          | [] => .error .atEnd
          | close :: more =>
            if close.kind = .closeParen then
              .ok ⟨inner.value, more, by
                have := inner.fewer
                simp_all
                omega⟩
            else .error (.at close)
      | .ident name =>
        match rest with
        | ⟨.openParen, _, _⟩ :: ⟨.closeParen, _, _⟩ :: more =>
          .ok ⟨.call name [], more, by simp; omega⟩
        | ⟨.openParen, _, _⟩ :: more =>
          match parseArguments more with
          | .error e => .error e
          | .ok p => .ok ⟨.call name p.value, p.rest, by
              have := p.fewer
              simp
              omega⟩
        | rest => .ok ⟨named name, rest, by simp⟩
      | _ => .error (.at token)
  termination_by (tokens.length, level.rank)
  decreasing_by
    · exact Prod.Lex.right _ chain.operand_rank_lt
    · exact Prod.Lex.left _ _ left.fewer
    · exact Prod.Lex.right _ (by decide)
    · exact Prod.Lex.left _ _ left.fewer
    · exact Prod.Lex.left _ _ (by simp)
    · exact Prod.Lex.right _ (by decide)
    · exact Prod.Lex.left _ _ (by simp)
    · exact Prod.Lex.left _ _ (by simp only [List.length_cons]; omega)

/-- Reads the operators of a chain with their right operands, and puts them to the right of
`left`. -/
def parseChain (chain : Chain) (left : Expr) (tokens : List Token) :
    Except Stuck (Parsed Expr (tokens.length + 1)) :=
  match tokens with
  | [] => .ok ⟨left, [], by simp⟩
  | token :: more =>
    match chain.operator? token with
    | none => .ok ⟨left, token :: more, by simp⟩
    | some op =>
      match parseAt chain.operand more with
      | .error e => .error e
      | .ok right =>
        (parseChain chain (.binary op left right.value) right.rest).map
          (.widen (by have := right.fewer; simp; omega))
  termination_by (tokens.length, 0)
  decreasing_by
    · exact Prod.Lex.left _ _ (by simp)
    · exact Prod.Lex.left _ _ (by have := right.fewer; simp; omega)

/-- Reads what `left` is compared with, if a comparison or a search follows. -/
def parseCompared (left : Expr) (tokens : List Token) :
    Except Stuck (Parsed Expr (tokens.length + 1)) :=
  match tokens with
  | [] => .ok ⟨left, [], by simp⟩
  | token :: more =>
    match comparison? token.kind with
    | some op =>
      match parseAt (.chain .sum) more with
      | .error e => .error e
      | .ok right => .ok ⟨.binary (.compare op) left right.value, right.rest, by
          have := right.fewer
          simp
          omega⟩
    | none =>
      if token.kind = .bang then
        match more with
        | [] => .error .atEnd
        | word :: literal =>
          match search? word with
          | none => .error (.at token)
          | some search =>
            (searched .unlike search left literal).map (.widen (by simp; omega))
      else
        match search? token with
        | none => .ok ⟨left, token :: more, by simp⟩
        | some search => (searched .like search left more).map (.widen (by simp; omega))
  termination_by (tokens.length, 0)
  decreasing_by exact Prod.Lex.left _ _ (by simp)

/-- Reads the arguments of a call, up to and with the closing parenthesis. -/
def parseArguments (tokens : List Token) : Except Stuck (Parsed (List Expr) tokens.length) :=
  match parseAt (.chain .disjunction) tokens with
  | .error e => .error e
  | .ok first =>
    match hrest : first.rest with
    | [] => .error .atEnd
    | token :: more =>
      have hmore : more.length + 1 < tokens.length := by
        have := first.fewer
        simp_all
      match token.kind with
      | .closeParen => .ok ⟨[first.value], more, by omega⟩
      | .comma =>
        match parseArguments more with
        | .error e => .error e
        | .ok p => .ok ⟨first.value :: p.value, p.rest, by
            have := p.fewer
            omega⟩
      | _ => .error (.at token)
  termination_by (tokens.length, 7)
  decreasing_by
    · exact Prod.Lex.right _ (by decide)
    · exact Prod.Lex.left _ _ (by omega)

end

/-- The error that reports where the parse of `tokens`, scanned from `source`, got stuck. -/
def Stuck.error (source : List Char) (tokens : List Token) : Stuck → Error
  | .at token => .unexpected (token.source source) token.start
  | .atEnd =>
    .misfit (.endOfExpression (String.ofList (trim source)))
      ((tokens.getLast?.map Token.stop).getD (byteSize source))

/-- The expression that is spelled by all of `tokens`, scanned from `source`. -/
def Expr.ofTokens (source : List Char) (tokens : List Token) : Except Error Expr :=
  match parseAt (.chain .disjunction) tokens with
  | .error stuck => .error (stuck.error source tokens)
  | .ok p =>
    match p.rest with
    | [] => .ok p.value
    | token :: _ => .error (.unexpected (token.source source) token.start)

/-- The expression that a text spells. -/
def Expr.parse (source : List Char) : Except Error Expr :=
  match tokens source with
  | .error e => .error e
  | .ok ts => Expr.ofTokens source ts

end PipeSql.Query
