import PipeSql.Query.Expr.Parse

/-! # Equations of the expression parser

What each function of the parser reads, without the bound on the tokens that are left. -/

namespace PipeSql.Query

/-- What was read, and the tokens behind it. -/
def Parsed.reading {α : Type} {limit : Nat} (p : Parsed α limit) : α × List Token :=
  (p.value, p.rest)

def readAt (level : Level) (tokens : List Token) : Except Stuck (Expr × List Token) :=
  (parseAt level tokens).map Parsed.reading

def readChain (chain : Chain) (left : Expr) (tokens : List Token) :
    Except Stuck (Expr × List Token) :=
  (parseChain chain left tokens).map Parsed.reading

def readCompared (left : Expr) (tokens : List Token) : Except Stuck (Expr × List Token) :=
  (parseCompared left tokens).map Parsed.reading

def readArguments (tokens : List Token) : Except Stuck (List Expr × List Token) :=
  (parseArguments tokens).map Parsed.reading

def readSearched (op : Comparison) (search : Search) (left : Expr) (tokens : List Token) :
    Except Stuck (Expr × List Token) :=
  (searched op search left tokens).map Parsed.reading

theorem map_reading_widen {α : Type} {m n : Nat} (h : m ≤ n) (x : Except Stuck (Parsed α m)) :
    (x.map (Parsed.widen h)).map Parsed.reading = x.map Parsed.reading := by
  cases x <;> rfl

section Chains

variable (chain : Chain) (left : Expr)

theorem readAt_chain (tokens : List Token) :
    readAt (.chain chain) tokens =
      readAt chain.operand tokens >>= fun p => readChain chain p.1 p.2 := by
  unfold readAt
  rw [parseAt]
  cases parseAt chain.operand tokens with
  | error e => rfl
  | ok left => exact map_reading_widen _ _

theorem readChain_nil : readChain chain left [] = .ok (left, []) := by
  unfold readChain
  rw [parseChain]
  rfl

theorem readChain_cons (token : Token) (more : List Token) :
    readChain chain left (token :: more) =
      match chain.operator? token with
      | none => .ok (left, token :: more)
      | some op =>
        readAt chain.operand more >>= fun p => readChain chain (.binary op left p.1) p.2 := by
  unfold readChain readAt
  rw [parseChain]
  cases chain.operator? token with
  | none => rfl
  | some op =>
    simp only
    cases parseAt chain.operand more with
    | error e => rfl
    | ok right => exact map_reading_widen _ _

end Chains

section Comparisons

variable (left : Expr)

theorem readAt_comparison (tokens : List Token) :
    readAt .comparison tokens =
      readAt (.chain .sum) tokens >>= fun p => readCompared p.1 p.2 := by
  unfold readAt
  rw [parseAt.eq_def .comparison]
  simp only
  cases parseAt (.chain .sum) tokens with
  | error e => rfl
  | ok left => exact map_reading_widen _ _

theorem readCompared_nil : readCompared left [] = .ok (left, []) := by
  unfold readCompared
  rw [parseCompared]
  rfl

theorem readCompared_cons (token : Token) (more : List Token) :
    readCompared left (token :: more) =
      match comparison? token.kind with
      | some op =>
        readAt (.chain .sum) more >>= fun p => .ok (.binary (.compare op) left p.1, p.2)
      | none =>
        if token.kind = .bang then
          match more with
          | [] => .error .atEnd
          | word :: literal =>
            match search? word with
            | none => .error (.at token)
            | some search => readSearched .unlike search left literal
        else
          match search? token with
          | none => .ok (left, token :: more)
          | some search => readSearched .like search left more := by
  unfold readCompared readAt
  rw [parseCompared.eq_def]
  simp only
  cases comparison? token.kind with
  | some op =>
    simp only
    cases parseAt (.chain .sum) more <;> rfl
  | none =>
    simp only
    split
    · cases more with
      | nil => rfl
      | cons word literal =>
        simp only
        cases search? word with
        | none => rfl
        | some search => exact map_reading_widen _ _
    · cases search? token with
      | none => rfl
      | some search => exact map_reading_widen _ _

theorem readSearched_cons (op : Comparison) (search : Search) (token : Token) (rest : List Token) :
    readSearched op search left (token :: rest) =
      match token.kind with
      | .text s | .number s => .ok (.binary (.compare op) left (.text (search.pattern s)), rest)
      | _ => .error (.at token) := by
  obtain ⟨kind, start, stop⟩ := token
  unfold readSearched searched
  cases kind <;> rfl

end Comparisons

section Operands

variable {token : Token} {rest : List Token}

theorem readAt_signed_minus (h : token.kind = .minus) :
    readAt .signed (token :: rest) =
      readAt .signed rest >>= fun p => .ok (negated p.1, p.2) := by
  obtain ⟨kind, start, stop⟩ := token
  obtain rfl : kind = .minus := h
  unfold readAt
  rw [parseAt]
  cases parseAt .signed rest <;> rfl

theorem readAt_signed_primary (h : token.kind ≠ .minus) :
    readAt .signed (token :: rest) = readAt .primary (token :: rest) := by
  unfold readAt
  rw [parseAt]
  rintro start stop rest' ⟨⟩
  exact h rfl

theorem readAt_signed_nil : readAt .signed [] = .error .atEnd := by
  unfold readAt
  rw [parseAt, parseAt]
  · rfl
  · simp

theorem readAt_primary_nil : readAt .primary [] = .error .atEnd := by
  unfold readAt
  rw [parseAt]
  rfl

theorem readAt_primary_ident {name : String} (h : token.kind = .ident name) :
    readAt .primary (token :: rest) =
      match rest with
      | [] => .ok (named name, [])
      | next :: more =>
        if next.kind = .openParen then
          match more with
          | [] => readArguments [] >>= fun p => .ok (.call name p.1, p.2)
          | close :: behind =>
            if close.kind = .closeParen then .ok (.call name [], behind)
            else readArguments (close :: behind) >>= fun p => .ok (.call name p.1, p.2)
        else .ok (named name, next :: more) := by
  obtain ⟨kind, start, stop⟩ := token
  obtain rfl : kind = .ident name := h
  unfold readAt readArguments
  rw [parseAt]
  rcases rest with - | ⟨⟨kind, start, stop⟩, more⟩
  · rfl
  cases kind with
  | openParen =>
    rcases more with - | ⟨⟨kind, start, stop⟩, behind⟩
    · simp only [if_true]
      cases parseArguments [] <;> rfl
    · cases kind with
      | closeParen => rfl
      | _ =>
        simp only [if_true, reduceCtorEq, if_false]
        cases parseArguments _ <;> rfl
  | _ => rfl

theorem readAt_primary_paren (h : token.kind = .openParen) :
    readAt .primary (token :: rest) = readAt (.chain .disjunction) rest >>= fun p =>
      match p.2 with
      | [] => .error .atEnd
      | close :: more =>
        if close.kind = .closeParen then .ok (p.1, more) else .error (.at close) := by
  obtain ⟨kind, start, stop⟩ := token
  obtain rfl : kind = .openParen := h
  unfold readAt
  rw [parseAt.eq_def .primary]
  simp only
  cases parseAt (.chain .disjunction) rest with
  | error e => rfl
  | ok inner =>
    obtain ⟨value, behind, fewer⟩ := inner
    cases behind with
    | nil => rfl
    | cons close more =>
      by_cases hclose : close.kind = .closeParen
      · simp [hclose, Except.map, Parsed.reading, bind, Except.bind]
      · simp [hclose, Except.map, Parsed.reading, bind, Except.bind]

/-- The other tokens, which are read on their own or not at all. -/
theorem readAt_primary_atom (hident : ∀ name, token.kind ≠ .ident name)
    (hparen : token.kind ≠ .openParen) :
    readAt .primary (token :: rest) =
      match token.kind with
      | .number digits => .ok (.number digits, rest)
      | .text value => .ok (.text value, rest)
      | .quotedIdent name => .ok (.column (.bare name), rest)
      | _ => .error (.at token) := by
  obtain ⟨kind, start, stop⟩ := token
  unfold readAt
  rw [parseAt]
  cases kind with
  | ident name => exact absurd rfl (hident name)
  | openParen => exact absurd rfl hparen
  | _ => rfl

theorem readArguments_eq (tokens : List Token) :
    readArguments tokens = readAt (.chain .disjunction) tokens >>= fun p =>
      match p.2 with
      | [] => .error .atEnd
      | token :: more =>
        match token.kind with
        | .closeParen => .ok ([p.1], more)
        | .comma => readArguments more >>= fun q => .ok (p.1 :: q.1, q.2)
        | _ => .error (.at token) := by
  unfold readArguments readAt
  rw [parseArguments]
  cases parseAt (.chain .disjunction) tokens with
  | error e => rfl
  | ok first =>
    obtain ⟨value, behind, fewer⟩ := first
    cases behind with
    | nil => rfl
    | cons token more =>
      obtain ⟨kind, start, stop⟩ := token
      cases kind with
      | comma =>
        simp only [Except.map, Parsed.reading, bind, Except.bind]
        cases parseArguments more <;> rfl
      | _ => rfl

/-- Arguments cannot start with a closing parenthesis. -/
theorem readArguments_close (h : token.kind = .closeParen) :
    readArguments (token :: rest) = .error (.at token) := by
  have hprimary : readAt .primary (token :: rest) = .error (.at token) := by
    rw [readAt_primary_atom (by simp [h]) (by simp [h]), h]
  have hsigned : readAt .signed (token :: rest) = .error (.at token) :=
    (readAt_signed_primary (by simp [h])).trans hprimary
  simp [readArguments_eq, readAt_chain, Chain.operand, readAt_comparison, hsigned, bind,
    Except.bind]

end Operands

end PipeSql.Query
