import PipeSql.Proofs.Query.Expr
import PipeSql.Proofs.Query.Expr.Equations

/-! # The grammar of expressions

Which sequences of tokens spell an expression, told without a parser. Repetitions nest to the
left. -/

namespace PipeSql.Query

open PipeSql.Text

/-! ## Words and signs -/

/-- A plain name that is a keyword, in any case of its letters. -/
def TokenKind.spells (keyword : String) : TokenKind → Bool
  | .ident name => agree name keyword
  | _ => false

/-- The operator that a token of a kind stands for in a chain. -/
def Chain.operatorOf? (chain : Chain) (kind : TokenKind) : Option Operator :=
  match chain, kind with
  | .disjunction, .or => some (.connect .or)
  | .disjunction, .ident name => if agree name "or" then some (.connect .or) else none
  | .conjunction, .and => some (.connect .and)
  | .conjunction, .ident name => if agree name "and" then some (.connect .and) else none
  | .sum, .plus => some (.compute .add)
  | .sum, .minus => some (.compute .subtract)
  | .product, .star => some (.compute .multiply)
  | .product, .slash => some (.compute .divide)
  | .product, .percent => some (.compute .modulo)
  | _, _ => none

/-- The search that a word stands for. -/
def searchOf? (kind : TokenKind) : Option Search :=
  if kind.spells "contains" then some .contains
  else if kind.spells "startswith" then some .startsWith
  else if kind.spells "endswith" then some .endsWith
  else none

/-- The value of a literal that a search looks for. -/
def literal? : TokenKind → Option String
  | .text value | .number value => some value
  | _ => none

/-- The signs that compare; a lone `=` does, too. -/
inductive Compares : TokenKind → Comparison → Prop where
  | equal : Compares .equal .equal
  | assign : Compares .assign .equal
  | notEqual : Compares .notEqual .notEqual
  | less : Compares .less .less
  | greater : Compares .greater .greater
  | lessEqual : Compares .lessEqual .lessEqual
  | greaterEqual : Compares .greaterEqual .greaterEqual

theorem Chain.operator?_eq (chain : Chain) (token : Token) :
    chain.operator? token = chain.operatorOf? token.kind := by
  obtain ⟨kind, start, stop⟩ := token
  cases chain <;> cases kind <;> simp [Chain.operator?, Chain.operatorOf?, Token.isKeyword]

theorem search?_eq (token : Token) : search? token = searchOf? token.kind := by
  obtain ⟨kind, start, stop⟩ := token
  cases kind <;> rfl

theorem comparison?_eq_some {kind : TokenKind} {op : Comparison} :
    comparison? kind = some op ↔ Compares kind op := by
  constructor
  · intro h
    cases kind <;> cases h <;> constructor
  · intro h
    cases h <;> rfl

/-! ## Derivations -/

mutual

/-- The kinds of tokens that spell an expression of a level. -/
inductive Derives : Level → List TokenKind → Expr → Prop where
  | operand (chain : Chain) {ks e} : Derives chain.operand ks e → Derives (.chain chain) ks e
  | link {chain : Chain} {ks kind op ks' left right} :
    Derives (.chain chain) ks left → chain.operatorOf? kind = some op →
      Derives chain.operand ks' right →
        Derives (.chain chain) (ks ++ kind :: ks') (.binary op left right)
  | sum {ks e} : Derives (.chain .sum) ks e → Derives .comparison ks e
  | relate {ks kind op ks' left right} :
    Derives (.chain .sum) ks left → Compares kind op →
      Derives (.chain .sum) ks' right →
        Derives .comparison (ks ++ kind :: ks') (.binary (.compare op) left right)
  | like {ks word literal left search value} :
    Derives (.chain .sum) ks left → searchOf? word = some search →
      literal? literal = some value →
        Derives .comparison (ks ++ [word, literal])
          (.binary (.compare .like) left (.text (search.pattern value)))
  | unlike {ks word literal left search value} :
    Derives (.chain .sum) ks left → searchOf? word = some search →
      literal? literal = some value →
        Derives .comparison (ks ++ [.bang, word, literal])
          (.binary (.compare .unlike) left (.text (search.pattern value)))
  | primary {ks e} : Derives .primary ks e → Derives .signed ks e
  | negative {ks digits} :
    Derives .signed ks (.number digits) → digits.toList.head? ≠ some '-' →
      Derives .signed (.minus :: ks) (.number ("-" ++ digits))
  | positive {ks digits} :
    Derives .signed ks (.number ("-" ++ digits)) → Derives .signed (.minus :: ks) (.number digits)
  | opposite {ks e} :
    Derives .signed ks e → (∀ digits, e ≠ .number digits) →
      Derives .signed (.minus :: ks) (.binary (.compute .multiply) (.number "-1") e)
  | number (digits) : Derives .primary [.number digits] (.number digits)
  | text (value) : Derives .primary [.text value] (.text value)
  | quoted (name) : Derives .primary [.quotedIdent name] (.column (.bare name))
  | yes {name} : agree name "true" → Derives .primary [.ident name] (.bool true)
  | no {name} : agree name "false" → Derives .primary [.ident name] (.bool false)
  | column {name} :
    ¬ agree name "true" → ¬ agree name "false" →
      Derives .primary [.ident name] (.column (.ofPath name))
  | parens {ks e} :
    Derives (.chain .disjunction) ks e → Derives .primary (.openParen :: (ks ++ [.closeParen])) e
  | call (name) :
    Derives .primary [.ident name, .openParen, .closeParen] (.call name [])
  | callWith (name) {ks es} :
    DerivesAll ks es →
      Derives .primary (.ident name :: .openParen :: (ks ++ [.closeParen])) (.call name es)

/-- The kinds of tokens that spell some expressions with commas between them. -/
inductive DerivesAll : List TokenKind → List Expr → Prop where
  | one {ks e} : Derives (.chain .disjunction) ks e → DerivesAll ks [e]
  | more {ks e ks' es} :
    Derives (.chain .disjunction) ks e → DerivesAll ks' es →
      DerivesAll (ks ++ .comma :: ks') (e :: es)

end

/-! ## Signs, names and comparisons

The rules above, with what the parser makes of a sign or of a name. -/

theorem named_eq_of_agree {name : String} :
    (agree name "true" → named name = .bool true) ∧
      (agree name "false" → named name = .bool false) := by
  refine ⟨fun h => if_pos h, fun h => ?_⟩
  have htrue : ¬ agree name "true" := by
    rw [agree_iff] at h ⊢
    rw [h]
    decide
  rw [named, if_neg htrue, if_pos h]

theorem negated_number_of_head?_ne {digits : String} (h : digits.toList.head? ≠ some '-') :
    negated (.number digits) = .number ("-" ++ digits) := by
  rw [negated]
  split
  · rename_i rest hdigits
    simp [hdigits] at h
  · rfl

theorem negated_number_minus (digits : String) :
    negated (.number ("-" ++ digits)) = .number digits := by
  simp [negated]

theorem negated_of_ne_number {e : Expr} (h : ∀ digits, e ≠ .number digits) :
    negated e = .binary (.compute .multiply) (.number "-1") e := by
  cases e with
  | number digits => exact absurd rfl (h digits)
  | column | text | bool | binary | call | aggregate => rfl

namespace Derives

variable {ks ks' : List TokenKind} {e left right : Expr}

theorem compare {kind : TokenKind} {op : Comparison} (hleft : Derives (.chain .sum) ks left)
    (hop : comparison? kind = some op) (hright : Derives (.chain .sum) ks' right) :
    Derives .comparison (ks ++ kind :: ks') (.binary (.compare op) left right) :=
  .relate hleft (comparison?_eq_some.mp hop) hright

theorem minus (h : Derives .signed ks e) : Derives .signed (.minus :: ks) (negated e) := by
  by_cases hnumber : ∃ digits, e = .number digits
  · obtain ⟨digits, rfl⟩ := hnumber
    by_cases hhead : digits.toList.head? = some '-'
    · obtain ⟨rest, hrest⟩ := List.head?_eq_some_iff.mp hhead
      obtain rfl : digits = "-" ++ String.ofList rest := by
        rw [← String.toList_inj]
        simp [hrest]
      rw [negated_number_minus]
      exact h.positive
    · rw [negated_number_of_head?_ne hhead]
      exact h.negative hhead
  · rw [negated_of_ne_number fun digits heq => hnumber ⟨digits, heq⟩]
    exact h.opposite fun digits heq => hnumber ⟨digits, heq⟩

theorem name (name : String) : Derives .primary [.ident name] (named name) := by
  by_cases htrue : agree name "true"
  · rw [named_eq_of_agree.1 htrue]
    exact .yes htrue
  · by_cases hfalse : agree name "false"
    · rw [named_eq_of_agree.2 hfalse]
      exact .no hfalse
    · rw [named, if_neg htrue, if_neg hfalse]
      exact .column htrue hfalse

end Derives

/-! ## Levels -/

theorem Level.rank_injective {a b : Level} (h : a.rank = b.rank) : a = b := by
  rcases a with ⟨_ | _ | _ | _⟩ | _ | _ | _ <;> rcases b with ⟨_ | _ | _ | _⟩ | _ | _ | _ <;>
    first | rfl | cases h

/-- What a level derives, all looser levels derive. -/
theorem Derives.loosen {tight loose : Level} {ks : List TokenKind} {e : Expr}
    (h : Derives tight ks e) (hrank : tight.rank ≤ loose.rank) : Derives loose ks e := by
  induction hn : loose.rank using Nat.strongRecOn generalizing loose with
  | ind n ih =>
    subst hn
    by_cases heq : tight.rank = loose.rank
    · rw [← Level.rank_injective heq]
      exact h
    · have hlt : tight.rank < loose.rank := by omega
      rcases loose with ⟨_ | _ | _ | _⟩ | _ | _ | _
      · exact .operand _ (ih _ (by decide) (Nat.le_of_lt_succ hlt) rfl)
      · exact .operand _ (ih _ (by decide) (Nat.le_of_lt_succ hlt) rfl)
      · exact .operand _ (ih _ (by decide) (Nat.le_of_lt_succ hlt) rfl)
      · exact .operand _ (ih _ (by decide) (Nat.le_of_lt_succ hlt) rfl)
      · exact .sum (ih (Level.rank (.chain .sum)) (by decide) (Nat.le_of_lt_succ hlt) rfl)
      · exact .primary (ih (Level.rank .primary) (by decide) (Nat.le_of_lt_succ hlt) rfl)
      · cases hlt

/-! ## Where an expression ends -/

/-- A token of this kind behind an expression is read as a part of it at this level. -/
def Level.Eats : Level → TokenKind → Prop
  | .chain links, kind => (links.operatorOf? kind).isSome
  | .comparison, kind => (comparison? kind).isSome ∨ kind = .bang ∨ (searchOf? kind).isSome
  | .signed, _ => False
  | .primary, kind => kind = .openParen

/-- The keywords that a level eats. -/
def Level.keywords : Level → List String
  | .chain .disjunction => ["or"]
  | .chain .conjunction => ["and"]
  | .comparison => ["contains", "startswith", "endswith"]
  | _ => []

theorem Level.exists_keyword_of_eats {level : Level} {name : String}
    (h : level.Eats (.ident name)) : ∃ keyword ∈ level.keywords, agree name keyword := by
  rcases level with ⟨_ | _ | _ | _⟩ | _ | _ | _
  · exact ⟨"or", by simp [keywords], by simpa [Eats, Chain.operatorOf?] using h⟩
  · exact ⟨"and", by simp [keywords], by simpa [Eats, Chain.operatorOf?] using h⟩
  · cases h
  · cases h
  · simp only [Eats, comparison?, searchOf?, TokenKind.spells] at h
    simp only [keywords, List.mem_cons, List.not_mem_nil, or_false, exists_eq_or_imp,
      exists_eq_left]
    grind
  · cases h
  · cases h

theorem Level.eq_of_keywords_agree (a b : Level) :
    ∀ v ∈ a.keywords, ∀ w ∈ b.keywords, agree v w → a = b := by
  simp only [agree_iff]
  rcases a with ⟨⟨⟩⟩ | _ | _ | _ <;> rcases b with ⟨⟨⟩⟩ | _ | _ | _ <;> decide

/-- Only one level eats tokens of a kind. -/
theorem Level.eq_of_eats {a b : Level} {kind : TokenKind} (ha : a.Eats kind) (hb : b.Eats kind) :
    a = b := by
  cases kind with
  | ident name =>
    obtain ⟨v, hv, hnameV⟩ := exists_keyword_of_eats ha
    obtain ⟨w, hw, hnameW⟩ := exists_keyword_of_eats hb
    have hagree : agree v w := by
      simp only [agree, beq_iff_eq] at *
      exact hnameV.symm.trans hnameW
    exact eq_of_keywords_agree a b v hv w hw hagree
  | _ =>
    rcases a with ⟨⟨⟩⟩ | _ | _ | _ <;> rcases b with ⟨⟨⟩⟩ | _ | _ | _ <;>
      simp_all [Level.Eats, Chain.operatorOf?, comparison?, searchOf?, TokenKind.spells]

/-- No level up to the rank eats the first one of the tokens. -/
def StopsAt (rank : Nat) (rest : List Token) : Prop :=
  ∀ token ∈ rest.head?, ∀ level : Level, level.rank ≤ rank → ¬ level.Eats token.kind

theorem StopsAt.mono {m n : Nat} {rest : List Token} (h : StopsAt n rest) (hmn : m ≤ n) :
    StopsAt m rest :=
  fun token htoken level hlevel => h token htoken level (Nat.le_trans hlevel hmn)

theorem stopsAt_nil (rank : Nat) : StopsAt rank [] := by
  intro token htoken
  cases htoken

theorem stopsAt_cons {rank : Nat} {token : Token} {rest : List Token} :
    StopsAt rank (token :: rest) ↔
      ∀ level : Level, level.rank ≤ rank → ¬ level.Eats token.kind := by
  simp [StopsAt]

/-- A token that a level eats ends the expressions of all tighter levels. -/
theorem stopsAt_of_eats {level : Level} {token : Token} (h : level.Eats token.kind) {rank : Nat}
    (hrank : rank < level.rank) (rest : List Token) : StopsAt rank (token :: rest) := by
  refine stopsAt_cons.mpr fun other hother heats => ?_
  rw [Level.eq_of_eats heats h] at hother
  omega

/-- A closing parenthesis or a comma ends an expression of any level. -/
theorem stopsAt_of_closes {token : Token}
    (h : token.kind = .closeParen ∨ token.kind = .comma) (rank : Nat) (rest : List Token) :
    StopsAt rank (token :: rest) := by
  refine stopsAt_cons.mpr fun level _ heats => ?_
  rcases h with h | h <;> rw [h] at heats <;> rcases level with ⟨⟨⟩⟩ | _ | _ | _ <;>
    simp_all [Level.Eats, Chain.operatorOf?, comparison?, searchOf?, TokenKind.spells]

end PipeSql.Query
