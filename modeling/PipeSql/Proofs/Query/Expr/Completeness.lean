import PipeSql.Proofs.Except
import PipeSql.Proofs.Query.Expr.Grammar

/-! # The parser reads all expressions of the grammar

Behind an expression the parser goes on where the chain of its level may go on, so that a derivation
of the expression is followed from the left. -/

namespace PipeSql.Query

/-- The loosest rank at which the operands of a level are read. -/
def Level.inner : Level → Nat
  | .chain links => links.operand.rank
  | level => level.rank

theorem Level.inner_le_rank (level : Level) : level.inner ≤ level.rank := by
  cases level with
  | chain links => exact Nat.le_of_lt links.operand_rank_lt
  | _ => exact Nat.le_refl _

/-- What is read behind an expression of a level: the rest of a chain. -/
def resume : Level → Expr → List Token → Except Stuck (Expr × List Token)
  | .chain chain, e, rest => readChain chain e rest
  | _, e, rest => .ok (e, rest)

theorem resume_of_stopsAt {level : Level} {rest : List Token} (e : Expr)
    (h : StopsAt level.rank rest) : resume level e rest = .ok (e, rest) := by
  cases level with
  | chain links =>
    cases rest with
    | nil => exact readChain_nil links e
    | cons token more =>
      have hnone : links.operatorOf? token.kind = none := by
        simpa [Level.Eats] using stopsAt_cons.mp h (.chain links) (Nat.le_refl _)
      rw [resume, readChain_cons, links.operator?_eq, hnone]
  | _ => rfl

/-- Tokens of these kinds are read as the expression, whatever ends it behind them. -/
def Reads (level : Level) (ks : List TokenKind) (e : Expr) : Prop :=
  ∀ ts rest, ts.map Token.kind = ks → StopsAt level.inner rest →
    readAt level (ts ++ rest) = resume level e rest

/-- Tokens of these kinds are read as arguments up to a closing parenthesis. -/
def ReadsAll (ks : List TokenKind) (es : List Expr) : Prop :=
  ∀ ts close rest, ts.map Token.kind = ks → close.kind = .closeParen →
    readArguments (ts ++ close :: rest) = .ok (es, rest)

variable {ks ks' : List TokenKind} {e left right : Expr} {es : List Expr}

theorem Reads.readAt_eq {level : Level} (h : Reads level ks e) {ts rest : List Token}
    (hts : ts.map Token.kind = ks) (hrest : StopsAt level.rank rest) :
    readAt level (ts ++ rest) = .ok (e, rest) := by
  rw [h ts rest hts (hrest.mono level.inner_le_rank), resume_of_stopsAt e hrest]

/-! ## Searches -/

theorem readSearched_eq (op : Comparison) (search : Search) {literal : Token} {value : String}
    (h : literal? literal.kind = some value) (rest : List Token) :
    readSearched op search left (literal :: rest) =
      .ok (.binary (.compare op) left (.text (search.pattern value)), rest) := by
  obtain ⟨kind, start, stop⟩ := literal
  rw [readSearched_cons]
  cases kind <;> simp_all [literal?]

theorem comparison?_eq_none {word : TokenKind} {search : Search}
    (h : searchOf? word = some search) :
    comparison? word = none ∧ word ≠ .bang := by
  cases word <;> simp_all [searchOf?, TokenKind.spells, comparison?]

/-- The tokens of a search behind the expression that is searched, with the comparison that they
spell. -/
inductive Seeks (search : Search) (needle : String) (rest : List Token) :
    Comparison → List Token → Prop where
  | plain {word literal} :
    search? word = some search → literal? literal.kind = some needle →
      Seeks search needle rest .like (word :: literal :: rest)
  | negated {bang word literal} :
    bang.kind = .bang → search? word = some search → literal? literal.kind = some needle →
      Seeks search needle rest .unlike (bang :: word :: literal :: rest)

theorem readCompared_seeks {search : Search} {needle : String} {op : Comparison}
    {behind rest : List Token} (h : Seeks search needle rest op behind) :
    readCompared left behind =
      .ok (.binary (.compare op) left (.text (search.pattern needle)), rest) := by
  cases h with
  | plain hword hliteral =>
    obtain ⟨hcompare, hbang⟩ := comparison?_eq_none ((search?_eq _).symm.trans hword)
    rw [readCompared_cons, hcompare]
    simp only [hbang, if_false, hword]
    exact readSearched_eq .like search hliteral rest
  | negated hbang hword hliteral =>
    rw [readCompared_cons, hbang]
    simp only [comparison?, if_true, hword]
    exact readSearched_eq .unlike search hliteral rest

namespace Reads

/-! ## Chains -/

theorem operand {chain : Chain} (h : Reads chain.operand ks e) : Reads (.chain chain) ks e := by
  intro ts rest hts hrest
  rw [readAt_chain, h.readAt_eq hts hrest]
  rfl

theorem link {chain : Chain} {kind : TokenKind} {op : Operator}
    (hleft : Reads (.chain chain) ks left) (hop : chain.operatorOf? kind = some op)
    (hright : Reads chain.operand ks' right) :
    Reads (.chain chain) (ks ++ kind :: ks') (.binary op left right) := by
  intro ts rest hts hrest
  obtain ⟨before, behind, rfl, hbefore, hbehind⟩ := List.map_eq_append_iff.mp hts
  obtain ⟨token, after, rfl, hkind, hafter⟩ := List.map_eq_cons_iff.mp hbehind
  -- the operator ends the left operand, and the chain goes on behind it
  have heats : (Level.chain chain).Eats token.kind := by
    rw [hkind]
    simp [Level.Eats, hop]
  have hstop := stopsAt_of_eats heats chain.operand_rank_lt (after ++ rest)
  rw [List.append_assoc, List.cons_append, hleft before _ hbefore hstop, resume, readChain_cons,
    chain.operator?_eq, hkind, hop]
  simp only
  rw [hright.readAt_eq hafter hrest]
  rfl

/-! ## Comparisons -/

theorem sum (h : Reads (.chain .sum) ks e) : Reads .comparison ks e := by
  intro ts rest hts hrest
  rw [readAt_comparison, h.readAt_eq hts (hrest.mono (by decide))]
  cases rest with
  | nil => exact readCompared_nil e
  | cons token more =>
    have hnot := stopsAt_cons.mp hrest .comparison (Nat.le_refl _)
    simp only [Level.Eats, not_or, Option.not_isSome_iff_eq_none] at hnot
    obtain ⟨hcompare, hbang, hsearch⟩ := hnot
    change readCompared e (token :: more) = _
    simp only [readCompared_cons, hcompare, hbang, if_false, search?_eq, hsearch]
    rfl

/-- The tokens behind the left operand of a comparison. -/
theorem readAt_comparison_eq (hleft : Reads (.chain .sum) ks left) {ts rest : List Token}
    (hts : ts.map Token.kind = ks) {token : Token} (htoken : Level.comparison.Eats token.kind) :
    readAt .comparison (ts ++ token :: rest) = readCompared left (token :: rest) := by
  rw [readAt_comparison, hleft.readAt_eq hts (stopsAt_of_eats htoken (by decide) rest)]
  rfl

theorem compare {kind : TokenKind} {op : Comparison} (hleft : Reads (.chain .sum) ks left)
    (hop : comparison? kind = some op) (hright : Reads (.chain .sum) ks' right) :
    Reads .comparison (ks ++ kind :: ks') (.binary (.compare op) left right) := by
  intro ts rest hts hrest
  obtain ⟨before, behind, rfl, hbefore, hbehind⟩ := List.map_eq_append_iff.mp hts
  obtain ⟨token, after, rfl, hkind, hafter⟩ := List.map_eq_cons_iff.mp hbehind
  have heats : Level.comparison.Eats token.kind := by
    rw [hkind]
    exact .inl (by simp [hop])
  rw [List.append_assoc, List.cons_append, readAt_comparison_eq hleft hbefore heats,
    readCompared_cons, hkind, hop]
  simp only
  rw [hright.readAt_eq hafter (hrest.mono (by decide))]
  rfl

theorem like {word literal : TokenKind} {search : Search} {value : String}
    (hleft : Reads (.chain .sum) ks left) (hword : searchOf? word = some search)
    (hliteral : literal? literal = some value) :
    Reads .comparison (ks ++ [word, literal])
      (.binary (.compare .like) left (.text (search.pattern value))) := by
  intro ts rest hts hrest
  obtain ⟨before, behind, rfl, hbefore, hbehind⟩ := List.map_eq_append_iff.mp hts
  obtain ⟨token, after, rfl, rfl, hafter⟩ := List.map_eq_cons_iff.mp hbehind
  obtain ⟨found, last, rfl, rfl, hlast⟩ := List.map_eq_cons_iff.mp hafter
  obtain rfl : last = [] := List.map_eq_nil_iff.mp hlast
  have heats : Level.comparison.Eats token.kind := .inr (.inr (by simp [hword]))
  rw [List.append_assoc, List.cons_append, readAt_comparison_eq hleft hbefore heats]
  exact readCompared_seeks (.plain ((search?_eq token).trans hword) hliteral)

theorem unlike {word literal : TokenKind} {search : Search} {value : String}
    (hleft : Reads (.chain .sum) ks left) (hword : searchOf? word = some search)
    (hliteral : literal? literal = some value) :
    Reads .comparison (ks ++ [.bang, word, literal])
      (.binary (.compare .unlike) left (.text (search.pattern value))) := by
  intro ts rest hts hrest
  obtain ⟨before, behind, rfl, hbefore, hbehind⟩ := List.map_eq_append_iff.mp hts
  obtain ⟨bang, behind, rfl, hbang, hbehind⟩ := List.map_eq_cons_iff.mp hbehind
  obtain ⟨token, after, rfl, rfl, hafter⟩ := List.map_eq_cons_iff.mp hbehind
  obtain ⟨found, last, rfl, rfl, hlast⟩ := List.map_eq_cons_iff.mp hafter
  obtain rfl : last = [] := List.map_eq_nil_iff.mp hlast
  have heats : Level.comparison.Eats bang.kind := .inr (.inl hbang)
  rw [List.append_assoc, List.cons_append, readAt_comparison_eq hleft hbefore heats]
  exact readCompared_seeks (.negated hbang ((search?_eq token).trans hword) hliteral)

/-! ## Operands -/

theorem primary (h : Reads .primary ks e) : Reads .signed ks e := by
  intro ts rest hts hrest
  have hread : readAt .primary (ts ++ rest) = .ok (e, rest) :=
    h.readAt_eq hts (hrest.mono (by decide))
  -- the operand has a first token, which is no sign since it is read
  cases htokens : ts ++ rest with
  | nil =>
    rw [htokens, readAt_primary_nil] at hread
    cases hread
  | cons token more =>
    rw [htokens] at hread
    rw [readAt_signed_primary, hread]
    · rfl
    · intro hminus
      rw [readAt_primary_atom (by simp [hminus]) (by simp [hminus]), hminus] at hread
      cases hread

theorem minus (h : Reads .signed ks e) : Reads .signed (.minus :: ks) (negated e) := by
  intro ts rest hts hrest
  obtain ⟨token, after, rfl, hkind, hafter⟩ := List.map_eq_cons_iff.mp hts
  rw [List.cons_append, readAt_signed_minus hkind, h.readAt_eq hafter hrest]
  rfl

theorem atom {kind : TokenKind} (hident : ∀ name, kind ≠ .ident name) (hparen : kind ≠ .openParen)
    (h : ∀ token rest, (match kind with
      | .number digits => .ok (.number digits, rest)
      | .text value => .ok (.text value, rest)
      | .quotedIdent name => .ok (.column (.bare name), rest)
      | _ => .error (.at token) : Except Stuck (Expr × List Token)) = .ok (e, rest)) :
    Reads .primary [kind] e := by
  intro ts rest hts hrest
  obtain ⟨token, after, rfl, rfl, hafter⟩ := List.map_eq_cons_iff.mp hts
  obtain rfl : after = [] := List.map_eq_nil_iff.mp hafter
  rw [List.cons_append, readAt_primary_atom hident hparen]
  exact h token rest

theorem name (name : String) : Reads .primary [.ident name] (named name) := by
  intro ts rest hts hrest
  obtain ⟨token, after, rfl, hkind, hafter⟩ := List.map_eq_cons_iff.mp hts
  obtain rfl : after = [] := List.map_eq_nil_iff.mp hafter
  rw [List.cons_append, readAt_primary_ident hkind]
  cases rest with
  | nil => rfl
  | cons next more =>
    have hnext : next.kind ≠ .openParen := stopsAt_cons.mp hrest .primary (Nat.le_refl _)
    simp only [List.nil_append, hnext, if_false]
    rfl

theorem parens (h : Reads (.chain .disjunction) ks e) :
    Reads .primary (.openParen :: (ks ++ [.closeParen])) e := by
  intro ts rest hts hrest
  obtain ⟨token, behind, rfl, hkind, hbehind⟩ := List.map_eq_cons_iff.mp hts
  obtain ⟨inner, after, rfl, hinner, hafter⟩ := List.map_eq_append_iff.mp hbehind
  obtain ⟨close, last, rfl, hclose, hlast⟩ := List.map_eq_cons_iff.mp hafter
  obtain rfl : last = [] := List.map_eq_nil_iff.mp hlast
  rw [List.cons_append, List.append_assoc, List.singleton_append, readAt_primary_paren hkind,
    h.readAt_eq hinner (stopsAt_of_closes (.inl hclose) _ _)]
  simp [bind, Except.bind, hclose, resume]

theorem call (name : String) :
    Reads .primary [.ident name, .openParen, .closeParen] (.call name []) := by
  intro ts rest hts hrest
  obtain ⟨token, behind, rfl, hkind, hbehind⟩ := List.map_eq_cons_iff.mp hts
  obtain ⟨paren, after, rfl, hparen, hafter⟩ := List.map_eq_cons_iff.mp hbehind
  obtain ⟨close, last, rfl, hclose, hlast⟩ := List.map_eq_cons_iff.mp hafter
  obtain rfl : last = [] := List.map_eq_nil_iff.mp hlast
  rw [List.cons_append, readAt_primary_ident hkind]
  simp [hparen, hclose, resume]

theorem callWith (name : String) (h : ReadsAll ks es) :
    Reads .primary (.ident name :: .openParen :: (ks ++ [.closeParen])) (.call name es) := by
  intro ts rest hts hrest
  obtain ⟨token, behind, rfl, hkind, hbehind⟩ := List.map_eq_cons_iff.mp hts
  obtain ⟨paren, behind, rfl, hparen, hbehind⟩ := List.map_eq_cons_iff.mp hbehind
  obtain ⟨inner, after, rfl, hinner, hafter⟩ := List.map_eq_append_iff.mp hbehind
  obtain ⟨close, last, rfl, hclose, hlast⟩ := List.map_eq_cons_iff.mp hafter
  obtain rfl : last = [] := List.map_eq_nil_iff.mp hlast
  have hread := h inner close rest hinner hclose
  rw [List.cons_append, List.cons_append, List.append_assoc, List.singleton_append,
    readAt_primary_ident hkind]
  simp only [hparen, if_true]
  cases hmore : inner ++ close :: rest with
  | nil => simp at hmore
  | cons first more =>
    rw [hmore] at hread
    have hfirst : first.kind ≠ .closeParen := by
      intro hfirst
      rw [readArguments_close hfirst] at hread
      cases hread
    simp only [hfirst, if_false, hread]
    rfl

end Reads

/-! ## Arguments -/

theorem ReadsAll.one (h : Reads (.chain .disjunction) ks e) : ReadsAll ks [e] := by
  intro ts close rest hts hclose
  rw [readArguments_eq, h.readAt_eq hts (stopsAt_of_closes (.inl hclose) _ _)]
  simp [bind, Except.bind, hclose]

theorem ReadsAll.more (h : Reads (.chain .disjunction) ks e) (hrest : ReadsAll ks' es) :
    ReadsAll (ks ++ .comma :: ks') (e :: es) := by
  intro ts close rest hts hclose
  obtain ⟨first, behind, rfl, hfirst, hbehind⟩ := List.map_eq_append_iff.mp hts
  obtain ⟨comma, others, rfl, hcomma, hothers⟩ := List.map_eq_cons_iff.mp hbehind
  rw [List.append_assoc, List.cons_append, readArguments_eq,
    h.readAt_eq hfirst (stopsAt_of_closes (.inr hcomma) _ _)]
  simp [bind, Except.bind, hcomma, hrest others close rest hothers hclose]

/-! ## Derivations -/

/-- Tokens whose kinds spell an expression are read as it. -/
theorem Derives.reads {level : Level} (h : Derives level ks e) : Reads level ks e := by
  induction h using Derives.rec (motive_2 := fun ks es _ => ReadsAll ks es) with
  | operand chain _ ih => exact ih.operand
  | link _ hop _ hleft hright => exact hleft.link hop hright
  | sum _ ih => exact ih.sum
  | relate _ hop _ hleft hright => exact hleft.compare (comparison?_eq_some.mpr hop) hright
  | like _ hword hliteral ih => exact ih.like hword hliteral
  | unlike _ hword hliteral ih => exact ih.unlike hword hliteral
  | primary _ ih => exact ih.primary
  | negative _ hhead ih => simpa only [negated_number_of_head?_ne hhead] using ih.minus
  | positive _ ih => simpa only [negated_number_minus] using ih.minus
  | opposite _ hnumber ih => simpa only [negated_of_ne_number hnumber] using ih.minus
  | number digits => exact .atom (by simp) (by simp) fun _ _ => rfl
  | text value => exact .atom (by simp) (by simp) fun _ _ => rfl
  | quoted name => exact .atom (by simp) (by simp) fun _ _ => rfl
  | @yes name h => simpa only [named_eq_of_agree.1 h] using Reads.name name
  | @no name h => simpa only [named_eq_of_agree.2 h] using Reads.name name
  | @column name htrue hfalse =>
    simpa only [named, if_neg htrue, if_neg hfalse] using Reads.name name
  | parens _ ih => exact ih.parens
  | call name => exact .call name
  | callWith name _ ih => exact .callWith name ih
  | one _ ih => exact .one ih
  | more _ _ ih hrest => exact .more ih hrest

/-- A text whose tokens spell an expression is parsed as it. -/
theorem Expr.ofTokens_of_derives {ts : List Token} (source : List Char)
    (h : Derives (.chain .disjunction) (ts.map Token.kind) e) :
    Expr.ofTokens source ts = .ok e := by
  have hread : readAt (.chain .disjunction) ts = .ok (e, []) := by
    simpa using h.reads.readAt_eq rfl (stopsAt_nil _)
  unfold readAt at hread
  unfold Expr.ofTokens
  cases hparse : parseAt (.chain .disjunction) ts with
  | error stuck =>
    rw [hparse] at hread
    cases hread
  | ok p =>
    obtain ⟨value, rest, fewer⟩ := p
    rw [hparse] at hread
    cases hread
    rfl

end PipeSql.Query
