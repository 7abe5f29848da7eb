import PipeSql.Proofs.Except
import PipeSql.Proofs.Query.Expr.Completeness
import Mathlib

/-! # The parser reads only expressions of the grammar

Each function of the parser is sound on a list of tokens when those that it calls are sound on the
list and on all shorter ones. Main statement: tokens are parsed as an expression exactly when they
spell it, and they spell no other. -/

namespace PipeSql.Query

open PipeSql.Text

/-- What is read at a level from these tokens is spelled by the tokens in front of the rest. -/
def SoundAt (level : Level) (ts : List Token) : Prop :=
  ∀ e rest, readAt level ts = .ok (e, rest) →
    ∃ before, ts = before ++ rest ∧ Derives level (before.map Token.kind) e

/-- What is read as arguments is spelled by the tokens in front of a closing parenthesis. -/
def SoundArguments (ts : List Token) : Prop :=
  ∀ es rest, readArguments ts = .ok (es, rest) →
    ∃ before close, ts = before ++ close :: rest ∧ close.kind = .closeParen ∧
      DerivesAll (before.map Token.kind) es

theorem length_of_readAt {level : Level} {ts rest : List Token} {e : Expr}
    (h : readAt level ts = .ok (e, rest)) : rest.length < ts.length := by
  unfold readAt at h
  cases hparse : parseAt level ts with
  | error stuck =>
    rw [hparse] at h
    cases h
  | ok p =>
    rw [hparse] at h
    cases h
    exact p.fewer

variable {ts : List Token}

/-! ## Chains -/

/-- What is read behind the left operand of a chain makes the chain longer. -/
theorem derives_of_readChain {chain : Chain}
    (hoperand : ∀ ts' : List Token, ts'.length < ts.length → SoundAt chain.operand ts')
    {ks : List TokenKind} {left e : Expr} {rest : List Token}
    (hleft : Derives (.chain chain) ks left) (h : readChain chain left ts = .ok (e, rest)) :
    ∃ before, ts = before ++ rest ∧ Derives (.chain chain) (ks ++ before.map Token.kind) e := by
  induction hn : ts.length using Nat.strongRecOn generalizing ts ks left with
  | ind n ih =>
    cases ts with
    | nil =>
      rw [readChain_nil] at h
      cases h
      exact ⟨[], rfl, by simpa using hleft⟩
    | cons token more =>
      rw [readChain_cons, chain.operator?_eq] at h
      cases hop : chain.operatorOf? token.kind with
      | none =>
        simp only [hop] at h
        cases h
        exact ⟨[], rfl, by simpa using hleft⟩
      | some op =>
        simp only [hop, bind_eq_ok_iff] at h
        obtain ⟨⟨right, behind⟩, hright, h⟩ := h
        have hfewer := length_of_readAt hright
        obtain ⟨first, rfl, hderives⟩ := hoperand more (by simp) right behind hright
        -- the chain up to here is the left operand of what follows
        obtain ⟨second, rfl, hall⟩ := ih behind.length (by simp at hn; omega)
          (fun ts' hts' => hoperand ts' (by simp at hts' ⊢; omega)) (hleft.link hop hderives) h rfl
        refine ⟨token :: first ++ second, by simp, ?_⟩
        simpa using hall

theorem SoundAt.chain {chain : Chain} (h : SoundAt chain.operand ts)
    (hshorter : ∀ ts' : List Token, ts'.length < ts.length → SoundAt chain.operand ts') :
    SoundAt (.chain chain) ts := by
  intro e rest hread
  rw [readAt_chain, bind_eq_ok_iff] at hread
  obtain ⟨⟨left, behind⟩, hleft, hread⟩ := hread
  have hfewer := length_of_readAt hleft
  obtain ⟨first, rfl, hderives⟩ := h left behind hleft
  obtain ⟨second, rfl, hall⟩ := derives_of_readChain
    (fun ts' hts' => hshorter ts' (Nat.lt_trans hts' hfewer)) (.operand chain hderives) hread
  exact ⟨first ++ second, by simp, by simpa using hall⟩

/-! ## Comparisons -/

theorem derives_of_readSearched {op : Comparison} {search : Search} {left e : Expr}
    {rest : List Token} (h : readSearched op search left ts = .ok (e, rest)) :
    ∃ literal value, ts = literal :: rest ∧ literal? literal.kind = some value ∧
      e = .binary (.compare op) left (.text (search.pattern value)) := by
  cases ts with
  | nil => cases h
  | cons token more =>
    obtain ⟨kind, start, stop⟩ := token
    rw [readSearched_cons] at h
    cases kind with
    | text value =>
      cases h
      exact ⟨_, value, rfl, rfl, rfl⟩
    | number value =>
      cases h
      exact ⟨_, value, rfl, rfl, rfl⟩
    | _ => cases h

theorem SoundAt.comparison (h : SoundAt (.chain .sum) ts)
    (hshorter : ∀ ts' : List Token, ts'.length < ts.length → SoundAt (.chain .sum) ts') :
    SoundAt .comparison ts := by
  intro e rest hread
  rw [readAt_comparison, bind_eq_ok_iff] at hread
  obtain ⟨⟨left, behind⟩, hleft, hread⟩ := hread
  have hfewer := length_of_readAt hleft
  obtain ⟨first, rfl, hderives⟩ := h left behind hleft
  change readCompared left behind = _ at hread
  cases behind with
  | nil =>
    rw [readCompared_nil] at hread
    cases hread
    exact ⟨first, rfl, .sum hderives⟩
  | cons token more =>
    rw [readCompared_cons] at hread
    cases hcompare : comparison? token.kind with
    | some op =>
      simp only [hcompare, bind_eq_ok_iff] at hread
      obtain ⟨⟨right, after⟩, hright, hread⟩ := hread
      cases hread
      obtain ⟨second, rfl, hsecond⟩ := hshorter more (by simp; omega) right _ hright
      refine ⟨first ++ token :: second, by simp, ?_⟩
      simpa using hderives.compare hcompare hsecond
    | none =>
      simp only [hcompare] at hread
      by_cases hbang : token.kind = .bang
      · simp only [hbang, if_true] at hread
        cases more with
        | nil => cases hread
        | cons word found =>
          simp only [search?_eq] at hread
          cases hsearch : searchOf? word.kind with
          | none =>
            simp only [hsearch] at hread
            cases hread
          | some search =>
            simp only [hsearch] at hread
            obtain ⟨literal, value, rfl, hliteral, rfl⟩ := derives_of_readSearched hread
            refine ⟨first ++ [token, word, literal], by simp, ?_⟩
            simpa [hbang] using hderives.unlike hsearch hliteral
      · simp only [hbang, if_false, search?_eq] at hread
        cases hsearch : searchOf? token.kind with
        | none =>
          simp only [hsearch] at hread
          cases hread
          exact ⟨first, rfl, .sum hderives⟩
        | some search =>
          simp only [hsearch] at hread
          obtain ⟨literal, value, rfl, hliteral, rfl⟩ := derives_of_readSearched hread
          refine ⟨first ++ [token, literal], by simp, ?_⟩
          simpa using hderives.like hsearch hliteral

/-! ## Operands -/

theorem SoundAt.signed (h : SoundAt .primary ts)
    (hshorter : ∀ ts' : List Token, ts'.length < ts.length → SoundAt .signed ts') :
    SoundAt .signed ts := by
  intro e rest hread
  cases ts with
  | nil =>
    rw [readAt_signed_nil] at hread
    cases hread
  | cons token more =>
    by_cases hminus : token.kind = .minus
    · rw [readAt_signed_minus hminus, bind_eq_ok_iff] at hread
      obtain ⟨⟨inner, after⟩, hinner, hread⟩ := hread
      cases hread
      obtain ⟨before, rfl, hderives⟩ := hshorter more (by simp) inner _ hinner
      refine ⟨token :: before, rfl, ?_⟩
      simpa [hminus] using hderives.minus
    · rw [readAt_signed_primary hminus] at hread
      obtain ⟨before, hbefore, hderives⟩ := h e rest hread
      exact ⟨before, hbefore, .primary hderives⟩

theorem derives_of_readArguments {name : String} {token paren : Token} {rest : List Token}
    {e : Expr} (htoken : token.kind = .ident name) (hparen : paren.kind = .openParen)
    (harguments : SoundArguments ts)
    (h : (readArguments ts >>= fun p => .ok (.call name p.1, p.2)) = .ok (e, rest)) :
    ∃ before, token :: paren :: ts = before ++ rest ∧
      Derives .primary (before.map Token.kind) e := by
  obtain ⟨⟨es, after⟩, hes, h⟩ := bind_eq_ok_iff.mp h
  cases h
  obtain ⟨before, close, rfl, hclose, hderives⟩ := harguments es _ hes
  refine ⟨token :: paren :: (before ++ [close]), by simp, ?_⟩
  simpa [htoken, hparen, hclose] using Derives.callWith name hderives

theorem SoundAt.primary
    (hshorter : ∀ ts' : List Token, ts'.length < ts.length → SoundAt (.chain .disjunction) ts')
    (harguments : ∀ ts' : List Token, ts'.length < ts.length → SoundArguments ts') :
    SoundAt .primary ts := by
  intro e rest hread
  cases ts with
  | nil =>
    rw [readAt_primary_nil] at hread
    cases hread
  | cons token more =>
    obtain ⟨kind, start, stop⟩ := token
    cases kind with
    | ident name =>
      rw [readAt_primary_ident rfl] at hread
      rcases more with - | ⟨⟨kind, start, stop⟩, inner⟩
      · cases hread
        exact ⟨[_], rfl, .name name⟩
      by_cases hopen : kind = .openParen
      · subst hopen
        simp only [if_true] at hread
        have hinner : SoundArguments inner :=
          harguments inner (by simp only [List.length_cons]; omega)
        cases inner with
        | nil => exact derives_of_readArguments rfl rfl hinner hread
        | cons close behind =>
          by_cases hclose : close.kind = .closeParen
          · simp only [hclose, if_true] at hread
            cases hread
            refine ⟨[_, ⟨.openParen, start, stop⟩, close], rfl, ?_⟩
            simpa [hclose] using Derives.call name
          · simp only [hclose, if_false] at hread
            exact derives_of_readArguments rfl rfl hinner hread
      · simp only [hopen, if_false] at hread
        cases hread
        exact ⟨[_], rfl, .name name⟩
    | openParen =>
      rw [readAt_primary_paren rfl, bind_eq_ok_iff] at hread
      obtain ⟨⟨inner, after⟩, hinner, hread⟩ := hread
      obtain ⟨before, rfl, hderives⟩ := hshorter more (by simp) inner after hinner
      cases after with
      | nil => cases hread
      | cons close behind =>
        by_cases hclose : close.kind = .closeParen
        · simp only [hclose, if_true] at hread
          cases hread
          refine ⟨⟨.openParen, start, stop⟩ :: (before ++ [close]), by simp, ?_⟩
          simpa [hclose] using hderives.parens
        · simp only [hclose, if_false] at hread
          cases hread
    | number digits =>
      rw [readAt_primary_atom (by simp) (by simp)] at hread
      cases hread
      exact ⟨[_], rfl, .number digits⟩
    | text value =>
      rw [readAt_primary_atom (by simp) (by simp)] at hread
      cases hread
      exact ⟨[_], rfl, .text value⟩
    | quotedIdent name =>
      rw [readAt_primary_atom (by simp) (by simp)] at hread
      cases hread
      exact ⟨[_], rfl, .quoted name⟩
    | _ =>
      rw [readAt_primary_atom (by simp) (by simp)] at hread
      cases hread

theorem SoundArguments.of_disjunction (h : SoundAt (.chain .disjunction) ts)
    (hshorter : ∀ ts' : List Token, ts'.length < ts.length → SoundArguments ts') :
    SoundArguments ts := by
  intro es rest hread
  rw [readArguments_eq, bind_eq_ok_iff] at hread
  obtain ⟨⟨first, after⟩, hfirst, hread⟩ := hread
  have hfewer := length_of_readAt hfirst
  obtain ⟨before, rfl, hderives⟩ := h first after hfirst
  rcases after with - | ⟨⟨kind, start, stop⟩, more⟩
  · cases hread
  cases kind with
  | closeParen =>
    cases hread
    exact ⟨before, _, rfl, rfl, .one hderives⟩
  | comma =>
    obtain ⟨⟨others, behind⟩, hothers, hread⟩ := bind_eq_ok_iff.mp hread
    cases hread
    obtain ⟨second, close, rfl, hclose, hall⟩ := hshorter more (by simp; omega) others _ hothers
    refine ⟨before ++ ⟨.comma, start, stop⟩ :: second, close, by simp, hclose, ?_⟩
    simpa using DerivesAll.more hderives hall
  | _ => cases hread

/-! ## All lists of tokens -/

/-- What holds of each function of the parser on a list of tokens, when it holds on the same list of
those that it calls, and of all of them on shorter lists. -/
theorem parser_induction {P : Level → List Token → Prop} {Q : List Token → Prop}
    (primary : ∀ ts, (∀ ts' : List Token, ts'.length < ts.length → P (.chain .disjunction) ts') →
      (∀ ts' : List Token, ts'.length < ts.length → Q ts') → P .primary ts)
    (signed : ∀ ts, P .primary ts →
      (∀ ts' : List Token, ts'.length < ts.length → P .signed ts') → P .signed ts)
    (chain : ∀ (chain : Chain) ts, P chain.operand ts →
      (∀ ts' : List Token, ts'.length < ts.length → P chain.operand ts') → P (.chain chain) ts)
    (comparison : ∀ ts, P (.chain .sum) ts →
      (∀ ts' : List Token, ts'.length < ts.length → P (.chain .sum) ts') → P .comparison ts)
    (arguments : ∀ ts, P (.chain .disjunction) ts →
      (∀ ts' : List Token, ts'.length < ts.length → Q ts') → Q ts) (ts : List Token) :
    (∀ level, P level ts) ∧ Q ts := by
  induction hn : ts.length using Nat.strongRecOn generalizing ts with
  | ind n ih =>
    subst hn
    have hlevels : ∀ level, ∀ ts' : List Token, ts'.length < ts.length → P level ts' :=
      fun level ts' hts' => (ih _ hts' ts' rfl).1 level
    have harguments : ∀ ts' : List Token, ts'.length < ts.length → Q ts' :=
      fun ts' hts' => (ih _ hts' ts' rfl).2
    -- on this list the levels follow from each other, from the tightest on
    have hprimary : P .primary ts := primary ts (hlevels _) harguments
    have hsigned : P .signed ts := signed ts hprimary (hlevels _)
    have hproduct : P (.chain .product) ts := chain .product ts hsigned (hlevels _)
    have hsum : P (.chain .sum) ts := chain .sum ts hproduct (hlevels _)
    have hcomparison : P .comparison ts := comparison ts hsum (hlevels _)
    have hconjunction : P (.chain .conjunction) ts :=
      chain .conjunction ts hcomparison (hlevels _)
    have hdisjunction : P (.chain .disjunction) ts :=
      chain .disjunction ts hconjunction (hlevels _)
    refine ⟨?_, arguments ts hdisjunction harguments⟩
    rintro (⟨_ | _ | _ | _⟩ | _ | _ | _) <;> assumption

/-- What the parser reads is spelled by the tokens that it takes. -/
theorem soundAt_and_soundArguments (ts : List Token) :
    (∀ level, SoundAt level ts) ∧ SoundArguments ts :=
  parser_induction (fun _ => .primary) (fun _ => .signed) (fun _ _ => .chain)
    (fun _ => .comparison) (fun _ => .of_disjunction) ts

/-- Tokens that are parsed as an expression spell it. -/
theorem derives_of_ofTokens {source : List Char} {ts : List Token} {e : Expr}
    (h : Expr.ofTokens source ts = .ok e) :
    Derives (.chain .disjunction) (ts.map Token.kind) e := by
  unfold Expr.ofTokens at h
  cases hparse : parseAt (.chain .disjunction) ts with
  | error stuck =>
    rw [hparse] at h
    cases h
  | ok p =>
    obtain ⟨value, rest, fewer⟩ := p
    rw [hparse] at h
    cases rest with
    | cons token more => cases h
    | nil =>
      cases h
      have hread : readAt (.chain .disjunction) ts = .ok (value, []) := by
        rw [readAt, hparse]
        rfl
      obtain ⟨before, rfl, hderives⟩ :=
        (soundAt_and_soundArguments ts).1 _ value [] hread
      simpa using hderives

/-! ## Exactly the grammar -/

/-- The parser accepts tokens exactly when they spell an expression, which is the one that it
gives: no tokens spell two. -/
theorem ofTokens_eq_ok_iff_derives (source : List Char) (ts : List Token) (e : Expr) :
    (Expr.ofTokens source ts = .ok e ↔ Derives (.chain .disjunction) (ts.map Token.kind) e) ∧
      (Derives (.chain .disjunction) (ts.map Token.kind) e →
        ∀ other, Derives (.chain .disjunction) (ts.map Token.kind) other → other = e) := by
  refine ⟨⟨derives_of_ofTokens, Expr.ofTokens_of_derives source⟩, ?_⟩
  intro h other hother
  have hboth : Except.ok other = Except.ok e :=
    (Expr.ofTokens_of_derives source hother).symm.trans (Expr.ofTokens_of_derives source h)
  exact Except.ok.inj hboth

/-- `or OR contains contains 'x'`, in which the first keyword of each kind is a column. -/
def keywordTokens : List Token :=
  [⟨.ident "or", 0, 2⟩, ⟨.ident "OR", 3, 5⟩, ⟨.ident "contains", 6, 14⟩,
    ⟨.ident "contains", 15, 23⟩, ⟨.text "x", 24, 27⟩]

def keywordColumns : Expr :=
  .binary (.connect .or) (.column (.ofPath "or"))
    (.binary (.compare .like) (.column (.ofPath "contains"))
      (.text (Search.contains.pattern "x")))

theorem derives_keywordColumns :
    Derives (.chain .disjunction) (keywordTokens.map Token.kind) keywordColumns := by
  have hword : ∀ name ∈ ["or", "contains"],
      Derives .primary [.ident name] (.column (.ofPath name)) := by
    intro name hname
    refine .column ?_ ?_ <;> rw [agree_iff] <;> revert name <;> decide
  have hleft : Derives (.chain .disjunction) [.ident "or"] (.column (.ofPath "or")) :=
    (hword "or" (by simp)).loosen (by decide)
  have hsearched : Derives (.chain .sum) [.ident "contains"] (.column (.ofPath "contains")) :=
    (hword "contains" (by simp)).loosen (by decide)
  have hcontains : searchOf? (.ident "contains") = some .contains :=
    if_pos (agree_iff.mpr rfl)
  have hright : Derives (.chain .conjunction) [.ident "contains", .ident "contains", .text "x"]
      (.binary (.compare .like) (.column (.ofPath "contains"))
        (.text (Search.contains.pattern "x"))) :=
    (hsearched.like hcontains rfl).loosen (by decide)
  have hor : Chain.operatorOf? .disjunction (.ident "OR") = some (.connect .or) :=
    if_pos (agree_iff.mpr (by decide))
  exact hleft.link hor hright

theorem ofTokens_eq_ok_iff_derives_keywords :
    tokens "or OR contains contains 'x'".toList = .ok keywordTokens ∧
      Expr.ofTokens "or OR contains contains 'x'".toList keywordTokens = .ok keywordColumns ∧
      ∀ other, Derives (.chain .disjunction) (keywordTokens.map Token.kind) other →
        other = keywordColumns := by
  obtain ⟨haccepts, hunique⟩ :=
    ofTokens_eq_ok_iff_derives "or OR contains contains 'x'".toList keywordTokens keywordColumns
  exact ⟨by cbv, haccepts.mpr derives_keywordColumns, hunique derives_keywordColumns⟩

end PipeSql.Query
