import PipeSql.Proofs.Query.Expr.Soundness

/-! # What the parser leaves of its tokens

A part of the tokens at their end where an expression is read, and one of the tokens where the parse
is stuck at one. -/

namespace PipeSql.Query

/-- What is left of the tokens is their end, and where the parse is stuck at a token, it is one of
them. -/
def Remains {α : Type} (ts : List Token) : Except Stuck (α × List Token) → Prop
  | .ok (_, rest) => rest <:+ ts
  | .error (.at token) => token ∈ ts
  | .error .atEnd => True

namespace Remains

variable {α β : Type} {ts part : List Token} {x : Except Stuck (α × List Token)}

theorem mono (h : Remains part x) (hpart : part <:+ ts) : Remains ts x := by
  match x with
  | .ok (_, rest) => exact List.IsSuffix.trans h hpart
  | .error (.at token) => exact hpart.subset h
  | .error .atEnd => trivial

theorem cons {token : Token} (h : Remains ts x) : Remains (token :: ts) x :=
  h.mono (List.suffix_cons token ts)

/-- A step that goes on with the tokens that another one leaves. -/
theorem bind {f : α × List Token → Except Stuck (β × List Token)} (h : Remains ts x)
    (hf : ∀ a rest, x = .ok (a, rest) → Remains rest (f (a, rest))) : Remains ts (x >>= f) := by
  match x with
  | .ok (a, rest) => exact (hf a rest rfl).mono h
  | .error (.at token) => exact h
  | .error .atEnd => trivial

theorem ok (a : α) (ts : List Token) : Remains ts (.ok (a, ts)) :=
  List.suffix_rfl

theorem stuck (token : Token) (ts : List Token) :
    Remains (token :: ts) (.error (.at token) : Except Stuck (α × List Token)) :=
  List.mem_cons_self

theorem atEnd (ts : List Token) : Remains ts (.error .atEnd : Except Stuck (α × List Token)) :=
  trivial

end Remains

variable {ts : List Token}

/-! ## Chains and comparisons -/

theorem remains_readChain {chain : Chain} (left : Expr)
    (hoperand : ∀ ts' : List Token, ts'.length < ts.length →
      Remains ts' (readAt chain.operand ts')) :
    Remains ts (readChain chain left ts) := by
  induction hn : ts.length using Nat.strongRecOn generalizing ts left with
  | ind n ih =>
    subst hn
    cases ts with
    | nil =>
      rw [readChain_nil]
      exact .ok left []
    | cons token more =>
      rw [readChain_cons]
      cases chain.operator? token with
      | none => exact .ok left _
      | some op =>
        refine .cons (.bind (hoperand more (by simp)) fun right rest hright => ?_)
        have hfewer := length_of_readAt hright
        have hrest : rest.length < (token :: more).length := Nat.lt_succ_of_lt hfewer
        exact ih _ hrest _ (fun ts' hts' => hoperand ts' (Nat.lt_trans hts' hrest)) rfl

theorem remains_readAt_chain {chain : Chain} (h : Remains ts (readAt chain.operand ts))
    (hshorter : ∀ ts' : List Token, ts'.length < ts.length →
      Remains ts' (readAt chain.operand ts')) :
    Remains ts (readAt (.chain chain) ts) := by
  rw [readAt_chain]
  refine .bind h fun left rest hleft => remains_readChain left fun ts' hts' => ?_
  exact hshorter ts' (Nat.lt_trans hts' (length_of_readAt hleft))

theorem remains_readSearched (op : Comparison) (search : Search) (left : Expr) :
    Remains ts (readSearched op search left ts) := by
  cases ts with
  | nil => exact .atEnd []
  | cons token rest =>
    rw [readSearched_cons]
    split
    · exact .cons (.ok _ rest)
    · exact .cons (.ok _ rest)
    · exact .stuck token rest

theorem remains_readAt_comparison (h : Remains ts (readAt (.chain .sum) ts))
    (hshorter : ∀ ts' : List Token, ts'.length < ts.length →
      Remains ts' (readAt (.chain .sum) ts')) :
    Remains ts (readAt .comparison ts) := by
  rw [readAt_comparison]
  refine .bind h fun left behind hleft => ?_
  have hfewer := length_of_readAt hleft
  simp only
  cases behind with
  | nil =>
    rw [readCompared_nil]
    exact .ok left []
  | cons token more =>
    rw [readCompared_cons]
    cases comparison? token.kind with
    | some op =>
      refine .cons (.bind (hshorter more (Nat.lt_of_succ_lt hfewer)) fun right rest _ => ?_)
      exact .ok _ rest
    | none =>
      simp only
      split
      · cases more with
        | nil => exact .atEnd _
        | cons word literal =>
          simp only
          cases search? word with
          | none => exact .stuck token _
          | some search => exact .cons (.cons (remains_readSearched _ search left))
      · cases search? token with
        | none => exact .ok left _
        | some search => exact .cons (remains_readSearched _ search left)

/-! ## Operands -/

theorem remains_readAt_signed (h : Remains ts (readAt .primary ts))
    (hshorter : ∀ ts' : List Token, ts'.length < ts.length → Remains ts' (readAt .signed ts')) :
    Remains ts (readAt .signed ts) := by
  cases ts with
  | nil =>
    rw [readAt_signed_nil]
    exact .atEnd []
  | cons token more =>
    by_cases hminus : token.kind = .minus
    · rw [readAt_signed_minus hminus]
      exact .cons (.bind (hshorter more (by simp)) fun inner rest _ => .ok _ rest)
    · rw [readAt_signed_primary hminus]
      exact h

theorem remains_call (name : String) (h : Remains ts (readArguments ts)) :
    Remains ts (readArguments ts >>= fun p => .ok (Expr.call name p.1, p.2)) :=
  .bind h fun _ rest _ => .ok _ rest

theorem remains_readAt_primary
    (hshorter : ∀ ts' : List Token, ts'.length < ts.length →
      Remains ts' (readAt (.chain .disjunction) ts'))
    (harguments : ∀ ts' : List Token, ts'.length < ts.length → Remains ts' (readArguments ts')) :
    Remains ts (readAt .primary ts) := by
  cases ts with
  | nil =>
    rw [readAt_primary_nil]
    exact .atEnd []
  | cons token more =>
    by_cases hident : ∃ name, token.kind = .ident name
    · obtain ⟨name, hname⟩ := hident
      rw [readAt_primary_ident hname]
      cases more with
      | nil => exact .cons (.ok _ [])
      | cons next inner =>
        have hinner := harguments inner (by simp only [List.length_cons]; omega)
        simp only
        split
        · cases inner with
          | nil => exact .cons (.cons (remains_call name hinner))
          | cons close behind =>
            simp only
            split
            · exact .cons (.cons (.cons (.ok _ behind)))
            · exact .cons (.cons (remains_call name hinner))
        · exact .cons (.ok _ _)
    by_cases hparen : token.kind = .openParen
    · rw [readAt_primary_paren hparen]
      refine .cons (.bind (hshorter more (by simp)) fun inner rest _ => ?_)
      cases rest with
      | nil => exact .atEnd []
      | cons close behind =>
        simp only
        split
        · exact .cons (.ok _ behind)
        · exact .stuck close behind
    · rw [readAt_primary_atom (fun name hname => hident ⟨name, hname⟩) hparen]
      split
      · exact .cons (.ok _ more)
      · exact .cons (.ok _ more)
      · exact .cons (.ok _ more)
      · exact .stuck token more

theorem remains_readArguments (h : Remains ts (readAt (.chain .disjunction) ts))
    (hshorter : ∀ ts' : List Token, ts'.length < ts.length → Remains ts' (readArguments ts')) :
    Remains ts (readArguments ts) := by
  rw [readArguments_eq]
  refine .bind h fun first rest hfirst => ?_
  have hfewer := length_of_readAt hfirst
  cases rest with
  | nil => exact .atEnd []
  | cons token more =>
    simp only
    split
    · exact .cons (.ok _ more)
    · refine .cons (.bind (hshorter more (Nat.lt_of_succ_lt hfewer)) fun others behind _ => ?_)
      exact .ok _ behind
    · exact .stuck token more

/-! ## All lists of tokens -/

theorem remains_readAt_and_readArguments (ts : List Token) :
    (∀ level, Remains ts (readAt level ts)) ∧ Remains ts (readArguments ts) :=
  parser_induction (P := fun level ts => Remains ts (readAt level ts))
    (Q := fun ts => Remains ts (readArguments ts)) (fun _ => remains_readAt_primary)
    (fun _ => remains_readAt_signed) (fun _ _ => remains_readAt_chain)
    (fun _ => remains_readAt_comparison) (fun _ => remains_readArguments) ts

theorem remains_readAt (level : Level) (ts : List Token) : Remains ts (readAt level ts) :=
  (remains_readAt_and_readArguments ts).1 level

end PipeSql.Query
