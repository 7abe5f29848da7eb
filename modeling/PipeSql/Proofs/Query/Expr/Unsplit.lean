import PipeSql.Proofs.Query.Expr.Grammar
import PipeSql.Query.Commas

/-! # Commas inside expressions

Splitting at commas never cuts an expression: the commas between its arguments stand inside of
parentheses, and each parenthesis that it opens, it closes. -/

namespace PipeSql.Query

variable {level : Level} {least : Nat} {kind : TokenKind} {ks ks' : List TokenKind} {e : Expr}
  {es : List Expr}

/-- Tokens of these kinds stay together at the head of the first part, from the given depth on. -/
def Unsplit (least : Nat) (ks : List TokenKind) : Prop :=
  ∀ ts : List Token, ts.map Token.kind = ks → ∀ depth, least ≤ depth → ∀ rest,
    splitCommasFrom depth (ts ++ rest) = (splitCommasFrom depth rest).modifyHead (ts ++ ·)

/-- A token that separates nothing: no comma, and no parenthesis. -/
def TokenKind.IsInner (kind : TokenKind) : Prop :=
  kind ≠ .comma ∧ kind ≠ .openParen ∧ kind ≠ .closeParen

theorem pushFront_eq_modifyHead (token : Token) {parts : List (List Token)} (h : parts ≠ []) :
    pushFront token parts = parts.modifyHead ([token] ++ ·) := by
  obtain ⟨part, parts, rfl⟩ := List.exists_cons_of_ne_nil h
  rfl

namespace Unsplit

theorem mono {more : Nat} (h : Unsplit least ks) (hle : least ≤ more) : Unsplit more ks :=
  fun ts hts depth hdepth => h ts hts depth (Nat.le_trans hle hdepth)

theorem nil : Unsplit least [] := by
  intro ts hts depth _ rest
  obtain rfl := List.map_eq_nil_iff.mp hts
  obtain ⟨part, parts, hparts⟩ := List.exists_cons_of_ne_nil (splitCommasFrom_ne_nil depth rest)
  rw [List.nil_append, hparts]
  rfl

theorem append (h : Unsplit least ks) (h' : Unsplit least ks') : Unsplit least (ks ++ ks') := by
  intro ts hts depth hdepth rest
  obtain ⟨front, back, rfl, hfront, hback⟩ := List.map_eq_append_iff.mp hts
  rw [List.append_assoc, h front hfront depth hdepth, h' back hback depth hdepth,
    List.modifyHead_modifyHead]
  simp [Function.comp_def]

theorem single (h : kind.IsInner) : Unsplit least [kind] := by
  intro ts hts depth _ rest
  obtain ⟨token, rfl, rfl⟩ := List.map_eq_singleton_iff.mp hts
  have hdepth : nesting depth token.kind = depth := by
    obtain ⟨-, hopen, hclose⟩ := h
    unfold nesting
    split
    · exact absurd ‹_› hopen
    · exact absurd ‹_› hclose
    · rfl
  rw [List.singleton_append, splitCommasFrom, if_neg fun hcomma => h.1 hcomma.1, hdepth,
    pushFront_eq_modifyHead token (splitCommasFrom_ne_nil depth rest)]

theorem cons (h : kind.IsInner) (hks : Unsplit least ks) : Unsplit least (kind :: ks) :=
  (single h).append hks

theorem comma : Unsplit 1 [.comma] := by
  intro ts hts depth hdepth rest
  obtain ⟨token, rfl, hcomma⟩ := List.map_eq_singleton_iff.mp hts
  rw [List.singleton_append, splitCommasFrom, if_neg (by omega), hcomma, nesting,
    pushFront_eq_modifyHead token (splitCommasFrom_ne_nil depth rest)]
  all_goals simp

/-- Inside of parentheses, a depth of one is enough. -/
theorem parens (h : Unsplit 1 ks) : Unsplit 0 (.openParen :: (ks ++ [.closeParen])) := by
  intro ts hts depth _ rest
  obtain ⟨opening, inner, rfl, hopen, hinner⟩ := List.map_eq_cons_iff.mp hts
  obtain ⟨body, behind, rfl, hbody, hbehind⟩ := List.map_eq_append_iff.mp hinner
  obtain ⟨closing, rfl, hclose⟩ := List.map_eq_singleton_iff.mp hbehind
  have hback : splitCommasFrom (depth + 1) (closing :: rest) =
      (splitCommasFrom depth rest).modifyHead ([closing] ++ ·) := by
    rw [splitCommasFrom, if_neg (by simp), hclose, nesting, Nat.add_sub_cancel,
      pushFront_eq_modifyHead closing (splitCommasFrom_ne_nil depth rest)]
  rw [List.cons_append, splitCommasFrom, if_neg (by simp [hopen]), hopen, nesting,
    pushFront_eq_modifyHead opening (splitCommasFrom_ne_nil _ _), List.append_assoc,
    List.singleton_append, h body hbody (depth + 1) (by omega), hback, List.modifyHead_modifyHead,
    List.modifyHead_modifyHead]
  simp [Function.comp_def]

/-- Tokens that stay together are one part. -/
theorem splitCommas_eq {ts : List Token} (h : Unsplit 0 (ts.map Token.kind)) :
    splitCommas ts = [ts] := by
  have hsplit := h ts rfl 0 (Nat.le_refl 0) []
  rw [List.append_nil] at hsplit
  rw [splitCommas, hsplit]
  simp [splitCommasFrom]

/-- A comma behind tokens that stay together ends their part. -/
theorem splitCommas_comma {front : List Token} {comma : Token}
    (h : Unsplit 0 (front.map Token.kind)) (hcomma : comma.kind = .comma) (back : List Token) :
    splitCommas (front ++ comma :: back) = front :: splitCommas back := by
  rw [splitCommas, h front rfl 0 (Nat.le_refl 0), splitCommasFrom, if_pos ⟨hcomma, rfl⟩]
  simp [splitCommas]

end Unsplit

/-! ## Expressions -/

theorem Chain.isInner_of_operatorOf? {chain : Chain} {op : Operator}
    (h : chain.operatorOf? kind = some op) : kind.IsInner := by
  refine ⟨?_, ?_, ?_⟩ <;> rintro rfl <;> cases chain <;> cases h

theorem Compares.isInner {op : Comparison} (h : Compares kind op) : kind.IsInner := by
  refine ⟨?_, ?_, ?_⟩ <;> rintro rfl <;> cases h

theorem isInner_of_searchOf? {search : Search} (h : searchOf? kind = some search) :
    kind.IsInner := by
  refine ⟨?_, ?_, ?_⟩ <;> rintro rfl <;> cases h

theorem isInner_of_literal? {value : String} (h : literal? kind = some value) : kind.IsInner := by
  refine ⟨?_, ?_, ?_⟩ <;> rintro rfl <;> cases h

theorem isInner_ident (name : String) : (TokenKind.ident name).IsInner := by
  simp [TokenKind.IsInner]

/-- The tokens of an expression stay together at any depth. -/
theorem Derives.unsplit (h : Derives level ks e) : Unsplit 0 ks := by
  induction h using Derives.rec (motive_2 := fun ks _ _ => Unsplit 1 ks) with
  | operand _ _ ih => exact ih
  | link _ hop _ ihleft ihright =>
    exact ihleft.append (.cons (Chain.isInner_of_operatorOf? hop) ihright)
  | sum _ ih => exact ih
  | relate _ hop _ ihleft ihright => exact ihleft.append (.cons hop.isInner ihright)
  | like _ hword hliteral ihleft =>
    exact ihleft.append
      (.cons (isInner_of_searchOf? hword) (.single (isInner_of_literal? hliteral)))
  | unlike _ hword hliteral ihleft =>
    exact ihleft.append (.cons (by simp [TokenKind.IsInner])
      (.cons (isInner_of_searchOf? hword) (.single (isInner_of_literal? hliteral))))
  | primary _ ih => exact ih
  | negative _ _ ih => exact .cons (by simp [TokenKind.IsInner]) ih
  | positive _ ih => exact .cons (by simp [TokenKind.IsInner]) ih
  | opposite _ _ ih => exact .cons (by simp [TokenKind.IsInner]) ih
  | number | text | quoted | yes | no | column => exact .single (by simp [TokenKind.IsInner])
  | parens _ ih => exact (ih.mono (Nat.zero_le 1)).parens
  | call name => exact .cons (isInner_ident name) Unsplit.nil.parens
  | callWith name _ ih => exact .cons (isInner_ident name) ih.parens
  | one _ ih => exact ih.mono (Nat.zero_le 1)
  | more _ _ ih ihrest => exact (ih.mono (Nat.zero_le 1)).append (Unsplit.comma.append ihrest)

end PipeSql.Query
