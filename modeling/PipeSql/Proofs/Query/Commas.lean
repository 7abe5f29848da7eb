import PipeSql.Proofs.Query.Expr.Soundness
import PipeSql.Proofs.Query.Expr.Unsplit

/-! # Parts with commas between them

Cutting tokens at their commas and putting commas between parts. Main statement: expressions with
commas between them are cut into just these expressions. -/

namespace PipeSql.Query

variable {ts item : List Token} {items : List (List Token)} {e : Expr}

/-- The tokens of parts with commas between them. -/
inductive Listed : List (List Token) → List Token → Prop where
  | one (part) : Listed [part] part
  | more {parts ts comma} (part) :
    Token.kind comma = .comma → Listed parts ts → Listed (part :: parts) (part ++ comma :: ts)

/-! ## Cut tokens -/

theorem Listed.pushFront (token : Token) (h : Listed items ts) :
    Listed (pushFront token items) (token :: ts) := by
  cases h with
  | one => exact .one _
  | more part hcomma hrest => exact .more (token :: part) hcomma hrest

/-- Tokens are the list of their parts. -/
theorem listed_splitCommasFrom (depth : Nat) (ts : List Token) :
    Listed (splitCommasFrom depth ts) ts := by
  induction ts generalizing depth with
  | nil => exact .one []
  | cons token ts ih =>
    rw [splitCommasFrom]
    split
    · rename_i hcomma
      exact .more [] hcomma.1 (ih depth)
    · exact (ih _).pushFront token

theorem Listed.ne_nil (h : Listed items ts) : items ≠ [] := by
  cases h <;> exact List.cons_ne_nil _ _

/-- A single part is all of the tokens. -/
theorem Listed.eq_singleton (h : Listed [item] ts) : ts = item := by
  cases h with
  | one => rfl
  | more _ _ hrest => exact absurd rfl hrest.ne_nil

/-! ## Joined parts -/

/-- Parts that no comma cuts are found again. -/
theorem Listed.splitCommas_eq (h : Listed items ts)
    (hitems : ∀ item ∈ items, Unsplit 0 (item.map Token.kind)) : splitCommas ts = items := by
  induction h with
  | one part => exact (hitems part List.mem_cons_self).splitCommas_eq
  | more part hcomma _ ih =>
    obtain ⟨hpart, hparts⟩ := List.forall_mem_cons.mp hitems
    rw [hpart.splitCommas_comma hcomma, ih hparts]

/-- What is read as an expression stays together: its parentheses are closed, none before it is
opened, and its commas stand inside of them. -/
theorem unsplit_of_ofTokens {source : List Char} (h : Expr.ofTokens source item = .ok e) :
    Unsplit 0 (item.map Token.kind) :=
  (derives_of_ofTokens h).unsplit

/-- Tokens that are accepted as expressions, with commas between them, are cut into just these,
whatever text they come from. -/
theorem splitCommas_eq_of_listed (h : Listed items ts)
    (hitems : ∀ item ∈ items, ∃ source e, Expr.ofTokens source item = .ok e) :
    splitCommas ts = items :=
  h.splitCommas_eq fun item hitem => by
    obtain ⟨source, e, he⟩ := hitems item hitem
    exact unsplit_of_ofTokens he

/-- The tokens of `f(a, (b))`. -/
def nestedCall : List Token :=
  [⟨.ident "f", 0, 1⟩, ⟨.openParen, 1, 2⟩, ⟨.ident "a", 2, 3⟩, ⟨.comma, 3, 4⟩, ⟨.openParen, 5, 6⟩,
    ⟨.ident "b", 6, 7⟩, ⟨.closeParen, 7, 8⟩, ⟨.closeParen, 8, 9⟩]

/-- The tokens of `-g()`. -/
def negativeCall : List Token :=
  [⟨.minus, 0, 1⟩, ⟨.ident "g", 1, 2⟩, ⟨.openParen, 2, 3⟩, ⟨.closeParen, 3, 4⟩]

theorem splitCommas_eq_of_listed_calls :
    Listed [nestedCall, negativeCall] (nestedCall ++ ⟨.comma, 9, 10⟩ :: negativeCall) ∧
      Expr.ofTokens "f(a, (b))".toList nestedCall =
        .ok (.call "f" [.column (.bare "a"), .column (.bare "b")]) ∧
      Expr.ofTokens "-g()".toList negativeCall =
        .ok (.binary (.compute .multiply) (.number "-1") (.call "g" [])) ∧
      splitCommas (nestedCall ++ ⟨.comma, 9, 10⟩ :: negativeCall) =
        [nestedCall, negativeCall] := by
  have hlisted : Listed [nestedCall, negativeCall]
      (nestedCall ++ ⟨.comma, 9, 10⟩ :: negativeCall) := .more _ rfl (.one _)
  have hnested : Expr.ofTokens "f(a, (b))".toList nestedCall =
      .ok (.call "f" [.column (.bare "a"), .column (.bare "b")]) := by cbv
  have hnegative : Expr.ofTokens "-g()".toList negativeCall =
      .ok (.binary (.compute .multiply) (.number "-1") (.call "g" [])) := by cbv
  refine ⟨hlisted, hnested, hnegative, splitCommas_eq_of_listed hlisted ?_⟩
  exact List.forall_mem_cons.mpr ⟨⟨_, _, hnested⟩, List.forall_mem_singleton.mpr ⟨_, _, hnegative⟩⟩

end PipeSql.Query
