import PipeSql.Proofs.Sql.Meaning

/-! # Calls that SQL reads whole

What the SQL of an expression is read as under SQL's own precedence. Main statement: it is read as
the expression itself, each function applied to all of each argument, where no operator that a
template puts beside an argument, or that follows a negation, takes a part of it. -/

namespace PipeSql.Sql

open Query (Expr)

/-! ## Expressions that stay whole -/

/-- The operators that the template of a function puts beside its arguments leave these whole. -/
def Separated : Option Builtin → List Expr → Prop
  | some .isEmpty, [a] =>
    SqlOperator.is.precedence ≤ closing 0 a ∧
      (SqlOperator.shared (.connect .or)).precedence < opening 0 a
  | some .isNotEmpty, [a] =>
    SqlOperator.isNot.precedence ≤ closing 0 a ∧
      (SqlOperator.shared (.connect .and)).precedence < opening 0 a
  | some .concat, arguments =>
    (∀ a ∈ arguments.dropLast, SqlOperator.concat.precedence ≤ closing 0 a) ∧
      ∀ a ∈ arguments.tail, SqlOperator.concat.precedence < opening 0 a
  | some .substring, [_, start] | some .substring, [_, start, _] =>
    (SqlOperator.shared (.compute .add)).precedence ≤ closing 0 start
  | _, _ => True

/-- No operator takes a part of an operand or of an argument, at any depth. -/
inductive Whole : Expr → Prop where
  | column (c) : Whole (.column c)
  | text (value) : Whole (.text value)
  | number (digits) : Whole (.number digits)
  | bool (value) : Whole (.bool value)
  | binary (op) {left right} :
      (SqlOperator.shared op).precedence ≤ closing (leftStrength op) left →
      Whole left → Whole right → Whole (.binary op left right)
  | call {function arguments} : Separated (Builtin.ofName? function) arguments →
      (∀ e ∈ arguments, Whole e) → Whole (.call function arguments)
  | aggregate (function) {arguments} :
      (∀ e ∈ arguments, Whole e) → Whole (.aggregate function arguments)

/-- Numbers are spelled as numbers, and functions that keep their name have one that SQL reads as
the name of a function. -/
inductive Legible : Expr → Prop where
  | column (c) : Legible (.column c)
  | text (value) : Legible (.text value)
  | number {digits} : Expr.Spelled (.number digits) → Legible (.number digits)
  | bool (value) : Legible (.bool value)
  | binary (op) {left right} : Legible left → Legible right → Legible (.binary op left right)
  | call {function arguments} : isWord function →
      isOperand function ∨ Builtin.ofName? function = some .negation ∧ arguments.length = 1 →
      (∀ e ∈ arguments, Legible e) → Legible (.call function arguments)
  | aggregate {function arguments} : isWord function → isOperand function →
      (∀ e ∈ arguments, Legible e) → Legible (.aggregate function arguments)

/-! ## Calls -/

section Calls

variable {function : String} {arguments : List Expr}

theorem closing_call
    (h : ¬(Builtin.ofName? function = some .negation ∧ arguments.length = 1)) (least : Nat) :
    closing least (.call function arguments) = 10 := by
  unfold closing
  split <;> simp_all

theorem denotes_concatCall {a : Expr} {rest : List Expr} {o c : Nat}
    (h : ∀ b ∈ a :: rest,
      Denotes (opening 0 b) (closing 0 b) (exprText .sqlite 0 b) (treeOf b))
    (hseparated : Separated (some .concat) (a :: rest)) :
    Denotes o c ("(" ++ " || ".intercalate ((a :: rest).map (exprText .sqlite 0)) ++ ")")
      ((rest.map treeOf).foldl (.binary .concat) (treeOf a)) := by
  have hlast : rest ≠ [] → (a :: rest).dropLast = a :: rest.dropLast := fun hne =>
    List.dropLast_cons_of_ne_nil hne
  simp only [List.forall_mem_cons] at h
  refine (denotes_concat h.2 hseparated.2 (fun b hb => hseparated.1 b ?_) h.1 fun hne =>
    hseparated.1 a ?_).group
  · rw [hlast (by rintro rfl; cases hb)]
    exact List.mem_cons_of_mem a hb
  · simp [hlast hne]

theorem denotes_callText (hword : isWord function)
    (hoperand : isOperand function ∨
      Builtin.ofName? function = some .negation ∧ arguments.length = 1)
    (hseparated : Separated (Builtin.ofName? function) arguments)
    (h : ∀ a ∈ arguments, Denotes (opening 0 a) (closing 0 a) (exprText .sqlite 0 a) (treeOf a))
    (o least : Nat) :
    Denotes o (closing least (.call function arguments))
      (callText .sqlite function (arguments.map (exprText .sqlite 0)))
      (callTree function (arguments.map treeOf)) := by
  have halone : ∀ a ∈ arguments, Denotes 0 0 (exprText .sqlite 0 a) (treeOf a) := fun a ha =>
    (h a ha).mono (Nat.zero_le _) (Nat.zero_le _)
  by_cases hnegation : Builtin.ofName? function = some .negation ∧ arguments.length = 1
  · obtain ⟨hnegation, hlength⟩ := hnegation
    obtain ⟨a, rfl⟩ := List.length_eq_one_iff.mp hlength
    have hnot := (halone a (by simp)).not (o := o)
    simpa [callText, callTree, closing, hnegation] using hnot
  have hplain : Denotes o 10 (plainCall function (arguments.map (exprText .sqlite 0)))
      (.call function (arguments.map treeOf)) :=
    denotes_plainCall hword (hoperand.resolve_right hnegation) (forall₂_arguments halone)
  rw [closing_call hnegation]
  unfold callText callTree
  generalize Builtin.ofName? function = builtin? at *
  rcases builtin? with _ | builtin
  · exact hplain
  rcases arguments with _ | ⟨a, rest⟩
  · cases builtin <;> exact hplain
  have hconcat := fun hbuiltin : builtin = .concat =>
    denotes_concatCall (o := o) (c := 10) h (hbuiltin ▸ hseparated)
  simp only [List.forall_mem_cons] at h halone
  rcases rest with _ | ⟨b, rest⟩
  · cases builtin with
    | length | lower | upper =>
      exact halone.1.all.apply (by simp) (by decide) (by decide +kernel)
    | cast type => exact halone.1.cast (by cases type <;> decide)
    | isEmpty => exact denotes_isEmpty h.1 hseparated.1 hseparated.2
    | isNotEmpty => exact denotes_isNotEmpty h.1 hseparated.1 hseparated.2
    | concat => exact hconcat rfl
    | negation => exact absurd ⟨rfl, rfl⟩ hnegation
    | substring | choice => exact hplain
  simp only [List.forall_mem_cons] at h halone
  rcases rest with _ | ⟨c, rest⟩
  · cases builtin with
    | concat => exact hconcat rfl
    | substring =>
      have hall := DenotesAll.cons halone.1 (denotes_offset h.2.1 hseparated).all
      exact hall.apply (by rw [← String.toList_inj]; simp) (by decide) (by decide +kernel)
    | length | lower | upper | cast | isEmpty | isNotEmpty | choice | negation => exact hplain
  simp only [List.forall_mem_cons] at h halone
  rcases rest with _ | ⟨d, rest⟩
  · cases builtin with
    | concat => exact hconcat rfl
    | substring =>
      have hall := DenotesAll.cons halone.1
        (.cons (denotes_offset h.2.1 hseparated) halone.2.2.1.all)
      exact hall.apply (by rw [← String.toList_inj]; simp) (by decide) (by decide +kernel)
    | choice => exact halone.1.choice halone.2.1 halone.2.2.1
    | length | lower | upper | cast | isEmpty | isNotEmpty | negation => exact hplain
  · cases builtin with
    | concat => exact hconcat rfl
    | _ => exact hplain

end Calls

/-! ## Expressions -/

/-- An expression is read as what it means, behind every operator looser than `opening` and in
front of every operator no tighter than `closing`. -/
theorem denotes_exprText {e : Expr} (hlegible : Legible e) (hwhole : Whole e) (least : Nat) :
    Denotes (opening least e) (closing least e) (exprText .sqlite least e) (treeOf e) := by
  induction e using Expr.tree_induction generalizing least with
  | column c => exact denotes_column c _ _
  | text value => exact .quoted value
  | number digits =>
    cases hlegible with
    | number hdigits => exact denotes_number hdigits _
  | bool value => exact denotes_bool value _ _
  | binary op left right ihl ihr =>
    obtain ⟨hlleft, hlright⟩ : Legible left ∧ Legible right := by
      cases hlegible with
      | binary _ hleft hright => exact ⟨hleft, hright⟩
    obtain ⟨hclosing, hwleft, hwright⟩ : (SqlOperator.shared op).precedence ≤
        closing (leftStrength op) left ∧ Whole left ∧ Whole right := by
      cases hwhole with
      | binary _ hclosing hleft hright => exact ⟨hclosing, hleft, hright⟩
    exact denotes_binary hclosing (ihl hlleft hwleft _) (ihr hlright hwright _) least
  | call function arguments ih =>
    rw [exprText, treeOf, exprTexts_eq_map, treesOf_eq_map]
    cases hlegible with
    | call hword hoperand hlegible =>
      cases hwhole with
      | call hseparated hwhole =>
        exact denotes_callText hword hoperand hseparated
          (fun a ha => ih a ha (hlegible a ha) (hwhole a ha) 0) _ _
  | aggregate function arguments ih =>
    rw [exprText, treeOf, exprTexts_eq_map, treesOf_eq_map]
    cases hlegible with
    | aggregate hword hoperand hlegible =>
      cases hwhole with
      | aggregate _ hwhole =>
        refine denotes_aggregateText hword hoperand (fun a ha => ?_) _ _
        exact (ih a ha (hlegible a ha) (hwhole a ha) 0).mono le_rfl (Nat.zero_le _)

/-- SQL reads an expression as what it means, in every place: each function is applied to all of
each of its arguments, and a call is one operand of what stands around it. -/
theorem tree?_exprText {e : Expr} (hlegible : Legible e) (hwhole : Whole e) (least : Nat) :
    tree? (kinds (exprText .sqlite least e).toList) = some (treeOf e) :=
  (denotes_exprText hlegible hwhole least).tree?_eq

/-- `isempty(substring(s, n - 1)) and not(strcat(s, 'x') == t)`. -/
def blankTest : Expr :=
  .binary (.connect .and)
    (.call "isempty" [.call "substring" [.column (.bare "s"),
      .binary (.compute .subtract) (.column (.bare "n")) (.number "1")]])
    (.call "not" [.binary (.compare .equal)
      (.call "strcat" [.column (.bare "s"), .text "x"]) (.column (.bare "t"))])

theorem legible_blankTest : Legible blankTest := by
  have hone : Legible (.number "1") := .number (.number Query.spells_one)
  refine .binary _ (.call (by decide) (.inl (by decide +kernel)) ?_)
    (.call (by decide) (.inr ⟨by decide +kernel, rfl⟩) ?_)
  · rw [List.forall_mem_singleton]
    refine .call (by decide) (.inl (by decide +kernel)) ?_
    rw [List.forall_mem_cons, List.forall_mem_singleton]
    exact ⟨.column _, .binary _ (.column _) hone⟩
  · rw [List.forall_mem_singleton]
    refine .binary _ (.call (by decide) (.inl (by decide +kernel)) ?_) (.column _)
    rw [List.forall_mem_cons, List.forall_mem_singleton]
    exact ⟨.column _, .text _⟩

theorem whole_blankTest : Whole blankTest := by
  have hnames : Builtin.ofName? "isempty" = some .isEmpty ∧
      Builtin.ofName? "substring" = some .substring ∧
      Builtin.ofName? "not" = some .negation ∧ Builtin.ofName? "strcat" = some .concat := by
    decide +kernel
  refine .binary _ (by simp [hnames, closing, SqlOperator.precedence]) (.call ?_ ?_) (.call ?_ ?_)
  · simp [hnames, Separated, closing, opening, SqlOperator.precedence]
  · rw [List.forall_mem_singleton]
    refine .call (by simp [hnames, Separated, closing, SqlOperator.precedence]) ?_
    rw [List.forall_mem_cons, List.forall_mem_singleton]
    exact ⟨.column _, .binary _ (by simp [closing, SqlOperator.precedence]) (.column _) (.number _)⟩
  · simp [hnames, Separated]
  · rw [List.forall_mem_singleton]
    refine .binary _ (by simp [closing, SqlOperator.precedence]) (.call ?_ ?_) (.column _)
    · simp [hnames, Separated, closing, opening, SqlOperator.precedence]
    · rw [List.forall_mem_cons, List.forall_mem_singleton]
      exact ⟨.column _, .text _⟩

theorem tree?_exprText_blankTest :
    tree? (kinds (exprText .sqlite 0 blankTest).toList) = some (treeOf blankTest) :=
  tree?_exprText legible_blankTest whole_blankTest 0

/-- Expressions that SQL does not read whole, and what it reads instead: `strcat(x + y, z)`,
`substring(z, x == y)`, `isempty(x or y)` and `not(x) == y`. -/
def misreadings : List (Expr × Tree) :=
  let x := Expr.column (.bare "x")
  let y := Expr.column (.bare "y")
  let z := Expr.column (.bare "z")
  let tx := Tree.leaf (.word "x")
  let ty := Tree.leaf (.word "y")
  let tz := Tree.leaf (.word "z")
  [(.call "strcat" [.binary (.compute .add) x y, z],
      .binary (.shared (.compute .add)) tx (.binary .concat ty tz)),
    (.call "substring" [z, .binary (.compare .equal) x y],
      .call "substr" [tz, .binary (.shared (.compare .equal)) tx
        (.binary (.shared (.compute .add)) ty (.leaf (.number "1")))]),
    (.call "isempty" [.binary (.connect .or) x y],
      .binary (.shared (.connect .or)) (.binary (.shared (.connect .or))
        (.binary (.shared (.connect .or)) tx (.binary .is ty (.leaf (.word "NULL")))) tx)
        (.binary (.shared (.compare .equal)) ty (.leaf (.text "")))),
    (.binary (.compare .equal) (.call "not" [x]) y,
      .unary .not (.binary (.shared (.compare .equal)) tx ty))]

theorem kinds_misreadings :
    misreadings.map (fun p => kinds (exprText .sqlite 0 p.1).toList) =
      [[.mark '(', .word "x", .mark '+', .word "y", .mark '|', .mark '|', .word "z", .mark ')'],
        [.word "substr", .mark '(', .word "z", .mark ',', .word "x", .mark '=', .word "y",
          .mark '+', .number "1", .mark ')'],
        [.mark '(', .word "x", .word "OR", .word "y", .word "IS", .word "NULL", .word "OR",
          .word "x", .word "OR", .word "y", .mark '=', .text "", .mark ')'],
        [.word "NOT", .mark '(', .word "x", .mark ')', .mark '=', .word "y"]] := by
  decide +kernel

theorem legible_misreadings : ∀ p ∈ misreadings, Legible p.1 := by
  have hcall : ∀ {function arguments}, isWord function ∧ isOperand function →
      (∀ e ∈ arguments, Legible e) → Legible (.call function arguments) :=
    fun hfunction => .call hfunction.1 (.inl hfunction.2)
  simp only [misreadings, List.forall_mem_cons]
  refine ⟨hcall (by decide +kernel) ?_, hcall (by decide +kernel) ?_, hcall (by decide +kernel) ?_,
    .binary _ (.call (by decide) (.inr ⟨by decide +kernel, rfl⟩) ?_) (.column _), nofun⟩
  all_goals
    simp only [List.forall_mem_cons]
    first
    | exact ⟨.binary _ (.column _) (.column _), .column _, nofun⟩
    | exact ⟨.column _, .binary _ (.column _) (.column _), nofun⟩
    | exact ⟨.binary _ (.column _) (.column _), nofun⟩
    | exact ⟨.column _, nofun⟩

theorem tree?_misreadings :
    misreadings.map (fun p => tree? (kinds (exprText .sqlite 0 p.1).toList)) =
      misreadings.map fun p => some p.2 := by
  have hwords : keyword? "x" = none ∧ keyword? "y" = none ∧ keyword? "z" = none ∧
      keyword? "substr" = none := by decide +kernel
  have hall := congrArg (List.map tree?) kinds_misreadings
  rw [List.map_map] at hall
  refine hall.trans ?_
  simp [misreadings, tree?, step_operator, OperatorStart.joined?, OperatorStart.alone?,
    stepOperand, stepMark, stepWord, reduce, shift, hwords, SqlPrefix.precedence,
    SqlOperator.precedence]

/-- None of them is what it means. -/
theorem not_tree?_exprText_misreadings : misreadings.Forall fun p => Legible p.1 ∧
    tree? (kinds (exprText .sqlite 0 p.1).toList) = some p.2 ∧ p.2 ≠ treeOf p.1 := by
  have hnames : Builtin.ofName? "strcat" = some .concat ∧
      Builtin.ofName? "substring" = some .substring ∧
      Builtin.ofName? "isempty" = some .isEmpty ∧ Builtin.ofName? "not" = some .negation := by
    decide +kernel
  have hne : ∀ p ∈ misreadings, p.2 ≠ treeOf p.1 := by
    simp [misreadings, treeOf, treesOf, callTree, hnames]
  have hreads := List.map_inj_left.mp tree?_misreadings
  exact List.forall_iff_forall_mem.mpr fun p hp =>
    ⟨legible_misreadings p hp, hreads p hp, hne p hp⟩

end PipeSql.Sql
