import PipeSql.Query.Expr
import Mathlib.Data.List.Basic

/-! # Trees of expressions

Induction over expressions whose calls hold lists of arguments, and the expressions that only
look at one row. -/

namespace PipeSql.Query

/-- Induction in which the hypothesis for a call speaks of each of its arguments. -/
@[elab_as_elim]
theorem Expr.tree_induction {motive : Expr → Prop}
    (column : ∀ c, motive (.column c))
    (text : ∀ value, motive (.text value))
    (number : ∀ digits, motive (.number digits))
    (bool : ∀ value, motive (.bool value))
    (binary : ∀ op left right, motive left → motive right → motive (.binary op left right))
    (call : ∀ function arguments, (∀ e ∈ arguments, motive e) →
      motive (.call function arguments))
    (aggregate : ∀ function arguments, (∀ e ∈ arguments, motive e) →
      motive (.aggregate function arguments)) :
    ∀ e, motive e := by
  intro e
  refine Expr.rec (motive_2 := fun es => ∀ e ∈ es, motive e) column text number bool binary call
    aggregate ?_ ?_ e
  · simp
  · intro e es he hes a ha
    rcases List.mem_cons.mp ha with rfl | ha
    · exact he
    · exact hes a ha

theorem Expr.columns_call (function : String) (arguments : List Expr) :
    (Expr.call function arguments).columns = arguments.flatMap Expr.columns := by
  rw [Expr.columns, Expr.columnsAll_eq_flatMap]

theorem Expr.columns_aggregate (function : String) (arguments : List Expr) :
    (Expr.aggregate function arguments).columns = arguments.flatMap Expr.columns := by
  rw [Expr.columns, Expr.columnsAll_eq_flatMap]

theorem Expr.mapColumns_call (f : Column → Expr) (function : String) (arguments : List Expr) :
    (Expr.call function arguments).mapColumns f =
      .call function (arguments.map (Expr.mapColumns f)) := by
  rw [Expr.mapColumns, Expr.mapColumnsAll_eq_map]

theorem Expr.mapColumns_aggregate (f : Column → Expr) (function : String)
    (arguments : List Expr) :
    (Expr.aggregate function arguments).mapColumns f =
      .aggregate function (arguments.map (Expr.mapColumns f)) := by
  rw [Expr.mapColumns, Expr.mapColumnsAll_eq_map]

/-! ## Scalar expressions -/

/-- An expression that looks at one row only: no aggregate occurs in it. -/
inductive Expr.Scalar : Expr → Prop where
  | column (c) : Scalar (.column c)
  | text (value) : Scalar (.text value)
  | number (digits) : Scalar (.number digits)
  | bool (value) : Scalar (.bool value)
  | binary (op) {left right} : Scalar left → Scalar right → Scalar (.binary op left right)
  | call (function) {arguments} : (∀ e ∈ arguments, Scalar e) → Scalar (.call function arguments)

/-- Scalar expressions in the place of its columns leave a scalar expression scalar. -/
theorem Expr.Scalar.mapColumns {f : Column → Expr} {e : Expr} (he : e.Scalar)
    (hf : ∀ c, (f c).Scalar) : (e.mapColumns f).Scalar := by
  induction he with
  | column c => exact hf c
  | text value => exact .text value
  | number digits => exact .number digits
  | bool value => exact .bool value
  | binary op _ _ hleft hright => exact .binary op hleft hright
  | call function _ ih =>
    rw [Expr.mapColumns_call]
    refine .call function ?_
    intro e he
    obtain ⟨argument, hargument, rfl⟩ := List.mem_map.mp he
    exact ih argument hargument

end PipeSql.Query
