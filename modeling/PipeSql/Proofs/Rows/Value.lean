import PipeSql.Proofs.Except
import PipeSql.Proofs.Query.Expr
import PipeSql.Query.Stage

/-! # Values of expressions

An expression has a value in a row, once literals, operators and functions are given a meaning. An
aggregate looks at all rows of a group. -/

namespace PipeSql

open Query

/-- What literals, operators and functions mean over the values `V`. An aggregate maps the values
of its arguments in all rows of a group to one value. -/
structure Meaning (V : Type*) where
  text : String → V
  number : String → V
  bool : Bool → V
  binary : Operator → V → V → V
  call : String → List V → V
  aggregate : String → List (List V) → V
  /-- The value makes a row pass as a condition. -/
  holds : V → Bool

/-- The values of a row, by the names of its columns. -/
abbrev Row (V : Type*) := String → Option V

namespace Row

variable {V : Type*}

/-- The row without columns. -/
def empty : Row V := fun _ => none

/-- The row with a column put in, in the place of the one that had its name. -/
def set (row : Row V) (name : String) (value : V) : Row V :=
  fun other => if other = name then some value else row other

/-- The row of some outputs, of which not all have a name. The first one of a name counts. -/
def ofOutputs : List (Option String × V) → Row V
  | [] => empty
  | (some name, value) :: rest => (ofOutputs rest).set name value
  | (none, _) :: rest => ofOutputs rest

/-- The value of a column that is named without a table. -/
def column? (row : Row V) (column : Column) : Option V :=
  match column.table with
  | none => row column.name
  | some _ => none

end Row

namespace Query.Expr

variable {V : Type*}

mutual

/-- The value of an expression in a row of a group, unless it names a column that the row does not
have. -/
def value? (M : Meaning V) (group : List (Row V)) (row : Row V) : Expr → Option V
  | .column c => row.column? c
  | .text value => some (M.text value)
  | .number digits => some (M.number digits)
  | .bool value => some (M.bool value)
  | .binary op left right => do
    return M.binary op (← left.value? M group row) (← right.value? M group row)
  | .call function arguments => (values? M group row arguments).map (M.call function)
  | .aggregate function arguments =>
    (group.mapM fun member => values? M group member arguments).map (M.aggregate function)

/-- The values of a list of expressions. -/
def values? (M : Meaning V) (group : List (Row V)) (row : Row V) : List Expr → Option (List V)
  | [] => some []
  | e :: es => do
    return (← e.value? M group row) :: (← values? M group row es)

end

/-- The value of an expression in a row that stands alone. -/
def valueIn? (M : Meaning V) (row : Row V) (e : Expr) : Option V :=
  e.value? M [row] row

variable {M : Meaning V} {group group' : List (Row V)} {row row' : Row V}

theorem values?_map {F : Expr → Expr} {es : List Expr}
    (h : ∀ e ∈ es, (F e).value? M group row = e.value? M group' row') :
    values? M group row (es.map F) = values? M group' row' es := by
  induction es with
  | nil => rfl
  | cons e es ih =>
    have htail : values? M group row (es.map F) = values? M group' row' es :=
      ih fun a ha => h a (List.mem_cons_of_mem e ha)
    rw [List.map_cons, values?, values?, h e List.mem_cons_self, htail]

/-- The group does not matter to a scalar expression. -/
theorem Scalar.value?_eq {e : Expr} (he : e.Scalar) :
    e.value? M group row = e.value? M group' row := by
  induction he with
  | column | text | number | bool => rfl
  | binary op _ _ hleft hright => simp only [value?, hleft, hright]
  | call function _ ih =>
    rw [value?, value?, ← values?_map (F := id) ih, List.map_id]

/-- Replacing columns by expressions that have their values keeps the value of an expression, when
it is scalar or else the rows stand alone. -/
theorem value?_mapColumns {f : Column → Expr} {e : Expr}
    (hgroup : e.Scalar ∨ group = [row] ∧ group' = [row'])
    (hf : ∀ c ∈ e.columns, (f c).value? M group row = row'.column? c) :
    (e.mapColumns f).value? M group row = e.value? M group' row' := by
  induction e using Expr.tree_induction with
  | column c => exact hf c (by simp [columns])
  | text | number | bool => rfl
  | binary op left right hleft hright =>
    have hl : (left.mapColumns f).value? M group row = left.value? M group' row' := by
      refine hleft ?_ fun c hc => hf c (by simp [columns, hc])
      exact hgroup.imp_left fun h => by cases h; assumption
    have hr : (right.mapColumns f).value? M group row = right.value? M group' row' := by
      refine hright ?_ fun c hc => hf c (by simp [columns, hc])
      exact hgroup.imp_left fun h => by cases h; assumption
    rw [mapColumns, value?, value?, hl, hr]
  | call function arguments ih =>
    rw [columns_call] at hf
    have harguments : values? M group row (arguments.map (mapColumns f)) =
        values? M group' row' arguments := by
      refine values?_map fun e he => ih e he ?_ fun c hc => hf c (List.mem_flatMap_of_mem he hc)
      exact hgroup.imp_left fun h => by cases h with | call _ h => exact h e he
    rw [mapColumns_call, value?, value?, harguments]
  | aggregate function arguments ih =>
    rw [columns_aggregate] at hf
    -- an aggregate is not scalar, so its group is its row
    rcases hgroup with hscalar | ⟨rfl, rfl⟩
    · cases hscalar
    · have harguments : values? M [row] row (arguments.map (mapColumns f)) =
          values? M [row'] row' arguments :=
        values?_map fun e he =>
          ih e he (.inr ⟨rfl, rfl⟩) fun c hc => hf c (List.mem_flatMap_of_mem he hc)
      rw [mapColumns_aggregate, value?, value?]
      simp only [List.mapM_cons, List.mapM_nil, harguments]

theorem isSome_values? {es : List Expr} (h : ∀ e ∈ es, (e.value? M group row).isSome) :
    (values? M group row es).isSome := by
  induction es with
  | nil => rfl
  | cons e es ih =>
    obtain ⟨value, hvalue⟩ := Option.isSome_iff_exists.mp (h e List.mem_cons_self)
    obtain ⟨values, hvalues⟩ :=
      Option.isSome_iff_exists.mp (ih fun a ha => h a (List.mem_cons_of_mem e ha))
    simp [values?, hvalue, hvalues]

/-- An expression has a value where its columns have values in all rows that it looks at. -/
theorem isSome_value? {e : Expr}
    (h : ∀ member ∈ row :: group, ∀ c ∈ e.columns, (member.column? c).isSome) :
    (e.value? M group row).isSome := by
  induction e using Expr.tree_induction generalizing row with
  | column c => exact h row List.mem_cons_self c (by simp [columns])
  | text | number | bool => rfl
  | binary op left right hleft hright =>
    obtain ⟨l, hl⟩ := Option.isSome_iff_exists.mp
      (hleft fun member hmember c hc => h member hmember c (by simp [columns, hc]))
    obtain ⟨r, hr⟩ := Option.isSome_iff_exists.mp
      (hright fun member hmember c hc => h member hmember c (by simp [columns, hc]))
    simp [value?, hl, hr]
  | call function arguments ih =>
    rw [columns_call] at h
    rw [value?, Option.isSome_map]
    refine isSome_values? fun e he => ih e he fun member hmember c hc => ?_
    exact h member hmember c (List.mem_flatMap_of_mem he hc)
  | aggregate function arguments ih =>
    rw [columns_aggregate] at h
    rw [value?, Option.isSome_map]
    refine isSome_mapM fun member hmember => isSome_values? fun e he => ?_
    refine ih e he fun other hother c hc => ?_
    have hin : other ∈ row :: group := by
      rcases List.mem_cons.mp hother with rfl | hother
      · exact List.mem_cons_of_mem row hmember
      · exact List.mem_cons_of_mem row hother
    exact h other hin c (List.mem_flatMap_of_mem he hc)

end Query.Expr

end PipeSql
