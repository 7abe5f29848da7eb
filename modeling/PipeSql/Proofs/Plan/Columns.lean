import PipeSql.Proofs.Plan.Equated
import PipeSql.Sql.Select

/-! # Columns of a plan

Which columns come into a plan with a stage: those that stand for themselves there. All other
columns that a stage names are replaced by columns that the plan has already. -/

namespace PipeSql

open Query

/-- The columns of a select item. -/
def SelectItem.columns (item : SelectItem) : List Column :=
  item.expressions.flatMap Expr.columns

@[simp]
theorem SelectItem.columns_value (expr : Expr) (label : Option String) :
    (SelectItem.value expr label).columns = expr.columns := by
  simp [columns, expressions]

@[simp]
theorem SelectItem.columns_aggregate (of : Aggregate) :
    (SelectItem.aggregate of).columns = of.arguments.flatMap Expr.columns :=
  rfl

theorem SelectItem.columns_relabelled (label : String) (item : SelectItem) :
    (item.relabelled label).columns = item.columns := by
  cases item <;> rfl

/-- A property of all columns of a plan. In the conditions of joins and in sort keys it is asked
only of the columns that are named with their tables. -/
structure Plan.All (P : Column → Prop) (plan : Plan) : Prop where
  items : ∀ item ∈ plan.select.listed, ∀ c ∈ item.columns, P c
  filters : ∀ expr ∈ plan.filters, ∀ c ∈ expr.columns, P c
  groups : ∀ expr ∈ plan.groups, ∀ c ∈ expr.columns, P c
  joins : ∀ join ∈ plan.joins, ∀ c ∈ join.on.columns, c.table.isSome → P c
  order : ∀ key ∈ plan.order, key.column.table.isSome → P key.column

/-- A property of all columns that a scope puts in the place of others. -/
structure Scope.All (P : Column → Prop) (scope : Scope) : Prop where
  items : ∀ name item, scope.output? name = some item → ∀ c ∈ item.columns, P c
  keys : ∀ key ∈ scope.keys, P key

/-- The columns that stand for themselves: the ones that are named with their tables, outside
select lists the aggregates, and the names that nothing computes and no join equates. -/
inductive Scope.Keeps (scope : Scope) (inSelect : Bool) : Column → Prop where
  | qualified (table name) : Keeps scope inSelect (.of table name)
  | aggregate {name of} :
    inSelect = false → scope.output? name = some (.aggregate of) →
      Keeps scope inSelect (.bare name)
  | free {name} :
    scope.output? name = none → name ∉ scope.keys.map Column.name →
      Keeps scope inSelect (.bare name)

/-- The columns that a join equates are columns of its condition. -/
theorem mem_columns_of_mem_keyColumns {table : String} {expr : Expr} :
    ∀ key ∈ keyColumns table expr, key ∈ expr.columns := by
  fun_induction keyColumns table expr with
  | case1 left right hleft hright =>
    intro key hkey
    rw [Expr.columns, List.mem_append]
    exact (List.mem_append.mp hkey).imp (hleft key) (hright key)
  | case2 left right h =>
    intro key hkey
    rw [List.mem_singleton] at hkey
    subst hkey
    split <;> simp [Expr.columns]
  | case3 | case4 => simp

namespace Plan.All

variable {P Q : Column → Prop} {plan : Plan}

theorem ofTable (table : String) : (Plan.ofTable table).All P where
  items := by simp [Plan.ofTable, SelectList.listed, SelectItem.columns, SelectItem.expressions]
  filters := by simp [Plan.ofTable]
  groups := by simp [Plan.ofTable]
  joins := by simp [Plan.ofTable]
  order := by simp [Plan.ofTable]

theorem imp (h : plan.All P) (hPQ : ∀ c, P c → Q c) : plan.All Q where
  items item hitem c hc := hPQ c (h.items item hitem c hc)
  filters expr hexpr c hc := hPQ c (h.filters expr hexpr c hc)
  groups expr hexpr c hc := hPQ c (h.groups expr hexpr c hc)
  joins join hjoin c hc hsome := hPQ c (h.joins join hjoin c hc hsome)
  order key hkey hsome := hPQ _ (h.order key hkey hsome)

theorem scope (h : plan.All P) : plan.scope.All P where
  items name item hitem := by
    rw [Plan.scope_output?] at hitem
    exact h.items item (mem_of_namedItem? hitem)
  keys key hkey := by
    obtain ⟨join, hjoin, hkey⟩ := List.mem_flatMap.mp hkey
    exact h.joins join hjoin key (mem_columns_of_mem_keyColumns key hkey)
      (isSome_table_of_keyColumns key hkey)

end Plan.All

namespace Scope.All

variable {P : Column → Prop} {scope : Scope} {inSelect : Bool}

theorem qualify (h : scope.All P) {column : Column}
    (hcolumn : column.name ∉ scope.keys.map Column.name → P column) :
    P (scope.qualify column) := by
  unfold Scope.qualify
  cases hkey : scope.keys.find? fun key => key.name == column.name with
  | none =>
    refine hcolumn fun hmem => ?_
    obtain ⟨key, hkeys, hname⟩ := List.mem_map.mp hmem
    simpa [hname] using List.find?_eq_none.mp hkey key hkeys
  | some key => exact h.keys key (List.mem_of_find?_eq_some hkey)

theorem resolveColumn (h : scope.All P) {column : Column}
    (hcolumn : scope.Keeps inSelect column → P column) :
    ∀ c ∈ (scope.resolveColumn inSelect column).columns, P c := by
  obtain ⟨table, name⟩ := column
  cases table with
  | some table => simpa [Scope.resolveColumn, Expr.columns] using hcolumn (.qualified table name)
  | none =>
    unfold Scope.resolveColumn
    cases hitem : scope.output? name with
    | none => simpa [hitem, Expr.columns] using h.qualify fun hkeys => hcolumn (.free hitem hkeys)
    | some item =>
      have hitems := h.items name item hitem
      cases item with
      | everything =>
        have hnone := Scope.outputName?_of_output? hitem
        simp [SelectItem.outputName?] at hnone
      | value expr label => simpa [hitem] using hitems
      | aggregate of =>
        cases inSelect with
        | true => simpa [hitem, Expr.columns_aggregate] using hitems
        | false => simpa [hitem, Expr.columns] using hcolumn (.aggregate rfl hitem)

/-- What an expression stands for has columns that the scope put there, and those of the expression
that stand for themselves. -/
theorem resolve (h : scope.All P) {expr : Expr}
    (hexpr : ∀ c ∈ expr.columns, scope.Keeps inSelect c → P c) :
    ∀ c ∈ (scope.resolve inSelect expr).columns, P c := by
  intro c hc
  rw [Scope.resolve, Expr.columns_mapColumns] at hc
  obtain ⟨column, hcolumn, hc⟩ := List.mem_flatMap.mp hc
  exact h.resolveColumn (hexpr column hcolumn) c hc

theorem project (h : scope.All P) {item : Projection}
    (hitem : ∀ c ∈ item.value.columns, scope.Keeps true c → P c) :
    ∀ c ∈ (scope.project item).columns, P c := by
  rcases scope.project_cases item with ⟨column, earlier, -, -, hearlier, hproject⟩ | ⟨-, hproject⟩
  · rw [hproject, SelectItem.columns_relabelled]
    exact h.items column.name earlier hearlier
  · rw [hproject, SelectItem.columns_value]
    exact h.resolve hitem

theorem groupItem (h : scope.All P) {column : Column}
    (hcolumn : scope.Keeps false column → P column) :
    ∀ c ∈ (Plan.groupItem scope column).columns, P c := by
  obtain ⟨label, hitem, -⟩ := groupItem_eq scope column
  rw [hitem, SelectItem.columns_value]
  exact h.resolveColumn hcolumn

/-- A sort key that is stored with its table was named with it, or the scope put it there. -/
theorem resolveKey (h : scope.All P) {column : Column} (hcolumn : column.table.isSome → P column)
    (hsome : (scope.resolveKey column).table.isSome) : P (scope.resolveKey column) := by
  obtain ⟨table, name⟩ := column
  cases table with
  | some table => exact hcolumn rfl
  | none =>
    unfold Scope.resolveKey at hsome ⊢
    simp only [Option.isSome_none, Bool.false_eq_true, if_false] at hsome ⊢
    split at hsome
    · rename_i inner hitem
      simpa [Expr.columns] using h.items name _ hitem
    · cases hsome
    · unfold Scope.qualify at hsome ⊢
      cases hkey : scope.keys.find? fun key => key.name == name with
      | none =>
        rw [hkey] at hsome
        cases hsome
      | some key => exact h.keys key (List.mem_of_find?_eq_some hkey)

end Scope.All

end PipeSql
