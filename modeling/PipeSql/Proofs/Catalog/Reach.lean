import PipeSql.Catalog.Reach
import PipeSql.Proofs.Except
import PipeSql.Proofs.Query.Stage

/-! # Names in reach

When the check of a stage succeeds, and which names are in reach behind it. -/

namespace PipeSql

open Query

/-- The names that the check of a join takes for equated. -/
def Query.JoinCondition.equated : JoinCondition → List String
  | .keys names => names
  | .condition expr => equatedNames expr

namespace Reach

variable {catalog : Catalog} {reach next : Reach}

theorem checkName_eq_ok {name : String} :
    reach.checkName name = .ok () ↔ name ∈ reach.columns := by
  unfold checkName
  by_cases h : name ∈ reach.columns <;> simp [h]

theorem tableColumns_eq_ok {table : String} {columns : List String} :
    tableColumns catalog table = .ok columns ↔ catalog.columns? table = some columns := by
  unfold tableColumns
  cases catalog.columns? table <;> simp

/-- A column without table is in reach when its name is, and only one table provides it. -/
theorem checkColumn_bare {column : Column} (hbare : column.table = none) :
    reach.checkColumn catalog column = .ok () ↔
      column.name ∉ reach.ambiguous ∧ column.name ∈ reach.columns := by
  unfold checkColumn
  rw [hbare]
  by_cases h : column.name ∈ reach.ambiguous <;> simp [h, checkName_eq_ok]

theorem checkExpr_eq_ok {expr : Expr} :
    reach.checkExpr catalog expr = .ok () ↔
      ∀ column ∈ expr.columns, reach.checkColumn catalog column = .ok () :=
  forM_eq_ok_iff

theorem checkKey_eq_ok {table : String} {columns : List String} {key : String} :
    reach.checkKey table columns key = .ok () ↔ key ∈ reach.columns ∧ key ∈ columns := by
  unfold checkKey
  rw [check_bind_eq_ok_iff, checkName_eq_ok]
  by_cases h : key ∈ columns <;> simp [h]

/-! ## One stage -/

theorem after_source {table : String} :
    reach.after catalog (.source table) = .ok next ↔
      ∃ columns, catalog.columns? table = some columns ∧
        { reach with
          tables := reach.tables ++ [table]
          columns := reach.columns ++ columns } = next := by
  simp only [after, bind_eq_ok_iff, tableColumns_eq_ok, pure_eq_ok_iff]

theorem after_filter {condition : Expr} :
    reach.after catalog (.filter condition) = .ok next ↔
      reach.checkExpr catalog condition = .ok () ∧ reach = next := by
  simp only [after, check_bind_eq_ok_iff, pure_eq_ok_iff]

theorem after_project {items : List Projection} :
    reach.after catalog (.project items) = .ok next ↔
      (∀ item ∈ items, reach.checkExpr catalog item.value = .ok ()) ∧
        reach.replaceColumns (items.filterMap Projection.name?) = next := by
  simp only [after, check_bind_eq_ok_iff, pure_eq_ok_iff, List.forM_eq_forM,
    forM_eq_ok_iff]
  rfl

theorem afterAssignment_eq_ok {assignment : Assignment} :
    reach.afterAssignment catalog assignment = .ok next ↔
      reach.checkExpr catalog assignment.value = .ok () ∧
        { reach with
          columns := assignment.name :: reach.columns
          ambiguous := reach.ambiguous.filter (· != assignment.name) } = next := by
  simp only [afterAssignment, check_bind_eq_ok_iff, pure_eq_ok_iff]

theorem tables_afterAssignment {assignment : Assignment}
    (h : reach.afterAssignment catalog assignment = .ok next) : next.tables = reach.tables := by
  obtain ⟨-, rfl⟩ := afterAssignment_eq_ok.mp h
  rfl

theorem after_extend {assignments : List Assignment} :
    reach.after catalog (.extend assignments) = .ok next ↔
      assignments.foldlM (afterAssignment catalog) reach = .ok next := by
  rw [after]

theorem after_summarize {aggregates : List Aggregate} {groups : List Column} :
    reach.after catalog (.summarize aggregates groups) = .ok next ↔
      (∀ aggregate ∈ aggregates, ∀ argument ∈ aggregate.arguments,
        reach.checkExpr catalog argument = .ok ()) ∧
      (∀ column ∈ groups, reach.checkColumn catalog column = .ok ()) ∧
        reach.replaceColumns (aggregates.map Aggregate.label ++ groups.map Column.name) = next := by
  simp only [after, check_bind_eq_ok_iff, pure_eq_ok_iff, List.forM_eq_forM,
    forM_eq_ok_iff]

theorem after_join_keys {kind : JoinKind} {table : String} {names : List String} :
    reach.after catalog (.join kind table (.keys names)) = .ok next ↔
      ∃ columns, catalog.columns? table = some columns ∧
        (∀ name ∈ names, reach.checkKey table columns name = .ok ()) ∧
        { reach with
          tables := reach.tables ++ [table]
          columns := reach.columns ++ columns
          ambiguous := reach.ambiguous ++ (columns.filter reach.columns.contains).filter
            fun name => !names.contains name } = next := by
  rw [after, afterJoin, bind_eq_ok_iff]
  simp only [check_bind_eq_ok_iff, tableColumns_eq_ok, List.forM_eq_forM, forM_eq_ok_iff,
    pure_eq_ok_iff]

/-- The columns of the joined table are in reach of the condition, and none is ambiguous yet. -/
theorem after_join_condition {kind : JoinKind} {table : String} {expr : Expr} :
    reach.after catalog (.join kind table (.condition expr)) = .ok next ↔
      ∃ columns, catalog.columns? table = some columns ∧
        { reach with
          tables := reach.tables ++ [table]
          columns := reach.columns ++ columns }.checkExpr catalog expr = .ok () ∧
        { reach with
          tables := reach.tables ++ [table]
          columns := reach.columns ++ columns
          ambiguous := reach.ambiguous ++ (columns.filter reach.columns.contains).filter
            fun name => !(equatedNames expr).contains name } = next := by
  rw [after, afterJoin, bind_eq_ok_iff]
  simp only [check_bind_eq_ok_iff, tableColumns_eq_ok, pure_eq_ok_iff]

/-- What a join does to the names in reach, whatever its condition is. -/
theorem eq_of_after_join {kind : JoinKind} {table : String} {on : JoinCondition}
    (h : reach.after catalog (.join kind table on) = .ok next) :
    ∃ columns, catalog.columns? table = some columns ∧
      next =
        { reach with
          tables := reach.tables ++ [table]
          columns := reach.columns ++ columns
          ambiguous := reach.ambiguous ++ (columns.filter reach.columns.contains).filter
            fun name => !on.equated.contains name } := by
  cases on with
  | keys names =>
    obtain ⟨columns, hcolumns, -, rfl⟩ := after_join_keys.mp h
    exact ⟨columns, hcolumns, rfl⟩
  | condition expr =>
    obtain ⟨columns, hcolumns, -, rfl⟩ := after_join_condition.mp h
    exact ⟨columns, hcolumns, rfl⟩

theorem after_orderBy {keys : List SortKey} :
    reach.after catalog (.orderBy keys) = .ok next ↔
      (∀ key ∈ keys, reach.checkColumn catalog key.column = .ok ()) ∧ reach = next := by
  simp only [after, check_bind_eq_ok_iff, pure_eq_ok_iff, List.forM_eq_forM, forM_eq_ok_iff]

theorem after_top {count : Nat} {key : SortKey} :
    reach.after catalog (.top count key) = .ok next ↔
      reach.checkColumn catalog key.column = .ok () ∧ reach = next := by
  simp only [after, check_bind_eq_ok_iff, pure_eq_ok_iff]

/-- The tables in reach are those that the stages take rows from. -/
theorem tables_after {stage : Stage} (h : reach.after catalog stage = .ok next) :
    next.tables = reach.tables ++ stage.tables := by
  cases stage with
  | source table =>
    obtain ⟨columns, -, rfl⟩ := after_source.mp h
    rfl
  | filter condition =>
    obtain ⟨-, rfl⟩ := after_filter.mp h
    simp [Stage.tables]
  | project items =>
    obtain ⟨-, rfl⟩ := after_project.mp h
    simp [Stage.tables, replaceColumns]
  | projectAway | limit | take =>
    obtain rfl := pure_eq_ok_iff.mp h
    simp [Stage.tables]
  | extend assignments =>
    have htables := foldlM_keeps (P := fun next => next.tables = reach.tables)
      (fun assignment _ before after hbefore hafter =>
        (tables_afterAssignment hafter).trans hbefore)
      rfl (after_extend.mp h)
    simpa [Stage.tables] using htables
  | summarize aggregates groups =>
    obtain ⟨-, -, rfl⟩ := after_summarize.mp h
    simp [Stage.tables, replaceColumns]
  | orderBy keys =>
    obtain ⟨-, rfl⟩ := after_orderBy.mp h
    simp [Stage.tables]
  | top count key =>
    obtain ⟨-, rfl⟩ := after_top.mp h
    simp [Stage.tables]
  | join kind table on =>
    obtain ⟨columns, -, rfl⟩ := eq_of_after_join h
    rfl

/-- The columns that an accepted grouping names without tables are in reach. -/
theorem names_of_summarize {aggregates : List Aggregate} {groups : List Column}
    (hbare : (Stage.summarize aggregates groups).Bare)
    (h : reach.after catalog (.summarize aggregates groups) = .ok next) :
    ∀ column ∈ groups, column.table = none ∧ column.name ∈ reach.columns := by
  intro column hcolumn
  have hnone : column.table = none := hbare column (List.mem_append_right _ hcolumn)
  have hchecked := (after_summarize.mp h).2.1 column hcolumn
  exact ⟨hnone, ((checkColumn_bare hnone).mp hchecked).2⟩

end Reach

/-- The names of a pipeline are checked with the columns of its source in reach. -/
theorem checkNames_source {catalog : Catalog} {table : String} {stages : List Stage} :
    checkNames catalog (.source table :: stages) = .ok () ↔
      ∃ columns last, catalog.columns? table = some columns ∧
        stages.foldlM (Reach.after catalog) ⟨[table], columns, []⟩ = .ok last := by
  simp only [checkNames, bind_eq_ok_iff, List.foldlM_cons, Reach.after_source, pure_eq_ok_iff]
  constructor
  · rintro ⟨last, ⟨-, ⟨columns, hcolumns, rfl⟩, hlast⟩, -⟩
    exact ⟨columns, last, hcolumns, hlast⟩
  · rintro ⟨columns, last, hcolumns, hlast⟩
    exact ⟨last, ⟨_, ⟨columns, hcolumns, rfl⟩, hlast⟩, trivial⟩

end PipeSql
