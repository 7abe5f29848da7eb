import PipeSql.Proofs.Catalog.Reach
import PipeSql.Proofs.Plan.Equated
import PipeSql.Sql.Select

/-! # Names that several tables provide

Which tables of a plan have a column of a name, and which names a plan leaves without a table. -/

namespace PipeSql

open Query

namespace Catalog

/-- The table is known to have a column of the name. -/
def Lists (catalog : Catalog) (table name : String) : Prop :=
  ∃ columns ∈ catalog.columns? table, name ∈ columns

instance (catalog : Catalog) (table name : String) : Decidable (catalog.Lists table name) :=
  inferInstanceAs (Decidable (∃ columns ∈ catalog.columns? table, name ∈ columns))

/-- Two of the tables have a column of the name. -/
def Shares (catalog : Catalog) (tables : List String) (name : String) : Prop :=
  ∃ left ∈ tables, ∃ right ∈ tables,
    left ≠ right ∧ catalog.Lists left name ∧ catalog.Lists right name

instance (catalog : Catalog) (tables : List String) (name : String) :
    Decidable (catalog.Shares tables name) :=
  inferInstanceAs (Decidable (∃ left ∈ tables, ∃ right ∈ tables,
    left ≠ right ∧ catalog.Lists left name ∧ catalog.Lists right name))

/-- None of the names is one that two of the tables have. -/
def Settles (catalog : Catalog) (tables names : List String) : Prop :=
  ∀ name ∈ names, ¬ catalog.Shares tables name

instance (catalog : Catalog) (tables names : List String) :
    Decidable (catalog.Settles tables names) :=
  inferInstanceAs (Decidable (∀ name ∈ names, ¬ catalog.Shares tables name))

/-- One of the tables has the column: the one that it names, or any where it names none. -/
def Provides (catalog : Catalog) (tables : List String) (column : Column) : Prop :=
  ∃ table ∈ tables, (column.table = none ∨ column.table = some table) ∧
    catalog.Lists table column.name

instance (catalog : Catalog) (tables : List String) (column : Column) :
    Decidable (catalog.Provides tables column) :=
  inferInstanceAs (Decidable (∃ table ∈ tables,
    (column.table = none ∨ column.table = some table) ∧ catalog.Lists table column.name))

theorem Provides.mono {catalog : Catalog} {tables tables' : List String} {column : Column}
    (h : catalog.Provides tables column) (htables : ∀ table ∈ tables, table ∈ tables') :
    catalog.Provides tables' column := by
  obtain ⟨table, htable, hprovides⟩ := h
  exact ⟨table, htables table htable, hprovides⟩

end Catalog

namespace Plan

/-- The tables that the names of a plan are looked up in. -/
def tables (plan : Plan) : List String :=
  plan.table :: plan.joins.map Join.table

/-- The names that a plan leaves without a table, sorting aside. -/
def bareNames (plan : Plan) : List String :=
  plan.expressions.flatMap Expr.bareNames

variable {catalog? : Option Catalog} {stage : Stage} {plan after : Plan}

/-- A stage keeps the tables of a plan, and a join puts its own behind them. -/
theorem tables_apply (hstage : ∀ table, stage ≠ .source table)
    (h : plan.apply catalog? stage = .ok after) :
    after.table = plan.table ∧ after.tables = plan.tables ++ stage.tables := by
  cases stage with
  | source table => exact absurd rfl (hstage table)
  | projectAway names =>
    obtain ⟨select, rfl⟩ := eq_of_removeNames h
    exact ⟨rfl, (List.append_nil _).symm⟩
  | extend assignments =>
    rw [apply_extend] at h
    cases h
    exact ⟨rfl, (List.append_nil _).symm⟩
  | join kind table on =>
    cases h
    exact ⟨rfl, by simp [tables, Stage.tables]⟩
  | filter | project | summarize | orderBy | limit | take | top =>
    cases h
    exact ⟨rfl, (List.append_nil _).symm⟩

theorem tables_subset_apply (hstage : ∀ table, stage ≠ .source table)
    (h : plan.apply catalog? stage = .ok after) : ∀ table ∈ plan.tables, table ∈ after.tables := by
  intro table htable
  rw [(tables_apply hstage h).2]
  exact List.mem_append_left _ htable

end Plan

def townCatalog : Catalog :=
  (Catalog.empty.register "people" ["name", "city", "age"]).register "cities"
    ["city", "country", "name"]

def cityJoin : Stage :=
  .join .inner "cities" (.keys ["city"])

def osloFilter : Stage :=
  .filter (.binary (.compare .equal) (.column (.bare "city")) (.text "Oslo"))

end PipeSql
