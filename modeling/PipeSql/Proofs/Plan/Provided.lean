import PipeSql.Proofs.Plan.Accounts

/-! # Columns that the tables provide

Which columns of the plan of an accepted pipeline its tables have. Main statements: a name that is
left without a table is one of the tables', unless it names an aggregate outside select lists or was
taken away before it was read; and the exact condition for the columns that are named with tables,
which fails only for tables that are told by the sides of joins. -/

namespace PipeSql

open Query

variable {catalog : Catalog} {stages : List Stage} {plan : Plan}

namespace Plan

/-- The expressions of a plan, the conditions of its joins aside. -/
def computed (plan : Plan) : List Expr :=
  plan.outputs.flatMap SelectItem.expressions ++ plan.filters ++ plan.groups

/-- All columns of a plan. -/
def columns (plan : Plan) : List Column :=
  plan.expressions.flatMap Expr.columns ++ plan.order.map SortKey.column

theorem mem_expressions {expr : Expr} :
    expr ∈ plan.expressions ↔ expr ∈ plan.computed ∨ ∃ join ∈ plan.joins, join.on = expr := by
  simp only [expressions, computed, List.mem_append, List.mem_map]
  grind

namespace All

variable {P : Column → Prop}

theorem outputs (h : plan.All P) {expr : Expr}
    (hexpr : expr ∈ plan.outputs.flatMap SelectItem.expressions) : ∀ c ∈ expr.columns, P c := by
  intro c hc
  obtain ⟨item, hitem, hexpr⟩ := List.mem_flatMap.mp hexpr
  exact h.items item (mem_listed_of_mem_outputs hitem) c (List.mem_flatMap.mpr ⟨expr, hexpr, hc⟩)

theorem computed (h : plan.All P) {expr : Expr} (hexpr : expr ∈ plan.computed) :
    ∀ c ∈ expr.columns, P c := by
  rcases List.mem_append.mp hexpr with hexpr | hexpr
  · rcases List.mem_append.mp hexpr with hexpr | hexpr
    · exact h.outputs hexpr
    · exact h.filters expr hexpr
  · exact h.groups expr hexpr

theorem columns (h : plan.All P) {column : Column} (hcolumn : column ∈ plan.columns)
    (hsome : column.table.isSome) : P column := by
  rcases List.mem_append.mp hcolumn with hcolumn | hcolumn
  · obtain ⟨expr, hexpr, hc⟩ := List.mem_flatMap.mp hcolumn
    rcases mem_expressions.mp hexpr with hexpr | ⟨join, hjoin, rfl⟩
    · exact h.computed hexpr column hc
    · exact h.joins join hjoin column hc hsome
  · obtain ⟨key, hkey, rfl⟩ := List.mem_map.mp hcolumn
    exact h.order key hkey hsome

end All

end Plan

/-! ## Bare names -/

/-- A name that the plan of an accepted pipeline leaves without a table is that of a column of its
tables, unless a stage outside select lists reads an aggregate by it or it was taken away. -/
theorem lists_of_accepted (hnames : checkNames catalog stages = .ok ())
    (hplan : Plan.ofStages (some catalog) stages = .ok plan) :
    ∀ expr ∈ plan.computed, ∀ name ∈ expr.bareNames,
      (∃ table ∈ plan.tables, catalog.Lists table name) ∨ ReadsAggregate catalog stages name ∨
        ReadsRemoved catalog stages name := by
  obtain ⟨reach, hreach⟩ := checkNames_eq_ok.mp hnames
  have h := Accounts.of_reach hreach hplan
  intro expr hexpr name hname
  obtain ⟨column, hcolumn, rfl⟩ := List.mem_map.mp hname
  obtain ⟨hcolumn, hnone⟩ := List.mem_filter.mp hcolumn
  cases h.all.computed hexpr column hcolumn with
  | provided hprovides =>
    obtain ⟨table, htable, -, hlists⟩ := hprovides
    exact .inl ⟨table, htable, hlists⟩
  | aggregate h => exact .inr (.inl h)
  | removed h => exact .inr (.inr h)
  | side _ hside =>
    have hsome := hside.isSome_table
    simp [Option.isNone_iff_eq_none.mp hnone] at hsome

def countByCity : Stage :=
  .summarize [⟨"n", "count", []⟩] [.bare "city"]

def moreThanThree (column : Column) : Stage :=
  .filter (.binary (.compare .greater) (.column column) (.number "3"))

theorem lists_of_accepted_countByCity :
    ∃ plan, Plan.ofStages (some townCatalog)
        [.source "people", countByCity, moreThanThree (.bare "n")] = .ok plan ∧
      ∀ expr ∈ plan.computed, ∀ name ∈ expr.bareNames,
        (∃ table ∈ plan.tables, townCatalog.Lists table name) ∨
          ReadsAggregate townCatalog
            [.source "people", countByCity, moreThanThree (.bare "n")] name ∨
          ReadsRemoved townCatalog
            [.source "people", countByCity, moreThanThree (.bare "n")] name :=
  ⟨_, rfl, lists_of_accepted rfl rfl⟩

/-- The filter reads an aggregate by its name, which no table has. -/
theorem not_lists_countByCity :
    checkNames townCatalog [.source "people", countByCity, moreThanThree (.bare "n")] = .ok () ∧
      ∃ plan, Plan.ofStages (some townCatalog)
          [.source "people", countByCity, moreThanThree (.bare "n")] = .ok plan ∧
        ∃ expr ∈ plan.filters, ∃ name ∈ expr.bareNames,
          ¬ ∃ table ∈ plan.tables, townCatalog.Lists table name :=
  ⟨rfl, _, rfl, _, List.mem_singleton_self _, "n", List.mem_singleton_self _, by decide⟩

/-! ## Columns with tables -/

/-- The tables of an accepted pipeline have the columns that its plan names with a table exactly
when they have those whose tables the stages tell by a side of a join. -/
theorem provides_columns_iff (hnames : checkNames catalog stages = .ok ())
    (hplan : Plan.ofStages (some catalog) stages = .ok plan) :
    (∀ column ∈ plan.columns, column.table.isSome → catalog.Provides plan.tables column) ↔
      ∀ column ∈ plan.columns, (∃ stage ∈ stages, stage.Sides plan.table column) →
        catalog.Provides plan.tables column := by
  obtain ⟨reach, hreach⟩ := checkNames_eq_ok.mp hnames
  have h := Accounts.of_reach hreach hplan
  constructor
  · rintro hall column hcolumn ⟨stage, -, hside⟩
    exact hall column hcolumn hside.isSome_table
  · intro hsides column hcolumn hsome
    cases h.all.columns hcolumn hsome with
    | provided hprovides => exact hprovides
    | aggregate | removed => cases hsome
    | side hstage hside => exact hsides column hcolumn ⟨_, hstage, hside⟩

theorem provides_columns_iff_cityJoin :
    ∃ plan, Plan.ofStages (some townCatalog)
        [.source "people", cityJoin, moreThanThree (.of "people" "age")] = .ok plan ∧
      ∀ column ∈ plan.columns, column.table.isSome → townCatalog.Provides plan.tables column := by
  obtain ⟨plan, hplan⟩ : ∃ plan, Plan.ofStages (some townCatalog)
      [.source "people", cityJoin, moreThanThree (.of "people" "age")] = .ok plan := ⟨_, rfl⟩
  have hprovides : ∀ column ∈ plan.columns, townCatalog.Provides plan.tables column := by
    cases hplan
    decide
  exact ⟨plan, hplan, (provides_columns_iff rfl hplan).mpr fun column hcolumn _ =>
    hprovides column hcolumn⟩

/-- Outside joins the side stays in the place of a table. -/
theorem not_provides_columns_leftAge :
    checkNames townCatalog [.source "people", moreThanThree (.of "$left" "age")] = .ok () ∧
      ∃ plan, Plan.ofStages (some townCatalog)
          [.source "people", moreThanThree (.of "$left" "age")] = .ok plan ∧
        ∃ column ∈ plan.columns, column.table.isSome ∧
          ¬ townCatalog.Provides plan.tables column :=
  ⟨rfl, _, rfl, .of "$left" "age", by decide, rfl, by decide⟩

end PipeSql
