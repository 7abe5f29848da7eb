import PipeSql.Proofs.Plan.Columns
import PipeSql.Proofs.Plan.Pipeline
import PipeSql.Proofs.Plan.Shared
import PipeSql.Text.Case

/-! # Accepted stages

What a stage whose names are in reach does to a plan. Main statements: which columns come into the
plan with it, and where the names in reach behind it come from. -/

namespace PipeSql

open Query

/-! ## What a stage brings -/

/-- The table of the column is told by a side of a join, `$left` or `$right`, or looks like one. -/
def Query.Column.NamesSide (column : Column) : Prop :=
  ∃ table, column.table = some table ∧ table.toList.head? = some '$'

/-- The column with the side of a join that it names replaced by its table. -/
def Query.Column.ofSide (left right : String) (column : Column) : Column :=
  { column with
    table := column.table.map fun table =>
      match table.toLower with
      | "$left" => left
      | "$right" => right
      | _ => table }

namespace Query.Stage

/-- The stages whose expressions do not come into a select list as they are. -/
inductive Sifting : Stage → Prop where
  | filter (condition) : Sifting (.filter condition)
  | summarize (aggregates groups) : Sifting (.summarize aggregates groups)

/-- The columns whose tables a stage tells by a side: those it names with one, which only the
condition of a join replaces by its table, and the left ones of the keys of a join. -/
inductive Sides (source : String) : Stage → Column → Prop where
  | written {stage column} :
    (∀ kind table on, stage ≠ .join kind table on) → column ∈ stage.columns → column.NamesSide →
      Sides source stage column
  | joined {kind table expr column} :
    column ∈ expr.columns → column.NamesSide →
      Sides source (.join kind table (.condition expr)) (column.ofSide source table)
  | key {kind table names name} :
    name ∈ names → Sides source (.join kind table (.keys names)) (.of source name)

/-- The columns that a stage brings into a plan: those that it names with a table or by a side, the
names of aggregates outside select lists, the names that nothing computes and no join equates, and
the columns that a wildcard is written out to. -/
inductive Brings (catalog : Catalog) (reach : Reach) (plan : Plan) (stage : Stage) :
    Column → Prop where
  | provided {column} :
    column.table.isSome → catalog.Provides (reach.tables ++ stage.tables) column →
      Brings catalog reach plan stage column
  | side {column} : stage.Sides plan.table column → Brings catalog reach plan stage column
  | aggregate {name of} :
    stage.Sifting → Column.bare name ∈ stage.columns →
      plan.scope.output? name = some (.aggregate of) → Brings catalog reach plan stage (.bare name)
  | free {name} :
    stage.Shaping ∨ stage.Sifting → Column.bare name ∈ stage.columns →
      plan.scope.output? name = none → name ∉ plan.scope.keys.map Column.name →
        name ∈ reach.columns → name ∉ reach.ambiguous → Brings catalog reach plan stage (.bare name)
  | writtenOut {names name} :
    stage = .projectAway names → name ∉ names → .everything ∈ plan.select.listed →
      plan.joins = [] → catalog.Lists plan.table name → Brings catalog reach plan stage (.bare name)

end Query.Stage

theorem Query.Column.isSome_of_namesSide {column : Column} (h : column.NamesSide) :
    column.table.isSome := by
  obtain ⟨table, htable, -⟩ := h
  simp [htable]

theorem Query.Stage.Sides.isSome_table {source : String} {stage : Stage} {column : Column}
    (h : stage.Sides source column) : column.table.isSome := by
  cases h with
  | written _ _ hside => exact Column.isSome_of_namesSide hside
  | joined _ hside => simpa [Column.ofSide] using Column.isSome_of_namesSide hside
  | key => rfl

/-- The dollar sign in front does not come from a capital letter. -/
theorem head?_of_toLower {table : String} (h : table.toLower.toList.head? = some '$') :
    table.toList.head? = some '$' := by
  rw [Text.toLower_eq_map, String.toList_map, List.head?_map, Option.map_eq_some_iff] at h
  obtain ⟨c, hc, hlower⟩ := h
  rw [hc, Option.some.injEq]
  unfold Char.toLower at hlower
  split at hlower
  · rename_i hcapital
    have hlow : 65 ≤ c.val := hcapital.1
    have hval : c.val + 32 = 36 := congrArg Char.val hlower
    have hfour : c.val = 4 := by
      rw [← UInt32.add_sub_cancel c.val 32, hval]
      rfl
    rw [hfour] at hlow
    exact absurd hlow (by decide)
  · exact hlower

theorem Query.Column.ofSide_of_not_namesSide {left right : String} {column : Column}
    (h : ¬ column.NamesSide) : column.ofSide left right = column := by
  obtain ⟨_ | table, name⟩ := column
  · rfl
  · have hhead : ∀ side : String, side.toList.head? = some '$' → table.toLower ≠ side := by
      rintro side hside rfl
      exact h ⟨table, rfl, head?_of_toLower hside⟩
    have hleft := hhead "$left" rfl
    have hright := hhead "$right" rfl
    -- Both sides are excluded, which leaves the last case of the match.
    simp only [ofSide, Option.map_some]

theorem columns_nameSides (left right : String) (expr : Expr) :
    (nameSides left right expr).columns = expr.columns.map (Column.ofSide left right) := by
  rw [nameSides, Expr.columns_mapColumns]
  exact List.flatMap_pure_eq_map (Column.ofSide left right) expr.columns

theorem mem_columns_keysEqual {left right : String} {names : List String} {column : Column}
    (h : column ∈ (keysEqual left right names).columns) :
    ∃ name ∈ names, column = .of left name ∨ column = .of right name := by
  revert h
  refine keysEqual_induction (P := fun e => column ∈ e.columns →
    ∃ name ∈ names, column = .of left name ∨ column = .of right name) ?_ ?_ ?_
  · intro h
    cases h
  · intro name hname h
    exact ⟨name, hname, by simpa [keyEquality, Expr.columns] using h⟩
  · intro all next hall hnext h
    exact (List.mem_append.mp h).elim hall hnext

/-- Naming the sides of a join names no further column with a table. -/
theorem bareNames_nameSides (left right : String) (expr : Expr) :
    (nameSides left right expr).bareNames = expr.bareNames := by
  rw [Expr.bareNames, columns_nameSides, List.filter_map, List.map_map, Expr.bareNames]
  congr 1
  simp [Function.comp_def, Column.ofSide]

theorem bareNames_keysEqual (left right : String) (names : List String) :
    (keysEqual left right names).bareNames = [] := by
  refine List.eq_nil_iff_forall_not_mem.mpr fun name hname => ?_
  obtain ⟨key, -, heq | heq⟩ := mem_columns_keysEqual (Expr.mem_bareNames.mp hname) <;> cases heq

/-- The outputs so far and the names in reach there add to those in front of a stage: a name that
is no output now was none there, and it is in reach here only if it was there. -/
structure Scope.Extends (reach : Reach) (plan : Plan) (middle : Reach) (scope : Scope) : Prop where
  keys : scope.keys = plan.scope.keys
  tables : middle.tables = reach.tables
  output : ∀ name, scope.output? name = none → plan.scope.output? name = none
  columns : ∀ name, scope.output? name = none → name ∈ middle.columns → name ∈ reach.columns
  ambiguous : ∀ name, scope.output? name = none → name ∈ reach.ambiguous → name ∈ middle.ambiguous

variable {catalog : Catalog} {stage : Stage} {reach next middle : Reach} {plan after : Plan}
  {name : String}

/-! ## Checked columns -/

/-- A column that is in reach with its table is one of the table, or names a side. -/
theorem Reach.checkColumn_qualified {table name : String}
    (h : reach.checkColumn catalog (.of table name) = .ok ()) :
    catalog.Provides reach.tables (.of table name) ∨ (Column.of table name).NamesSide := by
  unfold checkColumn at h
  simp only [Column.of, List.contains_iff_mem] at h
  by_cases htable : table ∈ reach.tables
  · rw [if_pos htable] at h
    cases hcolumns : catalog.columns? table with
    | none => simp [hcolumns] at h
    | some columns =>
      by_cases hname : name ∈ columns
      · exact .inl ⟨table, htable, .inr rfl, columns, hcolumns, hname⟩
      · simp [hcolumns, hname] at h
  · rw [if_neg htable] at h
    by_cases hside : table.toList.head? = some '$'
    · exact .inr ⟨table, rfl, hside⟩
    · simp [hside] at h

/-! ## Columns that come into a plan -/

theorem Scope.Extends.refl (reach : Reach) (plan : Plan) :
    Scope.Extends reach plan reach plan.scope :=
  ⟨rfl, rfl, fun _ h => h, fun _ _ h => h, fun _ _ h => h⟩

/-- In front of the first assignment of a stage, whose items hold the wildcard if there is one. -/
theorem Scope.Extends.listed (reach : Reach) (plan : Plan) :
    Scope.Extends reach plan reach ⟨plan.select.listed, plan.scope.keys⟩ :=
  ⟨rfl, rfl, fun name hnone => (plan.scope_output? name).trans hnone, fun _ _ h => h,
    fun _ _ h => h⟩

theorem output?_assign (keys : List Column) (items : List SelectItem) (assignment : Assignment)
    (name : String) :
    Scope.output? ⟨Plan.assign keys items assignment, keys⟩ name =
      if name = assignment.name then
        some (.value (Scope.resolve ⟨items, keys⟩ true assignment.value) (some assignment.name))
      else Scope.output? ⟨items, keys⟩ name :=
  namedItem?_overwrite rfl items name

theorem Scope.Extends.assign {keys : List Column} {items : List SelectItem}
    (h : Scope.Extends reach plan middle ⟨items, keys⟩) (assignment : Assignment) :
    Scope.Extends reach plan
      { middle with
        columns := assignment.name :: middle.columns
        ambiguous := middle.ambiguous.filter (· != assignment.name) }
      ⟨Plan.assign keys items assignment, keys⟩ := by
  have hnone : ∀ name, output? ⟨Plan.assign keys items assignment, keys⟩ name = none →
      name ≠ assignment.name ∧ output? ⟨items, keys⟩ name = none := by
    intro name hname
    rw [output?_assign] at hname
    split at hname
    · cases hname
    · exact ⟨‹_›, hname⟩
  refine ⟨h.keys, h.tables, fun name hname => h.output name (hnone name hname).2, ?_, ?_⟩
  · intro name hname hmem
    obtain ⟨hne, hname⟩ := hnone name hname
    exact h.columns name hname ((List.mem_cons.mp hmem).resolve_left hne)
  · intro name hname hmem
    obtain ⟨hne, hname⟩ := hnone name hname
    exact List.mem_filter.mpr ⟨h.ambiguous name hname hmem, by simpa using hne⟩

theorem Scope.Extends.assignments {keys : List Column} {items : List SelectItem}
    {assignments : List Assignment} (h : Scope.Extends reach plan middle ⟨items, keys⟩)
    (hnext : assignments.foldlM (Reach.afterAssignment catalog) middle = .ok next) :
    Scope.Extends reach plan next ⟨assignments.foldl (Plan.assign keys) items, keys⟩ := by
  induction assignments generalizing items middle with
  | nil =>
    obtain rfl : middle = next := pure_eq_ok_iff.mp hnext
    exact h
  | cons assignment rest ih =>
    rw [List.foldlM_cons, bind_eq_ok_iff] at hnext
    obtain ⟨_, hfirst, hrest⟩ := hnext
    obtain ⟨-, rfl⟩ := Reach.afterAssignment_eq_ok.mp hfirst
    exact ih (h.assign assignment) hrest

namespace Query.Stage.Brings

/-- A column that a stage names with a table, joins aside. -/
theorem of_qualified (hjoin : ∀ kind table on, stage ≠ .join kind table on)
    (htables : middle.tables = reach.tables) {table : String}
    (hcolumn : Column.of table name ∈ stage.columns)
    (hchecked : middle.checkColumn catalog (.of table name) = .ok ()) :
    stage.Brings catalog reach plan (.of table name) := by
  rcases Reach.checkColumn_qualified hchecked with hprovides | hside
  · rw [htables] at hprovides
    exact .provided rfl (hprovides.mono fun other hother => List.mem_append_left _ hother)
  · exact .side (.written hjoin hcolumn hside)

/-- A checked column that stands for itself where the stage reads it. -/
theorem of_keeps {scope : Scope} (hextends : scope.Extends reach plan middle) {inSelect : Bool}
    (hplace : stage.Shaping ∧ inSelect = true ∨ stage.Sifting ∧ scope = plan.scope)
    {column : Column} (hcolumn : column ∈ stage.columns)
    (hchecked : middle.checkColumn catalog column = .ok ()) (hkeeps : scope.Keeps inSelect column) :
    stage.Brings catalog reach plan column := by
  cases hkeeps with
  | qualified table name =>
    refine of_qualified ?_ hextends.tables hcolumn hchecked
    rintro kind other on rfl
    rcases hplace with ⟨hshaping, -⟩ | ⟨hsifting, -⟩
    · cases hshaping
    · cases hsifting
  | aggregate hfalse haggregate =>
    rcases hplace with ⟨-, htrue⟩ | ⟨hsifting, rfl⟩
    · simp [hfalse] at htrue
    · exact .aggregate hsifting hcolumn haggregate
  | @free name hnone hkeys =>
    obtain ⟨hclear, hmem⟩ := (Reach.checkColumn_bare rfl).mp hchecked
    rw [hextends.keys] at hkeys
    exact .free (hplace.imp And.left And.left) hcolumn (hextends.output name hnone) hkeys
      (hextends.columns name hnone hmem) fun h => hclear (hextends.ambiguous name hnone h)

end Query.Stage.Brings

namespace Plan.All

variable {P : Column → Prop}

theorem filter (h : plan.All P) {condition : Expr}
    (hnext : reach.after catalog (.filter condition) = .ok next)
    (hbrings : ∀ c, (Stage.filter condition).Brings catalog reach plan c → P c) :
    Plan.All P { plan with
      filters := plan.filters ++ [plan.scope.resolve false condition] } := by
  obtain ⟨hchecked, rfl⟩ := Reach.after_filter.mp hnext
  refine ⟨h.items, ?_, h.groups, h.joins, h.order⟩
  intro expr hexpr
  rcases List.mem_append.mp hexpr with hexpr | hexpr
  · exact h.filters expr hexpr
  · obtain rfl := List.mem_singleton.mp hexpr
    refine h.scope.resolve fun column hcolumn hkeeps => hbrings column ?_
    exact .of_keeps (.refl reach plan) (.inr ⟨.filter condition, rfl⟩)
      (by simpa [Stage.columns, Stage.expressions] using hcolumn)
      (Reach.checkExpr_eq_ok.mp hchecked column hcolumn) hkeeps

theorem project (h : plan.All P) {items : List Projection}
    (hnext : reach.after catalog (.project items) = .ok next)
    (hbrings : ∀ c, (Stage.project items).Brings catalog reach plan c → P c) :
    Plan.All P { plan with select := .items (items.map plan.scope.project) } := by
  obtain ⟨hchecked, rfl⟩ := Reach.after_project.mp hnext
  refine ⟨?_, h.filters, h.groups, h.joins, h.order⟩
  intro output houtput
  obtain ⟨item, hitem, rfl⟩ := List.mem_map.mp houtput
  refine h.scope.project fun column hcolumn hkeeps => hbrings column ?_
  exact .of_keeps (.refl reach plan) (.inl ⟨.project items, rfl⟩)
    (List.mem_append_left _ (by simpa [Stage.expressions] using ⟨item, hitem, hcolumn⟩))
    (Reach.checkExpr_eq_ok.mp (hchecked item hitem) column hcolumn) hkeeps

/-- The items behind some of the assignments of a stage. -/
theorem assignments (h : plan.All P) {assignments todo : List Assignment}
    (hbrings : ∀ c, (Stage.extend assignments).Brings catalog reach plan c → P c)
    (htodo : ∀ assignment ∈ todo, assignment ∈ assignments) {items : List SelectItem}
    (hextends : Scope.Extends reach plan middle ⟨items, plan.scope.keys⟩)
    (hitems : ∀ item ∈ items, ∀ c ∈ item.columns, P c)
    (hnext : todo.foldlM (Reach.afterAssignment catalog) middle = .ok next) :
    ∀ item ∈ todo.foldl (Plan.assign plan.scope.keys) items, ∀ c ∈ item.columns, P c := by
  -- On what is left to assign. Of the names read so far, those that are in reach in front of the
  -- stage count.
  induction todo generalizing items middle with
  | nil => exact hitems
  | cons assignment rest ih =>
    rw [List.foldlM_cons, bind_eq_ok_iff] at hnext
    obtain ⟨_, hfirst, hrest⟩ := hnext
    obtain ⟨hchecked, rfl⟩ := Reach.afterAssignment_eq_ok.mp hfirst
    have hrest' : ∀ other ∈ rest, other ∈ assignments :=
      fun other hother => htodo other (List.mem_cons_of_mem _ hother)
    refine ih hrest' (hextends.assign assignment) ?_ hrest
    intro item hitem
    rcases mem_overwrite hitem with rfl | hitem
    · have hall : Scope.All P ⟨items, plan.scope.keys⟩ :=
        ⟨fun name item hitem => hitems item (mem_of_namedItem? hitem), h.scope.keys⟩
      rw [SelectItem.columns_value]
      refine hall.resolve fun column hcolumn hkeeps => hbrings column ?_
      have hmem := htodo assignment List.mem_cons_self
      exact .of_keeps hextends (.inl ⟨.extend assignments, rfl⟩)
        (List.mem_append_left _ (by simpa [Stage.expressions] using ⟨assignment, hmem, hcolumn⟩))
        (Reach.checkExpr_eq_ok.mp hchecked column hcolumn) hkeeps
    · exact hitems item hitem

theorem extend (h : plan.All P) {assignments : List Assignment}
    (hnext : reach.after catalog (.extend assignments) = .ok next)
    (hbrings : ∀ c, (Stage.extend assignments).Brings catalog reach plan c → P c) :
    Plan.All P { plan with
      select := .items (assignments.foldl (assign plan.scope.keys) plan.select.listed) } := by
  rw [Reach.after_extend] at hnext
  exact ⟨h.assignments hbrings (fun _ h => h) (.listed reach plan) h.items hnext, h.filters,
    h.groups, h.joins, h.order⟩

theorem summarize (h : plan.All P) {aggregates : List Aggregate} {groups : List Column}
    (hnext : reach.after catalog (.summarize aggregates groups) = .ok next)
    (happly : plan.apply (some catalog) (.summarize aggregates groups) = .ok after)
    (hbrings : ∀ c, (Stage.summarize aggregates groups).Brings catalog reach plan c → P c) :
    after.All P := by
  obtain ⟨harguments, hgroups, rfl⟩ := Reach.after_summarize.mp hnext
  cases happly
  have hread : ∀ column ∈ (Stage.summarize aggregates groups).columns,
      reach.checkColumn catalog column = .ok () → plan.scope.Keeps false column → P column :=
    fun column hcolumn hchecked hkeeps => hbrings column (.of_keeps (.refl reach plan)
      (.inr ⟨.summarize aggregates groups, rfl⟩) hcolumn hchecked hkeeps)
  have hgrouped : ∀ column ∈ groups, plan.scope.Keeps false column → P column :=
    fun column hcolumn => hread column (List.mem_append_right _ hcolumn) (hgroups column hcolumn)
  refine ⟨?_, h.filters, ?_, h.joins, h.order⟩
  · intro output houtput
    rcases List.mem_append.mp houtput with houtput | houtput
    · obtain ⟨aggregate, haggregate, rfl⟩ := List.mem_map.mp houtput
      intro c hc
      simp only [SelectItem.columns_aggregate, List.flatMap_map] at hc
      obtain ⟨argument, hargument, hc⟩ := List.mem_flatMap.mp hc
      refine h.scope.resolve (fun column hcolumn => ?_) c hc
      refine hread column (List.mem_append_left _ ?_)
        (Reach.checkExpr_eq_ok.mp (harguments aggregate haggregate argument hargument)
          column hcolumn)
      simpa [Stage.expressions] using ⟨argument, ⟨aggregate, haggregate, hargument⟩, hcolumn⟩
    · obtain ⟨column, hcolumn, rfl⟩ := List.mem_map.mp houtput
      exact h.scope.groupItem (hgrouped column hcolumn)
  · intro expr hexpr
    obtain ⟨column, hcolumn, rfl⟩ := List.mem_map.mp hexpr
    exact h.scope.resolveColumn (hgrouped column hcolumn)

theorem projectAway (h : plan.All P) {names : List String}
    (happly : plan.removeNames (some catalog) names = .ok after)
    (hbrings : ∀ c, (Stage.projectAway names).Brings catalog reach plan c → P c) :
    after.All P := by
  rcases Plan.removeNames_cases happly with ⟨-, rfl⟩ | ⟨items, hitems, rfl⟩
  · exact h
  · refine ⟨?_, h.filters, h.groups, h.joins, h.order⟩
    intro item hitem
    obtain ⟨hitem, hkept⟩ := List.mem_filter.mp hitem
    rw [Plan.removable?_eq_some hitems] at hitem
    cases hcolumns : plan.wildcardColumns? (some catalog) with
    | none =>
      rw [hcolumns] at hitem
      exact h.items item hitem
    | some columns =>
      rw [hcolumns] at hitem
      rcases Plan.mem_expanded hitem with hitem | ⟨hall, name, hname, rfl⟩
      · exact h.items item hitem
      · intro c hc
        obtain rfl : c = .bare name := by simpa [SelectItem.ofColumn, Expr.columns] using hc
        obtain ⟨hjoins, hknown⟩ := Plan.columns?_of_wildcardColumns? hcolumns
        have hkeeps : name ∉ names := by
          simpa [SelectItem.ofColumn, SelectItem.outputName?, Expr.outputName?, Column.bare]
            using hkept
        exact hbrings _ (.writtenOut rfl hkeeps hall hjoins ⟨columns, hknown, hname⟩)

/-- Sort keys count where they are named with a table. -/
theorem sort (h : plan.All P) (hjoin : ∀ kind table on, stage ≠ .join kind table on)
    {keys : List SortKey} (hkeys : ∀ key ∈ keys, key.column ∈ stage.columns)
    (hchecked : ∀ key ∈ keys, reach.checkColumn catalog key.column = .ok ())
    (hbrings : ∀ c, stage.Brings catalog reach plan c → P c) (limit : Option Nat) :
    Plan.All P { plan with
      order := keys.map fun key => { key with column := plan.scope.resolveKey key.column }
      limit } := by
  refine ⟨h.items, h.filters, h.groups, h.joins, ?_⟩
  intro stored hstored
  obtain ⟨key, hkey, rfl⟩ := List.mem_map.mp hstored
  refine h.scope.resolveKey fun hsome => ?_
  obtain ⟨⟨_ | table, name⟩, direction⟩ := key
  · cases hsome
  · exact hbrings _ (.of_qualified hjoin rfl (hkeys _ hkey) (hchecked _ hkey))

theorem join (h : plan.All P) {kind : JoinKind} {table : String} {condition : Expr}
    (hcondition : ∀ c ∈ condition.columns, c.table.isSome → P c) :
    Plan.All P { plan with joins := plan.joins ++ [⟨kind, table, condition⟩] } := by
  refine ⟨h.items, h.filters, h.groups, ?_, h.order⟩
  intro join hjoin
  rcases List.mem_append.mp hjoin with hjoin | hjoin
  · exact h.joins join hjoin
  · obtain rfl := List.mem_singleton.mp hjoin
    exact hcondition

theorem join_keys (h : plan.All P) {kind : JoinKind} {table : String} {names : List String}
    (hnext : reach.after catalog (.join kind table (.keys names)) = .ok next)
    (hbrings : ∀ c, (Stage.join kind table (.keys names)).Brings catalog reach plan c → P c) :
    Plan.All P { plan with
      joins := plan.joins ++ [⟨kind, table, keysEqual plan.table table names⟩] } := by
  obtain ⟨columns, hcolumns, hkeys, -⟩ := Reach.after_join_keys.mp hnext
  refine h.join fun c hc _ => hbrings c ?_
  obtain ⟨name, hname, rfl | rfl⟩ := mem_columns_keysEqual hc
  · exact .side (.key hname)
  · exact .provided rfl ⟨table, by simp [Stage.tables], .inr rfl, columns, hcolumns,
      (Reach.checkKey_eq_ok.mp (hkeys name hname)).2⟩

theorem join_condition (h : plan.All P) {kind : JoinKind} {table : String} {expr : Expr}
    (hnext : reach.after catalog (.join kind table (.condition expr)) = .ok next)
    (hbrings : ∀ c, (Stage.join kind table (.condition expr)).Brings catalog reach plan c → P c) :
    Plan.All P { plan with
      joins := plan.joins ++ [⟨kind, table, nameSides plan.table table expr⟩] } := by
  obtain ⟨columns, -, hchecked, -⟩ := Reach.after_join_condition.mp hnext
  refine h.join fun c hc hsome => hbrings c ?_
  rw [columns_nameSides] at hc
  obtain ⟨column, hcolumn, rfl⟩ := List.mem_map.mp hc
  by_cases hside : column.NamesSide
  · exact .side (.joined hcolumn hside)
  · rw [Column.ofSide_of_not_namesSide hside] at hsome ⊢
    obtain ⟨_ | other, name⟩ := column
    · cases hsome
    · have hcolumn := Reach.checkExpr_eq_ok.mp hchecked _ hcolumn
      exact .provided rfl ((Reach.checkColumn_qualified hcolumn).resolve_right hside)

/-- What holds of the columns of a plan and of those that an accepted stage brings into it holds of
the columns of the plan behind the stage. -/
theorem apply (h : plan.All P) (hnext : reach.after catalog stage = .ok next)
    (happly : plan.apply (some catalog) stage = .ok after)
    (hbrings : ∀ c, stage.Brings catalog reach plan c → P c) : after.All P := by
  cases stage with
  | source table =>
    cases happly
    exact ⟨h.items, h.filters, h.groups, h.joins, h.order⟩
  | filter condition =>
    cases happly
    exact h.filter hnext hbrings
  | project items =>
    cases happly
    exact h.project hnext hbrings
  | projectAway names => exact h.projectAway happly hbrings
  | extend assignments =>
    rw [Plan.apply_extend] at happly
    cases happly
    exact h.extend hnext hbrings
  | summarize aggregates groups => exact h.summarize hnext happly hbrings
  | orderBy keys =>
    cases happly
    exact h.sort (by simp) (fun key hkey => List.mem_append_right _ (List.mem_map_of_mem hkey))
      (Reach.after_orderBy.mp hnext).1 hbrings plan.limit
  | top count key =>
    cases happly
    have hkeys : ∀ other ∈ [key], other.column ∈ (Stage.top count key).columns := by
      simp [Stage.columns]
    exact h.sort (by simp) hkeys (by simpa using (Reach.after_top.mp hnext).1) hbrings (some count)
  | limit count | take count =>
    cases happly
    exact ⟨h.items, h.filters, h.groups, h.joins, h.order⟩
  | join kind table on =>
    cases on with
    | keys names =>
      cases happly
      exact h.join_keys hnext hbrings
    | condition expr =>
      cases happly
      exact h.join_condition hnext hbrings

end Plan.All

/-! ## Names in reach -/

/-- Some stage takes the name away. -/
def Removed (stages : List Stage) (name : String) : Prop :=
  ∃ names, Stage.projectAway names ∈ stages ∧ name ∈ names

theorem Removed.append {stages : List Stage} (h : Removed stages name) (more : List Stage) :
    Removed (stages ++ more) name := by
  obtain ⟨names, hstage, hname⟩ := h
  exact ⟨names, List.mem_append_left _ hstage, hname⟩

theorem Removed.prepend {stages : List Stage} (h : Removed stages name) (before : List Stage) :
    Removed (before ++ stages) name := by
  obtain ⟨names, hstage, hname⟩ := h
  exact ⟨names, List.mem_append_right _ hstage, hname⟩

theorem isSome_output?_of_mem {item : SelectItem} (hitem : item ∈ plan.select.listed)
    (hname : item.outputName? = some name) : (plan.scope.output? name).isSome := by
  rw [Plan.scope_output?]
  exact isSome_namedItem?_iff.mpr ⟨item, hitem, hname⟩

/-- The name was in reach in front of the stage. It is ambiguous behind it if it was there, and if
it was an output, it is one still, unless the stage takes it away. -/
structure Query.Stage.Passes (reach next : Reach) (plan after : Plan) (stage : Stage)
    (name : String) : Prop where
  columns : name ∈ reach.columns
  ambiguous : name ∈ reach.ambiguous → name ∈ next.ambiguous
  output : (plan.scope.output? name).isSome →
    (after.scope.output? name).isSome ∨ Removed [stage] name

/-- A name in reach behind a stage is one of an output or of a joined table, or it was in reach in
front of the stage. -/
theorem Reach.mem_columns_after (hstage : ∀ table, stage ≠ .source table)
    (hnext : reach.after catalog stage = .ok next)
    (happly : plan.apply (some catalog) stage = .ok after) (hname : name ∈ next.columns) :
    (after.scope.output? name).isSome ∨ stage.Passes reach next plan after name ∨
      ∃ table ∈ stage.tables, catalog.Lists table name := by
  cases stage with
  | source table => exact absurd rfl (hstage table)
  | filter condition =>
    obtain ⟨-, rfl⟩ := after_filter.mp hnext
    cases happly
    exact .inr (.inl ⟨hname, fun h => h, .inl⟩)
  | limit | take =>
    obtain rfl : reach = next := pure_eq_ok_iff.mp hnext
    cases happly
    exact .inr (.inl ⟨hname, fun h => h, .inl⟩)
  | orderBy keys =>
    obtain ⟨-, rfl⟩ := after_orderBy.mp hnext
    cases happly
    exact .inr (.inl ⟨hname, fun h => h, .inl⟩)
  | top count key =>
    obtain ⟨-, rfl⟩ := after_top.mp hnext
    cases happly
    exact .inr (.inl ⟨hname, fun h => h, .inl⟩)
  | project items =>
    obtain ⟨-, rfl⟩ := after_project.mp hnext
    cases happly
    obtain ⟨item, hitem, hname⟩ := List.mem_filterMap.mp hname
    refine .inl (isSome_output?_of_mem (List.mem_map_of_mem hitem) ?_)
    rw [(plan.scope.outputName?_project item).2, hname]
  | projectAway names =>
    obtain rfl : reach = next := pure_eq_ok_iff.mp hnext
    refine .inr (.inl ⟨hname, fun h => h, fun hsome => ?_⟩)
    by_cases hgone : name ∈ names
    · exact .inr ⟨names, List.mem_singleton_self _, hgone⟩
    · rcases Plan.output?_removeNames_of_not_mem happly hgone with hsame | ⟨-, -, hcolumn⟩
      · exact .inl (by rwa [hsame])
      · exact .inl (by rw [hcolumn]; rfl)
  | extend assignments =>
    rw [after_extend] at hnext
    rw [Plan.apply_extend] at happly
    cases happly
    have hextends := (Scope.Extends.listed reach plan).assignments hnext
    cases houtput : Scope.output? ⟨assignments.foldl (Plan.assign plan.scope.keys)
        plan.select.listed, plan.scope.keys⟩ name with
    | some item => exact .inl (Option.isSome_of_eq_some houtput)
    | none =>
      refine .inr (.inl ⟨hextends.columns name houtput hname, hextends.ambiguous name houtput, ?_⟩)
      intro hsome
      simp [hextends.output name houtput] at hsome
  | summarize aggregates groups =>
    obtain ⟨-, -, rfl⟩ := after_summarize.mp hnext
    cases happly
    rcases List.mem_append.mp hname with hname | hname
    · obtain ⟨aggregate, haggregate, rfl⟩ := List.mem_map.mp hname
      exact .inl (isSome_output?_of_mem
        (List.mem_append_left _ (List.mem_map_of_mem haggregate)) rfl)
    · obtain ⟨column, hcolumn, rfl⟩ := List.mem_map.mp hname
      obtain ⟨_, -, houtput⟩ := groupItem_eq plan.scope column
      exact .inl (isSome_output?_of_mem
        (List.mem_append_right _ (List.mem_map_of_mem hcolumn)) houtput)
  | join kind table on =>
    obtain ⟨columns, hcolumns, rfl⟩ := eq_of_after_join hnext
    cases happly
    rcases List.mem_append.mp hname with hname | hname
    · exact .inr (.inl ⟨hname, List.mem_append_left _, .inl⟩)
    · exact .inr (.inr ⟨table, List.mem_singleton_self table, columns, hcolumns, hname⟩)

end PipeSql
