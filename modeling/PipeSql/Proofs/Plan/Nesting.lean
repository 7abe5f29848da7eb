import PipeSql.Proofs.Plan.Provided

/-! # Where aggregates stand

A later select list puts an aggregate in the place of its name, and so an output may hold one deep
inside its expression. Main statement: the stages behind which aggregates stand in select lists
only, none inside another. -/

namespace PipeSql

open Query

/-! ## Expressions -/

namespace Query.Expr

/-- The aggregates of the expression look at rows: none stands inside another. -/
inductive Shallow : Expr → Prop where
  | column (c) : Shallow (.column c)
  | text (value) : Shallow (.text value)
  | number (digits) : Shallow (.number digits)
  | bool (value) : Shallow (.bool value)
  | binary (op) {left right} : Shallow left → Shallow right → Shallow (.binary op left right)
  | call (function) {arguments} : (∀ e ∈ arguments, Shallow e) →
      Shallow (.call function arguments)
  | aggregate (function) {arguments} : (∀ e ∈ arguments, Scalar e) →
      Shallow (.aggregate function arguments)

theorem Scalar.shallow_mapColumns {f : Column → Expr} {e : Expr} (he : e.Scalar)
    (hf : ∀ c, (f c).Shallow) : (e.mapColumns f).Shallow := by
  induction he with
  | column c => exact hf c
  | text value => exact .text value
  | number digits => exact .number digits
  | bool value => exact .bool value
  | binary op _ _ hleft hright => exact .binary op hleft hright
  | call function _ ih =>
    rw [mapColumns_call]
    refine .call function fun e he => ?_
    obtain ⟨argument, hargument, rfl⟩ := List.mem_map.mp he
    exact ih argument hargument

/-- What replaces the columns of a scalar expression decides whether it stays scalar. -/
theorem scalar_mapColumns_iff {f : Column → Expr} {e : Expr} (he : e.Scalar) :
    (e.mapColumns f).Scalar ↔ ∀ c ∈ e.columns, (f c).Scalar := by
  induction he with
  | column c =>
    rw [columns, List.forall_mem_singleton]
    rfl
  | text value => exact iff_of_true (.text value) (by simp [columns])
  | number digits => exact iff_of_true (.number digits) (by simp [columns])
  | bool value => exact iff_of_true (.bool value) (by simp [columns])
  | @binary op left right _ _ hleft hright =>
    have hboth : (binary op (left.mapColumns f) (right.mapColumns f)).Scalar ↔
        (left.mapColumns f).Scalar ∧ (right.mapColumns f).Scalar :=
      ⟨fun h => by cases h with | binary _ hl hr => exact ⟨hl, hr⟩, fun h => .binary op h.1 h.2⟩
    rw [mapColumns, hboth, hleft, hright, columns, List.forall_mem_append]
  | @call function arguments _ ih =>
    have hall : (call function (arguments.map (mapColumns f))).Scalar ↔
        ∀ e ∈ arguments, (e.mapColumns f).Scalar := by
      rw [← List.forall_mem_map (P := Scalar)]
      exact ⟨fun h => by cases h with | call _ h => exact h, .call function⟩
    rw [mapColumns_call, hall, columns_call]
    simp only [List.mem_flatMap]
    constructor
    · rintro h c ⟨e, he, hc⟩
      exact (ih e he).mp (h e he) c hc
    · exact fun h e he => (ih e he).mpr fun c hc => h c ⟨e, he, hc⟩

end Query.Expr

/-! ## Scopes -/

/-- The aggregate looks at rows: no other one stands in its arguments. -/
def Query.Aggregate.Flat (of : Aggregate) : Prop :=
  ∀ e ∈ of.arguments, e.Scalar

theorem inlines_shallow : Inlines Expr.Scalar Expr.Shallow Aggregate.Flat :=
  ⟨.column, fun h => .aggregate _ h, fun _ h => h, Expr.Scalar.shallow_mapColumns⟩

/-- The name stands for an expression in which an aggregate occurs. -/
def Scope.Mixes (scope : Scope) (name : String) : Prop :=
  ∃ expr label, scope.output? name = some (.value expr label) ∧ ¬ expr.Scalar

/-- A column that is read as a column of each row stands for no aggregates. -/
def Scope.Separates (scope : Scope) (column : Column) : Prop :=
  column.table = none → ¬ scope.Mixes column.name

section Scopes

variable {scope : Scope}

theorem Scope.scalar_resolveColumn_iff (column : Column) :
    (scope.resolveColumn false column).Scalar ↔ scope.Separates column := by
  obtain ⟨_ | table, name⟩ := column
  · change (scope.resolveColumn false (.bare name)).Scalar ↔ (none = none → ¬ scope.Mixes name)
    rw [resolveColumn_bare]
    unfold Mixes
    cases hitem : scope.output? name with
    | none => simp [Expr.Scalar.column]
    | some item =>
      cases item with
      | everything | aggregate => simp [Expr.Scalar.column]
      | value expr label => simp
  · exact iff_of_true (.column _) fun hnone => by cases hnone

theorem Scope.scalar_resolve_iff {e : Expr} (he : e.Scalar) :
    (scope.resolve false e).Scalar ↔ ∀ column ∈ e.columns, scope.Separates column := by
  rw [resolve, Expr.scalar_mapColumns_iff he]
  simp only [scalar_resolveColumn_iff]

end Scopes

/-! ## Plans -/

/-- The aggregates of a plan stand in its select list, none inside another. -/
structure Plan.Unnested (plan : Plan) : Prop where
  outputs : ∀ item ∈ plan.select.listed, item.Holds Expr.Shallow Aggregate.Flat
  joins : ∀ join ∈ plan.joins, join.on.Scalar
  filters : ∀ e ∈ plan.filters, e.Scalar
  groups : ∀ e ∈ plan.groups, e.Scalar

/-- The columns that a stage replaces by what they stand for in a row, and not in a select list. -/
def Query.Stage.rowColumns : Stage → List Column
  | .filter condition => condition.columns
  | .summarize aggregates groups =>
    (aggregates.flatMap Aggregate.arguments).flatMap Expr.columns ++ groups
  | _ => []

section Steps

variable {catalog? : Option Catalog} {plan after : Plan} {stage : Stage}

theorem scalar_keysEqual (left right : String) (names : List String) :
    (keysEqual left right names).Scalar :=
  keysEqual_induction (.bool true) (fun _ _ => .binary _ (.column _) (.column _)) (.binary _)

/-- Whatever names stand for, the conditions of joins are read without them. -/
theorem Plan.scalar_joins_apply (h : ∀ join ∈ plan.joins, join.on.Scalar) (hstage : stage.Scalar)
    (happly : plan.apply catalog? stage = .ok after) : ∀ join ∈ after.joins, join.on.Scalar :=
  joins_apply scalar_keysEqual (fun _ _ _ he => he.mapColumns fun _ => .column _) hstage h happly

theorem Plan.Unnested.outputs_apply (h : plan.Unnested) (hstage : stage.Scalar)
    (hflat : ∀ aggregates groups, stage = .summarize aggregates groups →
      ∀ e ∈ aggregates.flatMap Aggregate.arguments, (plan.scope.resolve false e).Scalar)
    (happly : plan.apply catalog? stage = .ok after) :
    ∀ item ∈ after.select.listed, item.Holds Expr.Shallow Aggregate.Flat := by
  refine holds_apply inlines_shallow (fun _ => hstage) ?_ h.outputs happly
  intro aggregates groups heq aggregate haggregate e he
  obtain ⟨argument, hmem, rfl⟩ := List.mem_map.mp he
  exact hflat aggregates groups heq argument (List.mem_flatMap.mpr ⟨aggregate, haggregate, hmem⟩)

/-- Aggregates and groups stay unnested exactly when they read no name over aggregates. -/
theorem Plan.Unnested.summarize_iff {aggregates : List Aggregate} {groups : List Column}
    (h : plan.Unnested) (hstage : (Stage.summarize aggregates groups).Scalar)
    (happly : plan.apply catalog? (.summarize aggregates groups) = .ok after) :
    after.Unnested ↔ ∀ column ∈ (Stage.summarize aggregates groups).rowColumns,
      plan.scope.Separates column := by
  have houtputs := fun hflat => h.outputs_apply hstage hflat happly
  cases happly
  constructor
  · intro hafter column hcolumn
    rcases List.mem_append.mp hcolumn with hcolumn | hcolumn
    · obtain ⟨argument, hargument, hcolumn⟩ := List.mem_flatMap.mp hcolumn
      obtain ⟨aggregate, haggregate, hmem⟩ := List.mem_flatMap.mp hargument
      have hitem := hafter.outputs (.aggregate { aggregate with
          arguments := aggregate.arguments.map (plan.scope.resolve false) })
        (List.mem_append_left _ (List.mem_map_of_mem haggregate))
      cases hitem with
      | aggregate harguments =>
        have hscalar := harguments _ (List.mem_map_of_mem hmem)
        exact (Scope.scalar_resolve_iff (hstage argument hargument)).mp hscalar column hcolumn
    · exact (Scope.scalar_resolveColumn_iff column).mp
        (hafter.groups _ (List.mem_map_of_mem hcolumn))
  · intro hcolumns
    refine { h with outputs := houtputs ?_, groups := fun e he => ?_ }
    · rintro _ _ ⟨⟩ argument hargument
      refine (Scope.scalar_resolve_iff (hstage argument hargument)).mpr fun column hcolumn => ?_
      exact hcolumns column
        (List.mem_append_left _ (List.mem_flatMap.mpr ⟨argument, hargument, hcolumn⟩))
    · obtain ⟨column, hcolumn, rfl⟩ := List.mem_map.mp he
      exact (Scope.scalar_resolveColumn_iff column).mpr
        (hcolumns column (List.mem_append_right _ hcolumn))

/-- A stage keeps aggregates in their place exactly when it reads no name that stands for an
expression over aggregates as a column of each row. -/
theorem Plan.Unnested.apply_iff (h : plan.Unnested) (hstage : stage.Scalar)
    (happly : plan.apply catalog? stage = .ok after) :
    after.Unnested ↔ ∀ column ∈ stage.rowColumns, plan.scope.Separates column := by
  have hjoins := scalar_joins_apply h.joins hstage happly
  have houtputs := fun hflat => h.outputs_apply hstage hflat happly
  cases stage with
  | filter condition =>
    have hcondition := hstage condition (List.mem_singleton.mpr rfl)
    cases happly
    rw [Query.Stage.rowColumns, ← Scope.scalar_resolve_iff hcondition]
    constructor
    · exact fun hafter => hafter.filters _ (List.mem_append_right _ (List.mem_singleton.mpr rfl))
    · refine fun hscalar => { h with filters := fun e he => ?_ }
      rcases List.mem_append.mp he with he | he
      · exact h.filters e he
      · exact List.mem_singleton.mp he ▸ hscalar
  | summarize aggregates groups => exact h.summarize_iff hstage happly
  -- the other stages read columns for select lists only
  | projectAway names =>
    obtain ⟨select, rfl⟩ := eq_of_removeNames happly
    exact iff_of_true { h with outputs := houtputs nofun } nofun
  | extend assignments =>
    rw [apply_extend] at happly
    cases happly
    exact iff_of_true { h with outputs := houtputs nofun } nofun
  | source | project | orderBy | limit | take | join | top =>
    cases happly
    exact iff_of_true { h with outputs := houtputs nofun, joins := hjoins } nofun

end Steps

/-! ## Pipelines -/

variable {catalog? : Option Catalog} {stages : List Stage}

theorem Plan.unnested_ofTable (table : String) : (ofTable table).Unnested where
  outputs item hitem := by
    obtain rfl := List.mem_singleton.mp hitem
    exact .everything
  joins := nofun
  filters := nofun
  groups := nofun

theorem Plan.scalar_joins {plan : Plan} (hstages : ∀ stage ∈ stages, stage.Scalar)
    (hplan : ofStages catalog? stages = .ok plan) : ∀ join ∈ plan.joins, join.on.Scalar := by
  refine ofStages_induction (P := fun done plan => (∀ stage ∈ done, stage.Scalar) →
    ∀ join ∈ plan.joins, join.on.Scalar) ?_ ?_ hplan hstages
  · exact fun table _ => (unnested_ofTable table).joins
  · intro done stage before after _ _ ih happly hdone
    rw [List.forall_mem_append, List.forall_mem_singleton] at hdone
    exact scalar_joins_apply (ih hdone.1) hdone.2 happly

/-- A stage that reads columns of each row can stand behind every pipeline. -/
theorem Plan.exists_ofStages_concat {plan : Plan} {stage : Stage} {column : Column}
    (hplan : ofStages catalog? stages = .ok plan) (h : column ∈ stage.rowColumns) :
    ∃ after, plan.apply catalog? stage = .ok after ∧
      ofStages catalog? (stages ++ [stage]) = .ok after := by
  have hstages : stages ≠ [] := by
    rintro rfl
    cases hplan
  cases stage with
  | filter | summarize =>
    exact ⟨_, rfl, (ofStages_concat hstages).mpr ⟨plan, hplan, nofun, rfl⟩⟩
  | source | project | projectAway | extend | orderBy | limit | take | join | top => cases h

/-- The conditions of joins are scalar in any case. Behind all stages the aggregates stand in the
select list, none inside another, exactly when no stage reads a name that stands for an expression
over aggregates as a column of each row. -/
theorem unnested_iff (hstages : ∀ stage ∈ stages, stage.Scalar) :
    (∀ front plan, front <+: stages → Plan.ofStages catalog? front = .ok plan →
        ∀ join ∈ plan.joins, join.on.Scalar) ∧
      ((∀ front plan, front <+: stages → Plan.ofStages catalog? front = .ok plan →
          plan.Unnested) ↔
        ∀ front stage plan, front ++ [stage] <+: stages →
          Plan.ofStages catalog? front = .ok plan →
          ∀ column ∈ stage.rowColumns, plan.scope.Separates column) := by
  refine ⟨fun front plan hfront hplan => ?_, fun h front stage plan hfront hplan => ?_,
    fun h front plan hfront hplan => ?_⟩
  · exact Plan.scalar_joins (fun stage hstage => hstages stage (hfront.mem hstage)) hplan
  · intro column hcolumn
    have hplanned := h front plan ((List.prefix_append _ _).trans hfront) hplan
    have hstage := hstages stage (hfront.mem (List.mem_append_right _ List.mem_cons_self))
    obtain ⟨after, happly, hafter⟩ := Plan.exists_ofStages_concat hplan hcolumn
    exact (hplanned.apply_iff hstage happly).mp (h _ after hfront hafter) column hcolumn
  · refine Plan.ofStages_induction (P := fun done plan => done <+: stages → plan.Unnested)
      ?_ ?_ hplan hfront
    · exact fun table _ => Plan.unnested_ofTable table
    · intro done stage before after hbefore _ ih happly hdone
      have hstage := hstages stage (hdone.mem (List.mem_append_right _ List.mem_cons_self))
      have hearlier := ih ((List.prefix_append _ _).trans hdone)
      exact (hearlier.apply_iff hstage happly).mpr (h done stage before hdone hbefore)

def doubleCount : Stage :=
  .extend [⟨"doubled", .binary (.compute .multiply) (.column (.bare "n")) (.number "2")⟩]

theorem scalar_moreThanThree (name : String) :
    ∀ stage ∈ [.source "people", countByCity, doubleCount, moreThanThree (.bare name)],
      Stage.Scalar stage := by
  have hboth (op : Operator) (name digits : String) :
      (Expr.binary op (.column (.bare name)) (.number digits)).Scalar :=
    .binary op (.column _) (.number digits)
  simp [Stage.Scalar, Stage.expressions, countByCity, doubleCount, moreThanThree, hboth]

/-- The name of an aggregate itself stays a name in the condition of a filter. -/
theorem unnested_moreThanThree_n :
    ∃ plan, Plan.ofStages none
        [.source "people", countByCity, doubleCount, moreThanThree (.bare "n")] = .ok plan ∧
      plan.Unnested := by
  have hplans := (@unnested_iff none _ (scalar_moreThanThree "n")).2.mpr
  refine ⟨_, rfl, hplans (fun front stage plan hfront hplan column hcolumn => ?_) _ _
    (List.prefix_refl _) rfl⟩
  rcases front with _ | ⟨_, _ | ⟨_, _ | ⟨_, _ | ⟨_, front⟩⟩⟩⟩ <;>
    simp only [List.nil_append, List.cons_append, List.cons_prefix_cons] at hfront
  · cases hplan
  · obtain ⟨rfl, rfl, -⟩ := hfront
    cases hplan
    obtain rfl := List.mem_singleton.mp hcolumn
    rintro - ⟨expr, label, hvalue, -⟩
    cases hvalue
  · obtain ⟨-, -, rfl, -⟩ := hfront
    cases hcolumn
  · obtain ⟨rfl, rfl, rfl, rfl, -⟩ := hfront
    cases hplan
    obtain rfl := List.mem_singleton.mp hcolumn
    rintro - ⟨expr, label, hvalue, -⟩
    cases hvalue
  · simp at hfront

/-- A name for twice the count puts the aggregate into the condition of a filter. -/
theorem not_unnested_moreThanThree_doubled :
    (∀ stage ∈ [.source "people", countByCity, doubleCount, moreThanThree (.bare "doubled")],
        Stage.Scalar stage) ∧
      ∃ plan, Plan.ofStages none
          [.source "people", countByCity, doubleCount, moreThanThree (.bare "doubled")] =
            .ok plan ∧
        ∃ e ∈ plan.filters, ¬ e.Scalar := by
  refine ⟨scalar_moreThanThree "doubled", _, rfl, _, List.mem_cons_self, fun h => ?_⟩
  cases h with
  | binary _ hleft _ =>
    cases hleft with
    | binary _ hcount _ => cases hcount

end PipeSql
