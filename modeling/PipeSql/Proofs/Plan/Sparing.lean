import PipeSql.Proofs.Plan.Shared

/-! # What a name denotes in a SELECT

A name that the SELECT of a plan reads is that of an output, or else of a column of the tables. The
stages behind which a name still denotes the same. -/

namespace PipeSql

open Query

/-- The expression of a select item; the wildcard has none. -/
def SelectItem.denotes? : SelectItem → Option Expr
  | .everything => none
  | .value expr _ => some expr
  | .aggregate of => some (.aggregate of.function of.arguments)

/-- What a sort key denotes in the SELECT of a plan: the output that it names, or else a column of
the tables. -/
def Plan.denotes? (catalog : Catalog) (plan : Plan) (column : Column) : Option Expr :=
  match column.table, plan.scope.output? column.name with
  | none, some item => item.denotes?
  | _, _ => if catalog.Provides plan.tables column then some (.column column) else none

/-! ## Sparing a name -/

/-- The name stands for the value without any output, as a column of the tables. -/
def Plan.Rests (catalog : Catalog) (plan : Plan) (name : String) (value : Expr) : Prop :=
  value = .column (.bare name) ∧ catalog.Provides plan.tables (.bare name)

/-- No output has the name, and it stands for the column of a table that a join equates. -/
def Plan.Equates (plan : Plan) (name : String) : Prop :=
  plan.scope.output? name = none ∧ ∃ key ∈ plan.scope.keys, key.name = name

/-- The stage leaves the value under the name: as an output, or as a column of the tables. -/
def Query.Stage.Spares (catalog : Catalog) (plan : Plan) (name : String) (value : Expr) :
    Stage → Prop
  | .extend assignments => ∀ assignment ∈ assignments, assignment.name ≠ name
  | .project items =>
    match items.find? fun item => item.name? == some name with
    | some item => item.value = .column (.bare name) ∧ ¬ plan.Equates name
    | none => plan.Rests catalog name value
  | .projectAway names =>
    plan.Rests catalog name value ∨ name ∉ names ∧
      -- Written out, the wildcard may put a column of the name in front of the output.
      (catalog.Lists plan.table name → .everything ∉ plan.select.listed)
  | .summarize aggregates groups =>
    (∀ aggregate ∈ aggregates, aggregate.label ≠ name) ∧
      match groups.find? fun column => column.name == name with
      | some column => column = .bare name ∧ ¬ plan.Equates name ∧
          ∀ of, plan.scope.output? name ≠ some (.aggregate of)
      | none => plan.Rests catalog name value
  | _ => True

/-- All stages spare the name, each in the plan that it finds. -/
def Plan.SparedBy (catalog : Catalog) (name : String) (value : Expr) : Plan → List Stage → Prop
  | _, [] => True
  | plan, stage :: rest =>
    stage.Spares catalog plan name value ∧ ∀ next, plan.apply (some catalog) stage = .ok next →
      next.SparedBy catalog name value rest

section Denotes

variable {catalog : Catalog} {plan after : Plan} {name : String} {value : Expr}
  {item : SelectItem}

theorem Plan.denotes?_bare (catalog : Catalog) (plan : Plan) (name : String) :
    plan.denotes? catalog (.bare name) =
      match plan.scope.output? name with
      | some item => item.denotes?
      | none => if catalog.Provides plan.tables (.bare name) then some (.column (.bare name))
        else none := by
  unfold denotes?
  cases h : plan.scope.output? name <;> simp [Column.bare, h]

theorem Plan.denotes?_of_output (houtput : plan.scope.output? name = some item)
    (hitem : item.denotes? = some value) : plan.denotes? catalog (.bare name) = some value := by
  rw [denotes?_bare, houtput]
  exact hitem

theorem Plan.Rests.denotes? (h : plan.Rests catalog name value)
    (houtput : after.scope.output? name = none)
    (htables : ∀ table ∈ plan.tables, table ∈ after.tables) :
    after.denotes? catalog (.bare name) = some value := by
  obtain ⟨rfl, hprovides⟩ := h
  rw [denotes?_bare, houtput]
  exact if_pos (hprovides.mono htables)

theorem Plan.denotes?_of_isSome {column : Column} (hsome : column.table.isSome)
    (h : plan.denotes? catalog column = some value)
    (htables : ∀ table ∈ plan.tables, table ∈ after.tables) :
    after.denotes? catalog column = some value := by
  obtain ⟨_ | table, name⟩ := column
  · cases hsome
  · simp only [denotes?, Option.ite_none_right_eq_some] at h ⊢
    exact ⟨h.1.mono htables, h.2⟩

/-- Where the output of the name stays and tables are only added, so does what the name denotes. -/
theorem Plan.denotes?_of_output_eq (h : plan.denotes? catalog (.bare name) = some value)
    (houtput : after.scope.output? name = plan.scope.output? name)
    (htables : ∀ table ∈ plan.tables, table ∈ after.tables) :
    after.denotes? catalog (.bare name) = some value := by
  rw [denotes?_bare] at h ⊢
  rw [houtput]
  cases hitem : plan.scope.output? name with
  | some item => simpa [hitem] using h
  | none =>
    simp only [hitem, Option.ite_none_right_eq_some] at h ⊢
    exact ⟨h.1.mono htables, h.2⟩

theorem SelectItem.denotes?_relabelled (label : String) (item : SelectItem) :
    (item.relabelled label).denotes? = item.denotes? := by
  cases item <;> rfl

/-! ## Names in a scope -/

/-- In a select list a name stands for what its output denotes. -/
theorem Scope.resolveColumn_of_output? {scope : Scope} (h : scope.output? name = some item) :
    item.denotes? = some (scope.resolveColumn true (.bare name)) := by
  cases item with
  | everything =>
    have hnone := Scope.outputName?_of_output? h
    simp [SelectItem.outputName?] at hnone
  | value | aggregate => simp [resolveColumn, Column.bare, h, SelectItem.denotes?]

theorem Scope.resolveColumn_of_not_equates (h : ¬ plan.Equates name)
    (hnone : plan.scope.output? name = none) (inSelect : Bool) :
    plan.scope.resolveColumn inSelect (.bare name) = .column (.bare name) := by
  have hkey : plan.scope.keys.find? (fun key => key.name == name) = none := by
    refine List.find?_eq_none.mpr fun key hkey heq => h ⟨hnone, key, hkey, by simpa using heq⟩
  simp [resolveColumn, Column.bare, hnone, qualify, hkey]

theorem Scope.resolveColumn_eq_of_ne_aggregate {scope : Scope}
    (h : ∀ of, scope.output? name ≠ some (.aggregate of)) :
    scope.resolveColumn false (.bare name) = scope.resolveColumn true (.bare name) := by
  unfold resolveColumn
  cases hitem : scope.output? name with
  | none => simp [Column.bare, hitem]
  | some item =>
    cases item with
    | aggregate of => exact absurd hitem (h of)
    | everything | value => simp [Column.bare, hitem]

/-- A name stands for what it denotes, unless for the key of a join. -/
theorem Plan.resolveColumn_of_denotes? (hequates : ¬ plan.Equates name)
    (h : plan.denotes? catalog (.bare name) = some value) :
    plan.scope.resolveColumn true (.bare name) = value := by
  rw [denotes?_bare] at h
  cases hitem : plan.scope.output? name with
  | some item =>
    rw [hitem] at h
    exact Option.some.inj ((Scope.resolveColumn_of_output? hitem).symm.trans h)
  | none =>
    rw [Scope.resolveColumn_of_not_equates hequates hitem]
    simp only [hitem, Option.ite_none_right_eq_some, Option.some.injEq] at h
    exact h.2

theorem Scope.denotes?_project (scope : Scope) (label : Option String) (name : String) :
    (scope.project ⟨.column (.bare name), label⟩).denotes? =
      some (scope.resolveColumn true (.bare name)) := by
  rcases scope.project_cases ⟨.column (.bare name), label⟩ with
    ⟨column, earlier, hitem, -, hearlier, hproject⟩ | ⟨-, hproject⟩
  · obtain rfl : Column.bare name = column := by simpa using hitem
    rw [hproject, SelectItem.denotes?_relabelled]
    exact resolveColumn_of_output? hearlier
  · rw [hproject]
    rfl

/-! ## One stage -/

namespace Query.Stage.Spares

theorem extend {assignments : List Assignment}
    (h : (Stage.extend assignments).Spares catalog plan name value)
    (hdenotes : plan.denotes? catalog (.bare name) = some value)
    (happly : plan.apply (some catalog) (.extend assignments) = .ok after) :
    after.denotes? catalog (.bare name) = some value := by
  rw [Plan.apply_extend] at happly
  cases happly
  refine Plan.denotes?_of_output_eq hdenotes ?_ fun _ htable => htable
  rw [Plan.scope_output?, Plan.scope_output?]
  exact namedItem?_foldl_assign h _

theorem project {items : List Projection}
    (h : (Stage.project items).Spares catalog plan name value)
    (hdenotes : plan.denotes? catalog (.bare name) = some value)
    (happly : plan.apply (some catalog) (.project items) = .ok after) :
    after.denotes? catalog (.bare name) = some value := by
  cases happly
  have houtput : Scope.output? (Plan.scope { plan with
      select := .items (items.map plan.scope.project) }) name =
      (items.find? fun item => item.name? == some name).map plan.scope.project := by
    rw [Plan.scope_output?]
    exact namedItem?_map_project plan.scope items name
  cases hitem : items.find? fun item => item.name? == some name with
  | none =>
    simp only [Spares, hitem] at h
    rw [hitem] at houtput
    exact h.denotes? houtput fun _ htable => htable
  | some item =>
    simp only [Spares, hitem] at h
    rw [hitem] at houtput
    obtain ⟨hvalue, hequates⟩ := h
    refine Plan.denotes?_of_output houtput ?_
    obtain ⟨_, label⟩ := item
    obtain rfl := hvalue
    rw [plan.scope.denotes?_project, Plan.resolveColumn_of_denotes? hequates hdenotes]

theorem projectAway {names : List String}
    (h : (Stage.projectAway names).Spares catalog plan name value)
    (hdenotes : plan.denotes? catalog (.bare name) = some value)
    (happly : plan.apply (some catalog) (.projectAway names) = .ok after) :
    after.denotes? catalog (.bare name) = some value := by
  replace happly : plan.removeNames (some catalog) names = .ok after := happly
  have htables : ∀ table ∈ plan.tables, table ∈ after.tables := by
    obtain ⟨select, rfl⟩ := Plan.eq_of_removeNames happly
    exact fun _ htable => htable
  rcases h with hrests | ⟨hkept, hhidden⟩
  · by_cases hgone : name ∈ names
    · cases hitems : plan.removable? (some catalog) with
      | none =>
        rcases Plan.removeNames_cases happly with ⟨-, rfl⟩ | ⟨items, hsome, -⟩
        · exact hdenotes
        · simp [hitems] at hsome
      | some items =>
        exact hrests.denotes? (Plan.output?_removeNames_of_mem hitems happly hgone) htables
    · rcases Plan.output?_removeNames_of_not_mem happly hgone with hsame | ⟨-, -, hcolumn⟩
      · exact Plan.denotes?_of_output_eq hdenotes hsame htables
      · exact Plan.denotes?_of_output hcolumn (congrArg some hrests.1.symm)
  · rcases Plan.output?_removeNames_of_not_mem happly hkept with hsame | ⟨hall, hlists, -⟩
    · exact Plan.denotes?_of_output_eq hdenotes hsame htables
    · exact absurd hall (hhidden hlists)

theorem summarize {aggregates : List Aggregate} {groups : List Column}
    (h : (Stage.summarize aggregates groups).Spares catalog plan name value)
    (hdenotes : plan.denotes? catalog (.bare name) = some value)
    (happly : plan.apply (some catalog) (.summarize aggregates groups) = .ok after) :
    after.denotes? catalog (.bare name) = some value := by
  cases happly
  obtain ⟨hlabels, hgroups⟩ := h
  have houtput : namedItem? (aggregates.map (fun aggregate => SelectItem.aggregate { aggregate with
        arguments := aggregate.arguments.map (plan.scope.resolve false) }) ++
        groups.map (Plan.groupItem plan.scope)) name =
      (groups.find? fun column => column.name == name).map (Plan.groupItem plan.scope) := by
    rw [namedItem?_append, namedItem?_eq_none_iff.mpr, Option.none_or, namedItem?_map_groupItem]
    intro item hitem hname
    obtain ⟨aggregate, haggregate, rfl⟩ := List.mem_map.mp hitem
    exact hlabels aggregate haggregate (Option.some.inj hname)
  cases hcolumn : groups.find? fun column => column.name == name with
  | none =>
    simp only [hcolumn] at hgroups
    rw [hcolumn] at houtput
    exact hgroups.denotes? ((Plan.scope_output? _ name).trans houtput) fun _ htable => htable
  | some column =>
    simp only [hcolumn] at hgroups
    obtain ⟨rfl, hequates, haggregate⟩ := hgroups
    rw [hcolumn] at houtput
    refine Plan.denotes?_of_output ((Plan.scope_output? _ name).trans houtput) ?_
    obtain ⟨label, hitem, -⟩ := groupItem_eq plan.scope (.bare name)
    rw [hitem, SelectItem.denotes?, Scope.resolveColumn_eq_of_ne_aggregate haggregate,
      Plan.resolveColumn_of_denotes? hequates hdenotes]

/-- A stage that spares the name leaves what the name denotes. -/
theorem step {stage : Stage} (h : stage.Spares catalog plan name value)
    (hstage : ∀ table, stage ≠ .source table)
    (hdenotes : plan.denotes? catalog (.bare name) = some value)
    (happly : plan.apply (some catalog) stage = .ok after) :
    after.denotes? catalog (.bare name) = some value := by
  cases stage with
  | source table => exact absurd rfl (hstage table)
  | project items => exact h.project hdenotes happly
  | projectAway names => exact h.projectAway hdenotes happly
  | extend assignments => exact h.extend hdenotes happly
  | summarize aggregates groups => exact h.summarize hdenotes happly
  | filter | orderBy | limit | take | top =>
    cases happly
    exact hdenotes
  | join kind table on =>
    have htables := Plan.tables_subset_apply hstage happly
    cases happly
    exact Plan.denotes?_of_output_eq hdenotes rfl htables

end Query.Stage.Spares

/-! ## A run of stages -/

theorem Plan.SparedBy.denotes? {stages : List Stage}
    (h : plan.SparedBy catalog name value stages)
    (hstages : ∀ table, Stage.source table ∉ stages)
    (hdenotes : plan.denotes? catalog (.bare name) = some value)
    (hfold : stages.foldlM (Plan.apply (some catalog)) plan = .ok after) :
    after.denotes? catalog (.bare name) = some value := by
  induction stages generalizing plan with
  | nil =>
    obtain rfl : plan = after := pure_eq_ok_iff.mp hfold
    exact hdenotes
  | cons stage rest ih =>
    rw [List.foldlM_cons, bind_eq_ok_iff] at hfold
    obtain ⟨middle, hfirst, hrest⟩ := hfold
    obtain ⟨hspares, hlater⟩ := h
    have hstage : ∀ table, stage ≠ .source table := by
      rintro table rfl
      exact hstages table List.mem_cons_self
    have hrestStages : ∀ table, Stage.source table ∉ rest :=
      fun table htable => hstages table (List.mem_cons_of_mem _ htable)
    exact ih (hlater middle hfirst) hrestStages (hspares.step hstage hdenotes hfirst) hrest

end Denotes

end PipeSql
