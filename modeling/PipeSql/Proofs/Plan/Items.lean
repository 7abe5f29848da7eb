import PipeSql.Plan.Fold
import PipeSql.Proofs.Query.Stage
import PipeSql.Proofs.Except

/-! # Select items

Looking up an output by its name, and what the stages that look at each row on its own do to the
items and to the rest of a plan. -/

namespace PipeSql

open Query

/-! ## Items -/

/-- The first item of the given output name. -/
def namedItem? (items : List SelectItem) (name : String) : Option SelectItem :=
  items.find? fun item => item.outputName? == some name

/-- The items of a select list, of which the wildcard is one. -/
def SelectList.listed : SelectList → List SelectItem
  | .wildcard => [.everything]
  | .items list => list

theorem outputName?_of_namedItem? {items : List SelectItem} {name : String} {item : SelectItem}
    (h : namedItem? items name = some item) : item.outputName? = some name := by
  simpa using List.find?_some h

theorem mem_of_namedItem? {items : List SelectItem} {name : String} {item : SelectItem}
    (h : namedItem? items name = some item) : item ∈ items :=
  List.mem_of_find?_eq_some h

theorem namedItem?_ne_everything {items : List SelectItem} {name : String} :
    namedItem? items name ≠ some .everything := by
  intro h
  simpa [SelectItem.outputName?] using outputName?_of_namedItem? h

theorem isSome_namedItem?_iff {items : List SelectItem} {name : String} :
    (namedItem? items name).isSome ↔ ∃ item ∈ items, item.outputName? = some name := by
  simp [namedItem?, List.find?_isSome]

theorem namedItem?_eq_none_iff {items : List SelectItem} {name : String} :
    namedItem? items name = none ↔ ∀ item ∈ items, item.outputName? ≠ some name := by
  simp [namedItem?]

theorem namedItem?_cons (first : SelectItem) (rest : List SelectItem) (name : String) :
    namedItem? (first :: rest) name =
      if first.outputName? = some name then some first else namedItem? rest name := by
  by_cases h : first.outputName? = some name <;> simp [namedItem?, h]

theorem namedItem?_append (left right : List SelectItem) (name : String) :
    namedItem? (left ++ right) name = (namedItem? left name).or (namedItem? right name) :=
  List.find?_append

/-- The item is found under its name, and under other names what was found before. -/
theorem namedItem?_overwrite {item : SelectItem} {name : String}
    (hitem : item.outputName? = some name) (items : List SelectItem) (other : String) :
    namedItem? (overwrite name item items) other =
      if other = name then some item else namedItem? items other := by
  induction items with
  | nil =>
    rw [overwrite, namedItem?_cons, hitem]
    by_cases h : other = name
    · simp [h]
    · simp [h, Ne.symm h, namedItem?]
  | cons first rest ih =>
    rw [overwrite]
    split
    · rename_i hfirst
      rw [namedItem?_cons, namedItem?_cons, hitem, hfirst]
      by_cases h : other = name
      · simp [h]
      · simp [h, Ne.symm h]
    · rename_i hfirst
      rw [namedItem?_cons, namedItem?_cons, ih]
      by_cases h : other = name
      · simp [h, hfirst]
      · simp [h]

theorem mem_overwrite {item other : SelectItem} {name : String} {items : List SelectItem}
    (h : other ∈ overwrite name item items) : other = item ∨ other ∈ items := by
  induction items with
  | nil => exact .inl (by simpa [overwrite] using h)
  | cons first rest ih =>
    rw [overwrite] at h
    split at h
    · rcases List.mem_cons.mp h with rfl | h
      · exact .inl rfl
      · exact .inr (List.mem_cons_of_mem first h)
    · rcases List.mem_cons.mp h with rfl | h
      · exact .inr List.mem_cons_self
      · exact (ih h).imp_right (List.mem_cons_of_mem first)

/-- An item of the outputs is listed. The converse fails for the wildcard alone. -/
theorem Plan.mem_listed_of_mem_outputs {plan : Plan} {item : SelectItem} (h : item ∈ plan.outputs) :
    item ∈ plan.select.listed := by
  cases hselect : plan.select with
  | wildcard => simp [outputs, hselect] at h
  | items list => simpa [outputs, hselect, SelectList.listed] using h

theorem Plan.scope_output? (plan : Plan) (name : String) :
    plan.scope.output? name = namedItem? plan.select.listed name := by
  cases hselect : plan.select with
  | wildcard => simp [scope, outputs, hselect, Scope.output?, SelectList.listed, namedItem?,
      SelectItem.outputName?]
  | items list => simp [scope, outputs, hselect, Scope.output?, SelectList.listed, namedItem?]

theorem Scope.resolveColumn_bare (scope : Scope) (inSelect : Bool) (name : String) :
    scope.resolveColumn inSelect (.bare name) =
      match scope.output? name with
      | some (.value expr _) => expr
      | some (.aggregate of) =>
        if inSelect then .aggregate of.function of.arguments else .column (.bare name)
      | some .everything => .column (.bare name)
      | none => .column (scope.qualify (.bare name)) := rfl

/-- The item under a new label. -/
def SelectItem.relabelled (label : String) : SelectItem → SelectItem
  | .everything => .everything
  | .value expr _ => .value expr (some label)
  | .aggregate of => .aggregate { of with label }

/-- An item of `project` is an earlier output under its new name, or else a new one. -/
theorem Scope.project_cases (scope : Scope) (item : Projection) :
    (∃ column earlier, item.value = .column column ∧ column.table = none ∧
      scope.output? column.name = some earlier ∧
      scope.project item = earlier.relabelled (item.label.getD column.name)) ∨
    ((∀ column, item.value = .column column → column.table = none →
        scope.output? column.name = none) ∧
      scope.project item = .value (scope.resolve true item.value) item.label) := by
  obtain ⟨expr, label⟩ := item
  cases expr with
  | column c =>
    by_cases hc : c.table = none
    · cases hitem : scope.output? c.name with
      | none =>
        refine .inr ⟨?_, by simp [Scope.project, hc, hitem]⟩
        rintro column heq -
        cases heq
        exact hitem
      | some earlier =>
        refine .inl ⟨c, earlier, rfl, hc, hitem, ?_⟩
        cases earlier <;> simp [Scope.project, hc, hitem, SelectItem.relabelled]
    · have hsome : c.table.isSome = true := Option.isSome_iff_ne_none.mpr hc
      refine .inr ⟨?_, by simp [Scope.project, hsome]⟩
      intro column heq hnone
      cases heq
      exact absurd hnone hc
  | text | number | bool | binary | call | aggregate =>
    refine .inr ⟨?_, by simp [Scope.project]⟩
    intro column heq
    cases heq

theorem Scope.outputName?_of_output? {scope : Scope} {name : String} {item : SelectItem}
    (h : scope.output? name = some item) : item.outputName? = some name := by
  simpa using List.find?_some h

theorem Scope.name_qualify (scope : Scope) (column : Column) :
    (scope.qualify column).name = column.name := by
  unfold qualify
  cases h : scope.keys.find? fun key => key.name == column.name with
  | none => rfl
  | some key => simpa using List.find?_some h

/-- An item of `project` is listed under its own name, and it is never the wildcard. -/
theorem Scope.outputName?_project (scope : Scope) (item : Projection) :
    scope.project item ≠ .everything ∧ (scope.project item).outputName? = item.name? := by
  obtain ⟨expr, label⟩ := item
  rcases scope.project_cases ⟨expr, label⟩ with
    ⟨column, earlier, hitem, -, hearlier, hproject⟩ | ⟨hnew, hproject⟩
  · obtain rfl : expr = .column column := hitem
    have hname : (Projection.mk (.column column) label).name? =
        some (label.getD column.name) := by
      cases label <;> rfl
    rw [hproject, hname]
    cases earlier with
    | everything =>
      have hnone := outputName?_of_output? hearlier
      simp [SelectItem.outputName?] at hnone
    | value expr old => exact ⟨by simp [SelectItem.relabelled], rfl⟩
    | aggregate of => exact ⟨by simp [SelectItem.relabelled], rfl⟩
  · have hname : (scope.resolve true expr).outputName? = expr.outputName? := by
      cases expr with
      | column c =>
        by_cases hc : c.table = none
        · simp [resolve, Expr.mapColumns, resolveColumn, hc, hnew c rfl hc, Expr.outputName?,
            name_qualify]
        · simp [resolve, Expr.mapColumns, resolveColumn, Option.isSome_iff_ne_none.mpr hc]
      | text | number | bool | binary | call | aggregate =>
        simp [resolve, Expr.mapColumns, Expr.outputName?]
    rw [hproject, Projection.name?, ← hname]
    refine ⟨by simp, ?_⟩
    cases label <;> rfl

theorem groupItem_eq (scope : Scope) (column : Column) :
    ∃ label, Plan.groupItem scope column = .value (scope.resolveColumn false column) label ∧
      (Plan.groupItem scope column).outputName? = some column.name := by
  unfold Plan.groupItem
  cases hexpr : scope.resolveColumn false column with
  | column c =>
    by_cases hname : c.name = column.name
    · exact ⟨none, by simp [hname], by simp [hname, SelectItem.outputName?, Expr.outputName?]⟩
    · exact ⟨some column.name, by simp [hname], by simp [hname, SelectItem.outputName?]⟩
  | text | number | bool | binary | call | aggregate => exact ⟨some column.name, rfl, rfl⟩

/-- What holds of the equality of two columns and passes on to both sides of `and` holds of the
condition that some columns are equal. -/
theorem keysEqual_induction {P : Expr → Prop} {left right : String} {names : List String}
    (yes : P (.bool true)) (key : ∀ name ∈ names, P (keyEquality left right name))
    (both : ∀ {all next}, P all → P next → P (.binary (.connect .and) all next)) :
    P (keysEqual left right names) := by
  cases names with
  | nil => exact yes
  | cons first rest =>
    rw [List.forall_mem_cons] at key
    exact List.foldlRecOn rest _ key.1 fun all hall next hnext => both hall (key.2 next hnext)

/-- What overwriting keeps is kept by assignments. -/
theorem foldl_assign_keeps {P : List SelectItem → Prop} {keys : List Column}
    {items : List SelectItem} (assignments : List Assignment)
    (hstep : ∀ items name expr, P items → P (overwrite name (.value expr (some name)) items))
    (h : P items) : P (assignments.foldl (Plan.assign keys) items) :=
  List.foldlRecOn assignments (Plan.assign keys) h fun items hold assignment _ =>
    hstep items assignment.name _ hold

/-! ## Names behind a stage -/

theorem namedItem?_foldl_assign {name : String} {keys : List Column}
    {assignments : List Assignment} (h : ∀ assignment ∈ assignments, assignment.name ≠ name)
    (items : List SelectItem) :
    namedItem? (assignments.foldl (Plan.assign keys) items) name = namedItem? items name := by
  induction assignments generalizing items with
  | nil => rfl
  | cons assignment rest ih =>
    rw [List.foldl_cons, ih (fun other hother => h other (List.mem_cons_of_mem _ hother))]
    have hne : name ≠ assignment.name := (h assignment List.mem_cons_self).symm
    exact (namedItem?_overwrite rfl items name).trans (if_neg hne)

theorem namedItem?_map_project (scope : Scope) (items : List Projection) (name : String) :
    namedItem? (items.map scope.project) name =
      (items.find? fun item => item.name? == some name).map scope.project := by
  simp only [namedItem?, List.find?_map, Function.comp_def, (scope.outputName?_project _).2]

theorem namedItem?_map_groupItem (scope : Scope) (groups : List Column) (name : String) :
    namedItem? (groups.map (Plan.groupItem scope)) name =
      (groups.find? fun column => column.name == name).map (Plan.groupItem scope) := by
  have hname : ∀ column, (Plan.groupItem scope column).outputName? = some column.name := by
    intro column
    obtain ⟨label, -, houtput⟩ := groupItem_eq scope column
    exact houtput
  simp [namedItem?, List.find?_map, Function.comp_def, hname]

/-! ## What items pass on -/

/-- A select item whose value satisfies `P` or whose aggregate satisfies `A`. -/
inductive SelectItem.Holds (P : Expr → Prop) (A : Aggregate → Prop) : SelectItem → Prop where
  | everything : Holds P A .everything
  | value {expr : Expr} (label) : P expr → Holds P A (.value expr label)
  | aggregate {of : Aggregate} : A of → Holds P A (.aggregate of)

/-- Properties that names pass on: where `S` holds of a written expression, and `P` and `A` of the
items that its names stand for, `P` holds of what the expression stands for. -/
structure Inlines (S P : Expr → Prop) (A : Aggregate → Prop) : Prop where
  column : ∀ c, P (.column c)
  aggregate : ∀ {of : Aggregate}, A of → P (.aggregate of.function of.arguments)
  label : ∀ {of : Aggregate} (label : String), A of → A { of with label }
  mapColumns : ∀ {f : Column → Expr} {expr : Expr}, S expr → (∀ c, P (f c)) →
    P (expr.mapColumns f)

namespace Inlines

variable {S P : Expr → Prop} {A : Aggregate → Prop} {scope : Scope}

theorem resolveColumn (h : Inlines S P A) (hscope : ∀ name item,
    scope.output? name = some item → item.Holds P A) (inSelect : Bool) (column : Column) :
    P (scope.resolveColumn inSelect column) := by
  unfold Scope.resolveColumn
  split
  · exact h.column column
  · cases hitem : scope.output? column.name with
    | none => exact h.column _
    | some item =>
      cases hscope _ item hitem with
      | everything => exact h.column column
      | value label hexpr => exact hexpr
      | aggregate hof =>
        cases inSelect
        · exact h.column column
        · exact h.aggregate hof

theorem resolve (h : Inlines S P A) (hscope : ∀ name item,
    scope.output? name = some item → item.Holds P A) (inSelect : Bool) {expr : Expr}
    (hexpr : S expr) : P (scope.resolve inSelect expr) :=
  h.mapColumns hexpr (h.resolveColumn hscope inSelect)

theorem project (h : Inlines S P A) (hscope : ∀ name item,
    scope.output? name = some item → item.Holds P A) {item : Projection} (hitem : S item.value) :
    (scope.project item).Holds P A := by
  rcases scope.project_cases item with ⟨column, earlier, -, -, hearlier, hproject⟩ | ⟨-, hproject⟩
  · rw [hproject]
    cases hscope _ earlier hearlier with
    | everything => exact .everything
    | value label hexpr => exact .value _ hexpr
    | aggregate hof => exact .aggregate (h.label _ hof)
  · rw [hproject]
    exact .value _ (h.resolve hscope true hitem)

theorem groupItem (h : Inlines S P A) (hscope : ∀ name item,
    scope.output? name = some item → item.Holds P A) (column : Column) :
    (Plan.groupItem scope column).Holds P A := by
  obtain ⟨label, hitem, -⟩ := groupItem_eq scope column
  rw [hitem]
  exact .value label (h.resolveColumn hscope false column)

theorem assignments (h : Inlines S P A) {keys : List Column} {items : List SelectItem}
    {assignments : List Assignment} (hitems : ∀ item ∈ items, item.Holds P A)
    (hvalues : ∀ assignment ∈ assignments, S assignment.value) :
    ∀ item ∈ assignments.foldl (Plan.assign keys) items, item.Holds P A := by
  refine List.foldlRecOn (motive := fun items => ∀ item ∈ items, item.Holds P A) assignments
    (Plan.assign keys) hitems fun items hold assignment hassignment item hitem => ?_
  rcases mem_overwrite hitem with rfl | hitem
  · refine .value _ (h.resolve (fun name item hfound => ?_) true (hvalues assignment hassignment))
    exact hold item (mem_of_namedItem? hfound)
  · exact hold item hitem

end Inlines

/-! ## Items that no aggregate computes -/

/-- A select item that no aggregate computes, of an expression that satisfies `P`. -/
inductive SelectItem.RowItem (P : Expr → Prop) : SelectItem → Prop where
  | everything : RowItem P .everything
  | value {expr : Expr} (label) : P expr → RowItem P (.value expr label)

theorem SelectItem.rowItem_iff {P : Expr → Prop} {item : SelectItem} :
    item.RowItem P ↔ item.Holds P fun _ => False := by
  constructor
  · rintro (_ | ⟨label, hexpr⟩)
    · exact .everything
    · exact .value label hexpr
  · rintro (_ | ⟨label, hexpr⟩ | ⟨⟨⟩⟩)
    · exact .everything
    · exact .value label hexpr

theorem SelectItem.RowItem.imp {P Q : Expr → Prop} (h : ∀ expr, P expr → Q expr)
    {item : SelectItem} (hitem : item.RowItem P) : item.RowItem Q := by
  cases hitem with
  | everything => exact .everything
  | value label hexpr => exact .value label (h _ hexpr)

/-- A property of expressions that columns have, and that replacing columns keeps. -/
structure Inlinable (P : Expr → Prop) : Prop where
  column : ∀ c, P (.column c)
  mapColumns : ∀ {f : Column → Expr} {expr : Expr}, P expr → (∀ c, P (f c)) → P (expr.mapColumns f)

theorem inlinable_true : Inlinable fun _ => True :=
  ⟨fun _ => trivial, fun _ _ => trivial⟩

theorem inlinable_scalar : Inlinable Expr.Scalar :=
  ⟨.column, Expr.Scalar.mapColumns⟩

section RowItems

variable {P : Expr → Prop} {scope : Scope}

theorem Inlinable.inlines (hP : Inlinable P) : Inlines P P fun _ => False :=
  ⟨hP.column, False.elim, fun _ => False.elim, hP.mapColumns⟩

theorem Inlinable.resolveColumn (hP : Inlinable P) (hscope : ∀ name item,
    scope.output? name = some item → item.RowItem P) (inSelect : Bool) (column : Column) :
    P (scope.resolveColumn inSelect column) :=
  hP.inlines.resolveColumn (fun name item h => SelectItem.rowItem_iff.mp (hscope name item h))
    inSelect column

end RowItems

/-! ## Stages that look at each row on its own -/

namespace Plan

variable {catalog? : Option Catalog} {plan after : Plan} {stage : Stage} {stages : List Stage}

theorem apply_extend (assignments : List Assignment) :
    plan.apply catalog? (.extend assignments) =
      .ok { plan with
        select := .items (assignments.foldl (assign plan.scope.keys) plan.select.listed) } := by
  cases hselect : plan.select <;> simp [apply, hselect, SelectList.listed]

theorem exists_apply_rowWise (h : stage.RowWise) (plan : Plan) :
    ∃ after, plan.apply catalog? stage = .ok after := by
  rcases h with condition | ⟨items | assignments⟩
  · exact ⟨_, rfl⟩
  · exact ⟨_, rfl⟩
  · exact ⟨_, apply_extend assignments⟩

/-- What such a stage leaves of a plan as it is. -/
theorem joins_apply_rowWise (hstage : stage.RowWise)
    (h : plan.apply catalog? stage = .ok after) :
    after.joins = plan.joins ∧ after.groups = plan.groups ∧
      ∃ added, after.filters = plan.filters ++ added := by
  rcases hstage with condition | ⟨items | assignments⟩
  · cases h
    exact ⟨rfl, rfl, _, rfl⟩
  · cases h
    exact ⟨rfl, rfl, [], by simp⟩
  · rw [apply_extend] at h
    cases h
    exact ⟨rfl, rfl, [], by simp⟩

theorem filters_fold_rowWise (hstages : ∀ stage ∈ stages, stage.RowWise)
    (h : stages.foldlM (apply catalog?) plan = .ok after) :
    ∃ added, after.filters = plan.filters ++ added := by
  refine foldlM_keeps (P := fun result => ∃ added, result.filters = plan.filters ++ added)
    ?_ ⟨[], by simp⟩ h
  rintro stage hstage before result ⟨added, hadded⟩ happly
  obtain ⟨-, -, more, hmore⟩ := joins_apply_rowWise (hstages stage hstage) happly
  exact ⟨added ++ more, by rw [hmore, hadded, List.append_assoc]⟩

theorem joins_fold_rowWise (hstages : ∀ stage ∈ stages, stage.RowWise)
    (h : stages.foldlM (apply catalog?) plan = .ok after) :
    after.joins = plan.joins ∧ after.groups = plan.groups := by
  refine foldlM_keeps (P := fun result => result.joins = plan.joins ∧ result.groups = plan.groups)
    ?_ ⟨rfl, rfl⟩ h
  rintro stage hstage before result ⟨hjoins, hgroups⟩ happly
  obtain ⟨hjoins', hgroups', -⟩ := joins_apply_rowWise (hstages stage hstage) happly
  exact ⟨hjoins'.trans hjoins, hgroups'.trans hgroups⟩

theorem filters_apply_shaping (hstage : stage.Shaping)
    (h : plan.apply catalog? stage = .ok after) : after.filters = plan.filters := by
  rcases hstage with items | assignments
  · cases h
    rfl
  · rw [apply_extend] at h
    cases h
    rfl

theorem filters_fold_shaping (hstages : ∀ stage ∈ stages, stage.Shaping)
    (h : stages.foldlM (apply catalog?) plan = .ok after) : after.filters = plan.filters := by
  refine foldlM_keeps (P := fun result => result.filters = plan.filters) ?_ rfl h
  intro stage hstage before result hfilters happly
  exact (filters_apply_shaping (hstages stage hstage) happly).trans hfilters

theorem output?_of_listed {Q : SelectItem → Prop} (h : ∀ item ∈ plan.select.listed, Q item) :
    ∀ name item, plan.scope.output? name = some item → Q item := by
  intro name item hitem
  rw [scope_output?] at hitem
  exact h item (mem_of_namedItem? hitem)

theorem holds_apply_shaping {S P : Expr → Prop} {A : Aggregate → Prop} (hP : Inlines S P A)
    (hstage : stage.Shaping) (hexprs : ∀ expr ∈ stage.expressions, S expr)
    (hitems : ∀ item ∈ plan.select.listed, item.Holds P A)
    (h : plan.apply catalog? stage = .ok after) :
    ∀ item ∈ after.select.listed, item.Holds P A := by
  rcases hstage with items | assignments
  · cases h
    intro item hitem
    obtain ⟨projection, hprojection, rfl⟩ := List.mem_map.mp hitem
    exact hP.project (output?_of_listed hitems) (hexprs _ (List.mem_map_of_mem hprojection))
  · rw [apply_extend] at h
    cases h
    exact hP.assignments hitems fun assignment hassignment =>
      hexprs _ (List.mem_map_of_mem hassignment)

theorem rowItem_apply_rowWise {P : Expr → Prop} (hP : Inlinable P) (hstage : stage.RowWise)
    (hexprs : ∀ expr ∈ stage.expressions, P expr)
    (hitems : ∀ item ∈ plan.select.listed, item.RowItem P)
    (h : plan.apply catalog? stage = .ok after) :
    ∀ item ∈ after.select.listed, item.RowItem P := by
  simp only [SelectItem.rowItem_iff] at hitems ⊢
  cases hstage with
  | filter condition =>
    cases h
    exact hitems
  | shaping hshaping => exact holds_apply_shaping hP.inlines hshaping hexprs hitems h

theorem rowItem_fold_rowWise {P : Expr → Prop} (hP : Inlinable P)
    (hstages : ∀ stage ∈ stages, stage.RowWise)
    (hexprs : ∀ stage ∈ stages, ∀ expr ∈ stage.expressions, P expr)
    (hitems : ∀ item ∈ plan.select.listed, item.RowItem P)
    (h : stages.foldlM (apply catalog?) plan = .ok after) :
    ∀ item ∈ after.select.listed, item.RowItem P := by
  refine foldlM_keeps (P := fun result => ∀ item ∈ result.select.listed, item.RowItem P)
    ?_ hitems h
  intro stage hstage before result hbefore happly
  exact rowItem_apply_rowWise hP (hstages stage hstage) (hexprs stage hstage) hbefore happly

theorem exists_fold_rowWise (hstages : ∀ stage ∈ stages, stage.RowWise) (plan : Plan) :
    ∃ after, stages.foldlM (apply catalog?) plan = .ok after :=
  exists_foldlM_eq_ok plan fun stage hstage => exists_apply_rowWise (hstages stage hstage)

theorem ofStages_source {table : String} (h : ∀ other, Stage.source other ∉ stages) :
    ofStages catalog? (.source table :: stages) =
      stages.foldlM (apply catalog?) (ofTable table) := by
  have hextra : extraSource? stages = none := by
    refine List.findSome?_eq_none_iff.mpr fun stage hstage => ?_
    cases stage with
    | source other => exact absurd hstage (h other)
    | filter | project | projectAway | extend | summarize | orderBy | limit | take | join | top =>
      rfl
  simp only [ofStages, hextra]

end Plan

end PipeSql
