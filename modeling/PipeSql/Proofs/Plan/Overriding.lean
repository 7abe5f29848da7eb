import PipeSql.Proofs.Plan.Sorting
import PipeSql.Sql.Select

/-! # Stages that later ones override

Sort keys and row counts are read by no other stage: each one that is folded replaces the one before
it. Main statement: a pipeline has the plan of its last ordering and its last row count alone, among
the stages that do something else. -/

namespace PipeSql

open Query

/-! ## Sort keys and row counts of a plan -/

/-- The number of rows that a stage limits a query to. -/
def Query.Stage.rowCount? : Stage → Option Nat
  | .limit count | .take count | .top count _ => some count
  | _ => none

/-- The last row count among those that stages give. -/
def Query.lastRowCount? (stages : List Stage) : Option Nat :=
  (stages.filterMap Stage.rowCount?).getLast?

theorem Query.lastRowCount?_cons (stage : Stage) (rest : List Stage) :
    lastRowCount? (stage :: rest) = (lastRowCount? rest).or stage.rowCount? := by
  unfold lastRowCount?
  cases hcount : stage.rowCount? with
  | none => rw [List.filterMap_cons_none hcount, Option.or_none]
  | some count =>
    rw [List.filterMap_cons_some hcount, List.getLast?_cons]
    cases (rest.filterMap Stage.rowCount?).getLast? <;> rfl

/-- The plan with other sort keys and another limit. -/
def Plan.ranked (plan : Plan) (order : List SortKey) (limit : Option Nat) : Plan :=
  { plan with order, limit }

/-- The sort keys behind a stage in front of which `order` are the sort keys. -/
def Plan.orderBehind (plan : Plan) (stage : Stage) (order : List SortKey) : List SortKey :=
  match stage.sortKeys? with
  | some keys => keys.map fun key => { key with column := plan.scope.resolveKey key.column }
  | none => order

variable {catalog? : Option Catalog} {stage : Stage} {stages rest : List Stage} {table : String}
  {plan after : Plan}

namespace Plan

@[simp]
theorem ranked_self (plan : Plan) : plan.ranked plan.order plan.limit = plan := rfl

theorem removeNames_ranked (plan : Plan) (names : List String) (order : List SortKey)
    (limit : Option Nat) :
    (plan.ranked order limit).removeNames catalog? names =
      (plan.removeNames catalog? names).map (ranked · order limit) := by
  have hitems : (plan.ranked order limit).removable? catalog? = plan.removable? catalog? := rfl
  unfold removeNames
  rw [hitems]
  cases plan.removable? catalog? with
  | none => rfl
  | some items =>
    simp only
    split <;> rfl

/-- What a stage does to a plan depends on no sort keys and no limit. -/
theorem apply_ranked (plan : Plan) (stage : Stage) (order : List SortKey) (limit : Option Nat) :
    (plan.ranked order limit).apply catalog? stage =
      (plan.apply catalog? stage).map
        (ranked · (plan.orderBehind stage order) (stage.rowCount?.or limit)) := by
  cases stage with
  | projectAway names => exact removeNames_ranked plan names order limit
  | extend assignments =>
    rw [apply_extend, apply_extend]
    rfl
  | source | filter | project | summarize | orderBy | limit | take | join | top => rfl

theorem limit_apply (h : plan.apply catalog? stage = .ok after) :
    after.limit = stage.rowCount?.or plan.limit := by
  have hranked : (plan.ranked plan.order plan.limit).apply catalog? stage = _ :=
    apply_ranked plan stage plan.order plan.limit
  rw [ranked_self, h] at hranked
  exact congrArg Plan.limit (Except.ok.inj hranked)

/-- Of all row counts that a pipeline gives, the last one is the limit of its plan. -/
theorem limit_foldlM (h : stages.foldlM (apply catalog?) plan = .ok after) :
    after.limit = (lastRowCount? stages).or plan.limit := by
  induction stages generalizing plan with
  | nil =>
    obtain rfl : plan = after := pure_eq_ok_iff.mp h
    rfl
  | cons stage rest ih =>
    obtain ⟨next, hnext, hrest⟩ := bind_eq_ok_iff.mp h
    rw [ih hrest, limit_apply hnext, lastRowCount?_cons, Option.or_assoc]

theorem limit_ofStages (h : ofStages catalog? stages = .ok plan) :
    plan.limit = lastRowCount? stages := by
  obtain ⟨table, rest, rfl, -, hfold⟩ := ofStages_eq_ok.mp h
  rw [limit_foldlM hfold, lastRowCount?_cons]
  rfl

end Plan

/-! ## Stages that no later one overrides -/

namespace Query

/-- The stage limits the number of rows and does nothing else. -/
def Stage.limits : Stage → Bool
  | .limit _ | .take _ => true
  | _ => false

/-- The stage gives sort keys and does nothing else. -/
def Stage.orders : Stage → Bool
  | .orderBy _ => true
  | _ => false

/-- `top` is an ordering in front of a limit. -/
def Stage.parts : Stage → List Stage
  | .top count key => [.orderBy [key], .limit count]
  | stage => [stage]

/-- The stages without those limits behind which there is another limit, and without those
orderings behind which there is another ordering. -/
def lasting : List Stage → List Stage
  | [] => []
  | stage :: rest =>
    if stage.limits && rest.any Stage.limits || stage.orders && rest.any Stage.orders then
      lasting rest
    else stage :: lasting rest

/-- The stages with one ordering and one limit at most. -/
def normalized (stages : List Stage) : List Stage :=
  lasting (stages.flatMap Stage.parts)

theorem lasting_sublist (stages : List Stage) : (lasting stages).Sublist stages := by
  induction stages with
  | nil => exact .slnil
  | cons stage rest ih =>
    rw [lasting]
    split
    · exact ih.cons stage
    · exact ih.cons_cons stage

/-- A kind of stages that are left out in front of others of the kind occurs once at most. -/
theorem countP_lasting_le_one {p : Stage → Bool}
    (h : ∀ stage (rest : List Stage), p stage → rest.any p →
      stage.limits && rest.any Stage.limits || stage.orders && rest.any Stage.orders)
    (stages : List Stage) : (lasting stages).countP p ≤ 1 := by
  induction stages with
  | nil => exact Nat.zero_le 1
  | cons stage rest ih =>
    rw [lasting]
    split
    · exact ih
    · rename_i hkept
      rw [List.countP_cons]
      by_cases hstage : p stage
      · have hnone : rest.countP p = 0 := by
          refine List.countP_eq_zero.mpr fun other hother hp => hkept (h stage rest hstage ?_)
          exact List.any_eq_true.mpr ⟨other, hother, hp⟩
        have hle := (lasting_sublist rest).countP_le (p := p)
        simp only [hstage, if_true]
        omega
      · simpa [hstage] using ih

theorem top_not_mem_normalized (stages : List Stage) (count : Nat) (key : SortKey) :
    .top count key ∉ normalized stages := by
  intro hmem
  obtain ⟨stage, -, hstage⟩ := List.mem_flatMap.mp ((lasting_sublist _).subset hmem)
  cases stage <;> simp [Stage.parts] at hstage

end Query

/-! ## Plans of such stages -/

theorem Plan.foldlM_parts (plan : Plan) (stages : List Stage) :
    (stages.flatMap Stage.parts).foldlM (apply catalog?) plan =
      stages.foldlM (apply catalog?) plan := by
  induction stages generalizing plan with
  | nil => rfl
  | cons stage rest ih =>
    have hparts : stage.parts.foldlM (apply catalog?) plan = plan.apply catalog? stage := by
      cases stage with
      | top => rfl
      | source | filter | project | projectAway | extend | summarize | orderBy | limit | take
      | join => exact bind_pure _
    rw [List.flatMap_cons, List.foldlM_append, hparts, List.foldlM_cons]
    exact bind_congr fun next => ih next

theorem Plan.apply_ranked_eq_ok (h : stage.limits || stage.orders) (plan : Plan)
    (order : List SortKey) (limit : Option Nat) :
    (plan.ranked order limit).apply catalog? stage =
      .ok (plan.ranked (plan.orderBehind stage order) (stage.rowCount?.or limit)) := by
  cases stage with
  | limit | take | orderBy => rfl
  | source | filter | project | projectAway | extend | summarize | join | top => cases h

theorem Plan.orderBehind_congr {order order' : List SortKey} (plan : Plan)
    (h : stage.orders = false → order = order') :
    plan.orderBehind stage order = plan.orderBehind stage order' := by
  cases stage with
  | orderBy | top => rfl
  | source | filter | project | projectAway | extend | summarize | limit | take | join =>
    exact h rfl

theorem rowCount?_or_congr {limit limit' : Option Nat}
    (h : stage.limits = false → limit = limit') :
    stage.rowCount?.or limit = stage.rowCount?.or limit' := by
  cases stage with
  | limit | take | top => rfl
  | source | filter | project | projectAway | extend | summarize | orderBy | join => exact h rfl

/-- The sort keys and the limit in front of stages that replace them are of no account. -/
theorem Plan.foldlM_lasting (plan : Plan) {order order' : List SortKey} {limit limit' : Option Nat}
    (horder : (∀ stage ∈ stages, stage.orders = false) → order = order')
    (hlimit : (∀ stage ∈ stages, stage.limits = false) → limit = limit') :
    (lasting stages).foldlM (apply catalog?) (plan.ranked order limit) =
      stages.foldlM (apply catalog?) (plan.ranked order' limit') := by
  induction stages generalizing plan order order' limit limit' with
  | nil => rw [horder nofun, hlimit nofun, lasting]
  | cons stage rest ih =>
    -- behind the stage only what it does not replace has to be the same
    have horder' (hrest : ∀ other ∈ rest, other.orders = false) :
        plan.orderBehind stage order = plan.orderBehind stage order' :=
      plan.orderBehind_congr fun hstage => horder (List.forall_mem_cons.mpr ⟨hstage, hrest⟩)
    have hlimit' (hrest : ∀ other ∈ rest, other.limits = false) :
        stage.rowCount?.or limit = stage.rowCount?.or limit' :=
      rowCount?_or_congr fun hstage => hlimit (List.forall_mem_cons.mpr ⟨hstage, hrest⟩)
    rw [lasting, List.foldlM_cons]
    split
    · rename_i hoverridden
      simp only [Bool.or_eq_true, Bool.and_eq_true, List.any_eq_true] at hoverridden
      rw [apply_ranked_eq_ok (by simpa using hoverridden.imp And.left And.left)]
      rcases hoverridden with ⟨hstage, later, hlater, hlimits⟩ | ⟨hstage, later, hlater, horders⟩
      · refine ih plan (fun hrest => ?_) fun hrest => ?_
        · cases stage with
          | limit | take => exact horder (List.forall_mem_cons.mpr ⟨rfl, hrest⟩)
          | source | filter | project | projectAway | extend | summarize | orderBy | join | top =>
            cases hstage
        · exact absurd hlimits (by simp [hrest later hlater])
      · refine ih plan (fun hrest => ?_) fun hrest => ?_
        · exact absurd horders (by simp [hrest later hlater])
        · cases stage with
          | orderBy => exact hlimit (List.forall_mem_cons.mpr ⟨rfl, hrest⟩)
          | source | filter | project | projectAway | extend | summarize | limit | take | join
          | top => cases hstage
    · rw [List.foldlM_cons, apply_ranked, apply_ranked]
      cases plan.apply catalog? stage with
      | error error => rfl
      | ok next => exact ih next horder' hlimit'

theorem Plan.extraSource?_parts (stages : List Stage) :
    extraSource? (stages.flatMap Stage.parts) = extraSource? stages := by
  induction stages with
  | nil => rfl
  | cons stage rest ih =>
    unfold extraSource? at ih ⊢
    cases stage with
    | source => rfl
    | filter | project | projectAway | extend | summarize | orderBy | limit | take | join | top =>
      simpa [Stage.parts] using ih

theorem Plan.extraSource?_lasting (stages : List Stage) :
    extraSource? (lasting stages) = extraSource? stages := by
  induction stages with
  | nil => rfl
  | cons stage rest ih =>
    unfold extraSource? at ih ⊢
    rw [lasting]
    cases stage with
    | source => rfl
    | filter | project | projectAway | extend | summarize | join | top =>
      simpa [Stage.limits, Stage.orders] using ih
    | limit | take | orderBy =>
      split <;> simpa using ih

/-! ## Pipelines -/

/-- A pipeline with `top` taken apart, without the limits and orderings that a later one overrides,
has the plan or the error of the whole pipeline, and hence its SQL. What is left of it gives sort
keys at most once and a limit at most once. -/
theorem ofStages_normalized (catalog? : Option Catalog) (table : String) (rest : List Stage) :
    Plan.ofStages catalog? (normalized (.source table :: rest)) =
        Plan.ofStages catalog? (.source table :: rest) ∧
      (∀ dialect, Plan.ofStages catalog? (normalized (.source table :: rest)) >>=
          Sql.select dialect =
        Plan.ofStages catalog? (.source table :: rest) >>= Sql.select dialect) ∧
      (normalized (.source table :: rest)).countP Stage.limits ≤ 1 ∧
      (normalized (.source table :: rest)).countP Stage.orders ≤ 1 ∧
      ∀ count key, .top count key ∉ normalized (.source table :: rest) := by
  have hplan : Plan.ofStages catalog? (normalized (.source table :: rest)) =
      Plan.ofStages catalog? (.source table :: rest) := by
    have hsource : normalized (.source table :: rest) = .source table :: normalized rest := rfl
    have hextra : Plan.extraSource? (normalized rest) = Plan.extraSource? rest :=
      (Plan.extraSource?_lasting _).trans (Plan.extraSource?_parts rest)
    have hfold : (normalized rest).foldlM (Plan.apply catalog?) (.ofTable table) =
        rest.foldlM (Plan.apply catalog?) (.ofTable table) :=
      (Plan.foldlM_lasting (.ofTable table) (fun _ => rfl) fun _ => rfl).trans
        (Plan.foldlM_parts (.ofTable table) rest)
    rw [hsource, Plan.ofStages, Plan.ofStages, hextra, hfold]
  refine ⟨hplan, fun dialect => by rw [hplan], ?_, ?_, top_not_mem_normalized _⟩
  · exact countP_lasting_le_one (fun _ _ hstage hrest => by simp [hstage, hrest]) _
  · exact countP_lasting_le_one (fun _ _ hstage hrest => by simp [hstage, hrest]) _

/-- Of two orderings and two limits around a projection, those in `top` are left. -/
example (first second : SortKey) (items : List Projection) :
    normalized [.source "people", .orderBy [first], .limit 9, .project items, .top 3 second] =
      [.source "people", .project items, .orderBy [second], .limit 3] := rfl

end PipeSql
