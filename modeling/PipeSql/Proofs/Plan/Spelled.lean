import PipeSql.Compile
import PipeSql.Proofs.Plan.Pipeline
import PipeSql.Proofs.Plan.Removal
import PipeSql.Proofs.Query.Stage.Parsed

/-! # Spelled plans

Folding the stages of a query into a plan makes no numbers and no functions, so that all of them
are spelled as in the query. -/

namespace PipeSql

open Query

theorem Query.Expr.Spelled.mapColumns {f : Column → Expr} {e : Expr} (he : e.Spelled)
    (hf : ∀ c, (f c).Spelled) : (e.mapColumns f).Spelled := by
  induction he with
  | column c => exact hf c
  | text value => exact .text value
  | number hdigits => exact .number hdigits
  | negative hdigits => exact .negative hdigits
  | bool value => exact .bool value
  | binary op _ _ hleft hright => exact .binary op hleft hright
  | call hfunction _ ih =>
    rw [Expr.mapColumns_call]
    refine .call hfunction fun e he => ?_
    obtain ⟨argument, hargument, rfl⟩ := List.mem_map.mp he
    exact ih argument hargument
  | aggregate hfunction _ ih =>
    rw [Expr.mapColumns_aggregate]
    refine .aggregate hfunction fun e he => ?_
    obtain ⟨argument, hargument, rfl⟩ := List.mem_map.mp he
    exact ih argument hargument

/-- The numbers and functions of a select item are spelled as in a query. -/
inductive SelectItem.Spelled : SelectItem → Prop where
  | everything : Spelled .everything
  | value {expr} (label) : expr.Spelled → Spelled (.value expr label)
  | aggregate (label) {function arguments} : Spells (.ident function) function →
      (∀ e ∈ arguments, e.Spelled) → Spelled (.aggregate ⟨label, function, arguments⟩)

/-- The function of the aggregate and its arguments are spelled as in a query. -/
def Query.Aggregate.Spelled (of : Aggregate) : Prop :=
  Spells (.ident of.function) of.function ∧ ∀ e ∈ of.arguments, e.Spelled

theorem SelectItem.spelled_iff {item : SelectItem} :
    item.Spelled ↔ item.Holds Expr.Spelled Aggregate.Spelled := by
  constructor
  · rintro (_ | ⟨label, hexpr⟩ | ⟨label, hfunction, harguments⟩)
    · exact .everything
    · exact .value label hexpr
    · exact .aggregate ⟨hfunction, harguments⟩
  · rintro (_ | ⟨label, hexpr⟩ | ⟨hfunction, harguments⟩)
    · exact .everything
    · exact .value label hexpr
    · exact .aggregate _ hfunction harguments

theorem inlines_spelled : Inlines Expr.Spelled Expr.Spelled Aggregate.Spelled :=
  ⟨.column, fun h => .aggregate h.1 h.2, fun _ h => h, Expr.Spelled.mapColumns⟩

/-- The numbers and functions of a plan are spelled as in a query. -/
structure Plan.Spelled (plan : Plan) : Prop where
  outputs : ∀ item ∈ plan.outputs, item.Spelled
  joins : ∀ join ∈ plan.joins, join.on.Spelled
  filters : ∀ e ∈ plan.filters, e.Spelled
  groups : ∀ e ∈ plan.groups, e.Spelled

/-! ## Joins -/

theorem spelled_keysEqual (left right : String) (names : List String) :
    (keysEqual left right names).Spelled :=
  keysEqual_induction (.bool true) (fun _ _ => .binary _ (.column _) (.column _)) (.binary _)

/-! ## Stages -/

namespace Plan

variable {catalog? : Option Catalog} {plan after : Plan}

theorem spelled_listed (h : plan.Spelled) :
    ∀ item ∈ plan.select.listed, item.Holds Expr.Spelled Aggregate.Spelled := by
  have houtputs := h.outputs
  unfold outputs at houtputs
  cases hselect : plan.select with
  | wildcard =>
    intro item hitem
    obtain rfl := List.mem_singleton.mp hitem
    exact .everything
  | items list =>
    rw [hselect] at houtputs
    exact fun item hitem => SelectItem.spelled_iff.mp (houtputs item hitem)

theorem spelled_apply {stage : Stage} (h : plan.Spelled) (hstage : ∀ e ∈ stage.parsed, e.Spelled)
    (hafter : plan.apply catalog? stage = .ok after) : after.Spelled := by
  have hscope := output?_of_listed (spelled_listed h)
  have houtputs : ∀ item ∈ after.outputs, item.Spelled := by
    intro item hitem
    refine SelectItem.spelled_iff.mpr
      (holds_apply inlines_spelled ?_ ?_ (spelled_listed h) hafter item
        (mem_listed_of_mem_outputs hitem))
    · rintro (items | assignments) <;> exact hstage
    · rintro aggregates groups rfl aggregate haggregate
      cases hstage _ (List.mem_map_of_mem haggregate) with
      | call hfunction harguments =>
        refine ⟨hfunction, fun e he => ?_⟩
        obtain ⟨argument, hargument, rfl⟩ := List.mem_map.mp he
        exact inlines_spelled.resolve hscope false (harguments argument hargument)
  cases stage with
  | filter condition =>
    cases hafter
    refine { h with filters := fun e he => ?_ }
    rcases List.mem_append.mp he with he | he
    · exact h.filters e he
    · obtain rfl := List.mem_singleton.mp he
      exact inlines_spelled.resolve hscope false (hstage condition (List.mem_singleton.mpr rfl))
  | summarize aggregates groups =>
    cases hafter
    refine { h with outputs := houtputs, groups := fun e he => ?_ }
    obtain ⟨column, -, rfl⟩ := List.mem_map.mp he
    exact inlines_spelled.resolveColumn hscope false column
  | projectAway names =>
    obtain ⟨select, rfl⟩ := eq_of_removeNames hafter
    exact { h with outputs := houtputs }
  | extend assignments =>
    rw [apply_extend] at hafter
    cases hafter
    exact { h with outputs := houtputs }
  | join kind table on =>
    have hjoins := joins_apply spelled_keysEqual
      (fun _ _ _ he => Expr.Spelled.mapColumns he fun _ => .column _) hstage h.joins hafter
    cases hafter
    exact { h with joins := hjoins }
  | source | project | orderBy | limit | take | top =>
    cases hafter
    exact { h with outputs := houtputs }

theorem spelled_ofStages {stages : List Stage}
    (hstages : ∀ stage ∈ stages, ∀ e ∈ stage.parsed, e.Spelled)
    (h : ofStages catalog? stages = .ok plan) : plan.Spelled := by
  obtain ⟨table, rest, rfl, -, hfold⟩ := ofStages_eq_ok.mp h
  have hempty : (ofTable table).Spelled :=
    ⟨by simp [ofTable, outputs], by simp [ofTable], by simp [ofTable], by simp [ofTable]⟩
  refine foldlM_keeps (P := Spelled) (fun stage hstage before after hbefore hafter => ?_) hempty
    hfold
  exact spelled_apply hbefore (hstages stage (List.mem_cons_of_mem _ hstage)) hafter

end Plan

theorem Plan.spelled_capped {plan : Plan} (h : plan.Spelled) (n : Nat) :
    (plan.capped n).Spelled := by
  unfold capped
  split
  · exact { h with }
  · exact h

/-- The plan of a query is that of its stages, with the limit of the options or without. -/
theorem planOf_eq_ok {options : CompileOptions} {stages : List Stage} {plan : Plan}
    (h : planOf options stages = .ok plan) :
    ∃ plan', Plan.ofStages options.catalog? stages = .ok plan' ∧
      (match options.rowLimit? with
        | some n => plan'.capped n
        | none => plan') = plan := by
  unfold planOf at h
  cases hcatalog : options.catalog? with
  | none =>
    simp only [hcatalog] at h
    obtain ⟨plan', hplan, h⟩ := bind_eq_ok_iff.mp h
    exact ⟨plan', hplan, pure_eq_ok_iff.mp h⟩
  | some catalog =>
    simp only [hcatalog] at h
    obtain ⟨-, h⟩ := check_bind_eq_ok_iff.mp h
    obtain ⟨plan', hplan, h⟩ := bind_eq_ok_iff.mp h
    exact ⟨plan', hplan, pure_eq_ok_iff.mp h⟩

theorem spelled_planOf {options : CompileOptions} {stages : List Stage} {plan : Plan}
    (hstages : ∀ stage ∈ stages, ∀ e ∈ stage.parsed, e.Spelled)
    (h : planOf options stages = .ok plan) : plan.Spelled := by
  obtain ⟨plan', hplan, rfl⟩ := planOf_eq_ok h
  have hspelled := Plan.spelled_ofStages hstages hplan
  split
  · exact Plan.spelled_capped hspelled _
  · exact hspelled

/-- Whatever a text asks for, its plan is spelled as the text. -/
theorem spelled_of_ofText {options : CompileOptions} {text : String} {plan : Plan}
    (h : Request.ofText options text = .ok (.plan plan)) : plan.Spelled := by
  obtain ⟨pieces, -, h⟩ := bind_eq_ok_iff.mp h
  cases pieces with
  | sql query => cases h
  | stages texts =>
    obtain ⟨stages, hstages, h⟩ := bind_eq_ok_iff.mp h
    obtain ⟨plan', hplan, h⟩ := bind_eq_ok_iff.mp h
    cases h
    exact spelled_planOf (spelled_of_parsePipeline hstages) hplan

end PipeSql
