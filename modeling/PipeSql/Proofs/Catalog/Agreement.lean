import PipeSql.Compile
import PipeSql.Proofs.Catalog.Reach
import PipeSql.Proofs.Plan.Removal
import PipeSql.Proofs.Plan.Shared
import Mathlib

/-! # Catalogs that agree on the tables of a query

Of a catalog, a pipeline asks only for the columns of the tables that it names. Main statement:
catalogs that agree on these tables give the same SQL or the same error, and without `project-away`
a catalog gives the SQL that no catalog gives, unless it refuses a name. -/

namespace PipeSql

open Query

/-- Two catalogs know the same columns of each of these tables, or neither knows any. -/
def Catalog.AgreeOn (tables : List String) (first second : Catalog) : Prop :=
  ∀ table ∈ tables, first.columns? table = second.columns? table

instance (tables : List String) (first second : Catalog) :
    Decidable (Catalog.AgreeOn tables first second) :=
  inferInstanceAs (Decidable (∀ table ∈ tables, _))

variable {tables : List String} {first second : Catalog} {stage : Stage} {stages : List Stage}

/-! ## Checks of names

All tables that are looked up are in reach, or become so with the stage. -/

namespace Reach

variable {reach next : Reach}

theorem checkColumn_congr (h : Catalog.AgreeOn tables first second) (hreach : reach.tables ⊆ tables)
    (column : Column) : reach.checkColumn first column = reach.checkColumn second column := by
  unfold checkColumn
  cases column.table with
  | none => rfl
  | some table =>
    by_cases htable : table ∈ reach.tables
    · simp only [h table (hreach htable)]
    · simp [htable]

theorem checkExpr_congr (h : Catalog.AgreeOn tables first second) (hreach : reach.tables ⊆ tables)
    (expr : Expr) : reach.checkExpr first expr = reach.checkExpr second expr := by
  unfold checkExpr
  rw [funext (checkColumn_congr h hreach)]

theorem afterAssignment_congr (h : Catalog.AgreeOn tables first second)
    (hreach : reach.tables ⊆ tables) (assignment : Assignment) :
    reach.afterAssignment first assignment = reach.afterAssignment second assignment := by
  rw [afterAssignment, afterAssignment, checkExpr_congr h hreach]

theorem afterJoin_congr {table : String} (h : Catalog.AgreeOn tables first second)
    (hreach : reach.tables ⊆ tables) (htable : table ∈ tables) (on : JoinCondition) :
    reach.afterJoin first table on = reach.afterJoin second table on := by
  have hjoined : ∀ columns expr,
      checkExpr first { reach with
        tables := reach.tables ++ [table]
        columns := reach.columns ++ columns } expr =
      checkExpr second { reach with
        tables := reach.tables ++ [table]
        columns := reach.columns ++ columns } expr := by
    intro columns expr
    refine checkExpr_congr h ?_ expr
    simpa using ⟨hreach, htable⟩
  simp only [afterJoin, tableColumns, h table htable, hjoined]

theorem after_congr (h : Catalog.AgreeOn tables first second) (hreach : reach.tables ⊆ tables)
    (hstage : stage.tables ⊆ tables) : reach.after first stage = reach.after second stage := by
  have hexpr := checkExpr_congr h hreach
  have hcolumn := checkColumn_congr h hreach
  cases stage with
  | source table =>
    have htable : table ∈ tables := hstage List.mem_cons_self
    simp only [after, tableColumns, h table htable]
  | filter | project | summarize | orderBy | top =>
    simp only [after, hexpr, hcolumn, funext hexpr, funext hcolumn]
  | projectAway | limit | take => rfl
  | extend assignments =>
    refine foldlM_congr (P := fun reach => reach.tables ⊆ tables) ?_ ?_ hreach
    · exact fun assignment _ reach hreach => afterAssignment_congr h hreach assignment
    · intro assignment _ reach next hreach hnext
      rwa [tables_afterAssignment hnext]
  | join kind table on => exact afterJoin_congr h hreach (hstage List.mem_cons_self) on

end Reach

theorem tables_subset (hstage : stage ∈ stages) : stage.tables ⊆ stages.flatMap Stage.tables :=
  fun _ htable => List.mem_flatMap.mpr ⟨stage, hstage, htable⟩

theorem checkNames_congr (h : Catalog.AgreeOn (stages.flatMap Stage.tables) first second) :
    checkNames first stages = checkNames second stages := by
  have hfold : stages.foldlM (Reach.after first) .empty =
      stages.foldlM (Reach.after second) .empty := by
    refine foldlM_congr (P := fun reach => reach.tables ⊆ stages.flatMap Stage.tables) ?_ ?_ ?_
    · exact fun stage hstage reach hreach => Reach.after_congr h hreach (tables_subset hstage)
    · intro stage hstage reach next hreach hnext
      rw [Reach.tables_after hnext]
      exact List.append_subset.mpr ⟨hreach, tables_subset hstage⟩
    · exact List.nil_subset _
  rw [checkNames, checkNames, hfold]

/-! ## Plans

The only table that is looked up is that of the plan, and only by `project-away`. -/

namespace Plan

variable {plan next : Plan} {catalog? : Option Catalog}

theorem removeNames_congr {names : List String}
    (h : first.columns? plan.table = second.columns? plan.table) :
    plan.removeNames (some first) names = plan.removeNames (some second) names := by
  have hwildcard : plan.wildcardColumns? (some first) = plan.wildcardColumns? (some second) := by
    simp only [wildcardColumns?, Option.bind_some, h]
  simp only [removeNames, removable?, hwildcard]

theorem apply_congr (h : first.columns? plan.table = second.columns? plan.table) :
    plan.apply (some first) stage = plan.apply (some second) stage := by
  cases stage with
  | projectAway names => exact removeNames_congr h
  | source | filter | project | extend | summarize | orderBy | limit | take | join | top => rfl

theorem mem_tables_apply (h : plan.apply catalog? stage = .ok next) :
    next.table ∈ plan.table :: stage.tables := by
  cases stage with
  | source table =>
    cases h
    exact List.mem_cons_of_mem _ List.mem_cons_self
  | projectAway names =>
    obtain ⟨select, rfl⟩ := eq_of_removeNames h
    exact List.mem_cons_self
  | filter | project | extend | summarize | orderBy | limit | take | join | top =>
    cases h
    exact List.mem_cons_self

theorem ofStages_congr (h : Catalog.AgreeOn (stages.flatMap Stage.tables) first second) :
    ofStages (some first) stages = ofStages (some second) stages := by
  cases stages with
  | nil => rfl
  | cons start rest =>
    cases start with
    | source table =>
      have hfold : rest.foldlM (apply (some first)) (ofTable table) =
          rest.foldlM (apply (some second)) (ofTable table) := by
        refine foldlM_congr
          (P := fun plan => plan.table ∈ (Stage.source table :: rest).flatMap Stage.tables)
          ?_ ?_ ?_
        · exact fun stage _ plan hplan => apply_congr (h plan.table hplan)
        · intro stage hstage plan next hplan hnext
          rcases List.mem_cons.mp (mem_tables_apply hnext) with htable | htable
          · rwa [htable]
          · exact tables_subset (List.mem_cons_of_mem _ hstage) htable
        · exact List.mem_cons_self
      simp only [ofStages, hfold]
    | filter | project | projectAway | extend | summarize | orderBy | limit | take | join | top =>
      rfl

/-- Without `project-away`, a plan is built without looking at the catalog. -/
theorem ofStages_eq_none (h : ∀ names, Stage.projectAway names ∉ stages) :
    ofStages catalog? stages = ofStages none stages := by
  have happly : ∀ stage ∈ stages, ∀ plan : Plan,
      plan.apply catalog? stage = plan.apply none stage := by
    intro stage hstage plan
    cases stage with
    | projectAway names => exact absurd hstage (h names)
    | source | filter | project | extend | summarize | orderBy | limit | take | join | top => rfl
  cases stages with
  | nil => rfl
  | cons start rest =>
    have hfold : ∀ plan, rest.foldlM (apply catalog?) plan = rest.foldlM (apply none) plan :=
      fun plan => foldlM_congr (P := fun _ => True)
        (fun stage hstage plan _ => happly stage (List.mem_cons_of_mem _ hstage) plan)
        (fun _ _ _ _ _ _ => trivial) trivial
    cases start with
    | source table => simp only [ofStages, hfold]
    | filter | project | projectAway | extend | summarize | orderBy | limit | take | join | top =>
      rfl

end Plan

/-! ## Texts -/

/-- The stages of a query text that is a readable pipeline. -/
def pipeline? (text : String) : Option (List Stage) :=
  match split text.toList with
  | .ok (.stages texts) => (parsePipeline texts).toOption
  | _ => none

section Compile

variable {options others : CompileOptions} {text : String}

theorem planOf_congr {rowLimit? : Option Nat} {dialect : Sql.Dialect}
    (h : Catalog.AgreeOn (stages.flatMap Stage.tables) first second) :
    planOf ⟨some first, rowLimit?, dialect⟩ stages =
      planOf ⟨some second, rowLimit?, dialect⟩ stages := by
  simp only [planOf, checkNames_congr h, Plan.ofStages_congr h]

theorem planOf_eq_none {rowLimit? : Option Nat} {dialect : Sql.Dialect}
    (h : ∀ names, Stage.projectAway names ∉ stages) :
    planOf ⟨some first, rowLimit?, dialect⟩ stages =
      checkNames first stages >>= fun _ => planOf ⟨none, rowLimit?, dialect⟩ stages := by
  simp only [planOf, Plan.ofStages_eq_none h]

theorem pipeline?_eq_some :
    pipeline? text = some stages ↔
      ∃ texts, split text.toList = .ok (.stages texts) ∧ parsePipeline texts = .ok stages := by
  unfold pipeline?
  constructor
  · intro h
    split at h
    · rename_i texts hsplit
      refine ⟨texts, hsplit, ?_⟩
      cases hread : parsePipeline texts with
      | error error => simp [hread, Except.toOption] at h
      | ok read => simpa [hread, Except.toOption] using h
    · cases h
  · rintro ⟨texts, hsplit, hread⟩
    simp [hsplit, hread, Except.toOption]

/-- Of the options, the plan of a pipeline decides what a text asks for. -/
theorem Request.ofText_congr
    (hplan : ∀ stages ∈ pipeline? text, planOf options stages = planOf others stages) :
    Request.ofText options text = Request.ofText others text := by
  unfold Request.ofText
  refine bind_congr_of_eq_ok fun found hsplit => ?_
  cases found with
  | sql query => rfl
  | stages texts =>
    refine bind_congr_of_eq_ok fun stages hread => ?_
    rw [hplan stages (pipeline?_eq_some.mpr ⟨texts, hsplit, hread⟩)]

theorem compile_congr (hdialect : options.dialect = others.dialect)
    (hplan : ∀ stages ∈ pipeline? text, planOf options stages = planOf others stages) :
    compile options text = compile others text := by
  rw [compile, compile, Request.ofText_congr hplan, hdialect]

theorem compile_eq_error (hstages : stages ∈ pipeline? text) {error : Error}
    (h : planOf options stages = .error error) : compile options text = .error error := by
  obtain ⟨texts, hsplit, hread⟩ := pipeline?_eq_some.mp hstages
  have hrequest : Request.ofText options text = .error error := by
    simp only [Request.ofText, hsplit, hread, h, bind, Except.bind]
  rw [compile, hrequest]
  rfl

/-- Tables that the pipeline does not name have no influence on its SQL or its error. Without
`project-away`, nor have the others, but that the names may be refused. -/
theorem compile_of_agreeOn (text : String) (rowLimit? : Option Nat) (dialect : Sql.Dialect) :
    (∀ first second : Catalog,
      (∀ stages ∈ pipeline? text, Catalog.AgreeOn (stages.flatMap Stage.tables) first second) →
        compile ⟨some first, rowLimit?, dialect⟩ text =
          compile ⟨some second, rowLimit?, dialect⟩ text) ∧
    ∀ catalog : Catalog,
      (∀ stages ∈ pipeline? text, ∀ names, Stage.projectAway names ∉ stages) →
        (∃ stages ∈ pipeline? text, ∃ error, checkNames catalog stages = .error error ∧
          compile ⟨some catalog, rowLimit?, dialect⟩ text = .error error) ∨
        compile ⟨some catalog, rowLimit?, dialect⟩ text =
          compile ⟨none, rowLimit?, dialect⟩ text := by
  constructor
  · intro first second hagree
    exact compile_congr rfl fun stages hstages => planOf_congr (hagree stages hstages)
  · intro catalog hkeep
    by_cases hrefused : ∃ stages ∈ pipeline? text, ∃ error, checkNames catalog stages = .error error
    · obtain ⟨stages, hstages, error, herror⟩ := hrefused
      refine .inl ⟨stages, hstages, error, herror, ?_⟩
      refine compile_eq_error hstages ?_
      rw [planOf_eq_none (hkeep stages hstages), herror]
      rfl
    · refine .inr (compile_congr rfl fun stages hstages => ?_)
      rw [planOf_eq_none (hkeep stages hstages)]
      cases hchecked : checkNames catalog stages with
      | ok => rfl
      | error error => exact absurd ⟨stages, hstages, error, hchecked⟩ hrefused

end Compile

/-- A table that is not joined may as well be unknown, and so may the catalog. -/
theorem compile_of_agreeOn_cityJoin :
    compile ⟨some (townCatalog.register "tokens" ["city", "token"]), some 5, .sqlite⟩
        "people | join cities on city | where age > 3" =
      compile ⟨some townCatalog, some 5, .sqlite⟩ "people | join cities on city | where age > 3" ∧
    compile ⟨some townCatalog, some 5, .sqlite⟩ "people | join cities on city | where age > 3" =
      compile ⟨none, some 5, .sqlite⟩ "people | join cities on city | where age > 3" := by
  have hpipeline : pipeline? "people | join cities on city | where age > 3" =
      some [.source "people", .join .inner "cities" (.keys ["city"]),
        .filter (.binary (.compare .greater) (.column ⟨none, "age"⟩) (.number "3"))] :=
    pipeline?_eq_some.mpr ⟨["people".toList, "join cities on city".toList,
      "where age > 3".toList], by decide, by cbv⟩
  obtain ⟨hagree, hnone⟩ := compile_of_agreeOn "people | join cities on city | where age > 3"
    (some 5) .sqlite
  constructor
  · refine hagree _ _ fun stages hstages => ?_
    obtain rfl := Option.some.inj (hpipeline.symm.trans hstages)
    decide
  · refine (hnone townCatalog fun stages hstages => ?_).resolve_left ?_
    · obtain rfl := Option.some.inj (hpipeline.symm.trans hstages)
      simp
    · rintro ⟨stages, hstages, error, herror, -⟩
      obtain rfl := Option.some.inj (hpipeline.symm.trans hstages)
      cases herror

end PipeSql
