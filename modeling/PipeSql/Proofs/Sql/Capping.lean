import PipeSql.Proofs.Catalog.Agreement
import PipeSql.Proofs.Plan.Overriding
import PipeSql.Proofs.Plan.Spelled
import PipeSql.Proofs.Sql.Structure

/-! # Row limits of the options

A limit in the options of a compilation only fills a gap: it is the last clause of the SQL where the
pipeline gives no row count itself, and elsewhere it changes nothing. -/

namespace PipeSql

open Query

variable {dialect : Sql.Dialect} {plan : Plan} {n count : Nat} {catalog? : Option Catalog}
  {stages : List Stage} {text sql : String}

/-! ## Plans -/

namespace Plan

theorem capped_of_limit_eq_none (h : plan.limit = none) (hn : 0 < n) :
    plan.capped n = { plan with limit := some n } := by
  simp [capped, h, hn]

theorem capped_of_limit_eq_some (h : plan.limit = some count) : plan.capped n = plan := by
  simp [capped, h]

end Plan

namespace Sql

theorem obstacle?_capped (plan : Plan) (n : Nat) : obstacle? (plan.capped n) = obstacle? plan := by
  unfold Plan.capped
  split <;> rfl

/-- The limit is the last clause. -/
theorem selectText_eq_append (dialect : Dialect) (plan : Plan) :
    selectText dialect plan =
      selectText dialect { plan with limit := none } ++ limitClause plan.limit := by
  simp [selectText, limitClause]

theorem selectText_capped (dialect : Dialect) (plan : Plan) (hn : 0 < n) :
    selectText dialect (plan.capped n) =
      selectText dialect plan ++ if plan.limit = none then limitText n else "" := by
  cases hlimit : plan.limit with
  | none =>
    have hplain : { plan with limit := none } = plan := by rw [← hlimit]
    rw [Plan.capped_of_limit_eq_none hlimit hn, selectText_eq_append]
    simp [hplain, limitClause]
  | some count => simp [Plan.capped_of_limit_eq_some hlimit]

/-- A limit of the options is written behind the SQL of a plan without limit. -/
theorem select_capped (dialect : Dialect) (plan : Plan) (hn : 0 < n) :
    select dialect (plan.capped n) =
      (select dialect plan).map (· ++ if plan.limit = none then limitText n else "") := by
  unfold select
  rw [obstacle?_capped, selectText_capped dialect plan hn]
  cases obstacle? plan <;> rfl

theorem exists_of_select_of_limit (h : select dialect plan = .ok sql)
    (hlimit : plan.limit = some count) : ∃ front, sql = front ++ limitText count := by
  obtain ⟨-, rfl⟩ := select_eq_ok.mp h
  rw [selectText_eq_append, hlimit, limitClause]
  exact ⟨_, rfl⟩

end Sql

/-! ## Texts -/

theorem planOf_rowLimit (n : Nat) :
    planOf ⟨catalog?, some n, dialect⟩ stages =
      (planOf ⟨catalog?, none, dialect⟩ stages).map (Plan.capped · n) := by
  have hbuilt : ∀ x : Except Error Plan,
      (x >>= fun plan => pure (plan.capped n)) = (x >>= pure).map (Plan.capped · n) := by
    intro x
    cases x <;> rfl
  cases catalog? with
  | none => exact hbuilt _
  | some catalog =>
    unfold planOf
    simp only
    cases checkNames catalog stages with
    | error error => rfl
    | ok => exact hbuilt _

theorem compile_of_pipeline? {options : CompileOptions} (h : pipeline? text = some stages) :
    compile options text = planOf options stages >>= Sql.select options.dialect := by
  obtain ⟨texts, hsplit, hread⟩ := pipeline?_eq_some.mp h
  have hrequest : Request.ofText options text = (planOf options stages).map .plan := by
    simp only [Request.ofText, hsplit, hread, bind, Except.bind]
    cases planOf options stages <;> rfl
  rw [compile, hrequest]
  cases planOf options stages <;> rfl

theorem limit_planOf (h : planOf ⟨catalog?, none, dialect⟩ stages = .ok plan) :
    plan.limit = lastRowCount? stages := by
  obtain ⟨_, hplan, rfl⟩ := planOf_eq_ok h
  exact Plan.limit_ofStages hplan

/-- With a limit in the options, a pipeline has its error, or its SQL with the limit behind it
where the stages give no row count. -/
theorem compile_capped (h : pipeline? text = some stages) (hn : 0 < n) :
    compile ⟨catalog?, some n, dialect⟩ text =
      (compile ⟨catalog?, none, dialect⟩ text).map
        (· ++ if lastRowCount? stages = none then Sql.limitText n else "") := by
  rw [compile_of_pipeline? h, compile_of_pipeline? h, planOf_rowLimit]
  cases hplan : planOf ⟨catalog?, none, dialect⟩ stages with
  | error error => rfl
  | ok plan =>
    have hselect := Sql.select_capped dialect plan hn
    rw [limit_planOf hplan] at hselect
    exact hselect

/-- A limit in the options changes no error and no SQL that is passed on. The SQL of a pipeline ends
with that limit where no stage gives a row count; where one does, the SQL stays as it is and ends
with the last row count. -/
theorem compile_rowLimit (catalog? : Option Catalog) (dialect : Sql.Dialect) (text : String)
    (hn : 0 < n) :
    (∀ error, compile ⟨catalog?, some n, dialect⟩ text = .error error ↔
        compile ⟨catalog?, none, dialect⟩ text = .error error) ∧
      (∀ query rowLimit?, split text.toList = .ok (.sql query) →
        compile ⟨catalog?, rowLimit?, dialect⟩ text = .ok (String.ofList query)) ∧
      ∀ stages ∈ pipeline? text, ∀ sql, compile ⟨catalog?, none, dialect⟩ text = .ok sql →
        match lastRowCount? stages with
        | none => compile ⟨catalog?, some n, dialect⟩ text = .ok (sql ++ " LIMIT " ++ toString n)
        | some count => compile ⟨catalog?, some n, dialect⟩ text = .ok sql ∧
            ∃ front, sql = front ++ " LIMIT " ++ toString count := by
  refine ⟨fun error => ?_, fun query rowLimit? hsplit => ?_, fun stages hstages sql hsql => ?_⟩
  · cases hpipeline : pipeline? text with
    | none =>
      have hsame : compile ⟨catalog?, some n, dialect⟩ text =
          compile ⟨catalog?, none, dialect⟩ text :=
        compile_congr rfl fun stages hstages => by simp [hpipeline] at hstages
      rw [hsame]
    | some stages =>
      rw [compile_capped hpipeline hn]
      cases compile ⟨catalog?, none, dialect⟩ text <;> simp [Except.map]
  · simp only [compile, Request.ofText, hsplit]
    rfl
  · have hcapped : compile ⟨catalog?, some n, dialect⟩ text = _ := compile_capped hstages hn
    rw [hsql] at hcapped
    cases hlast : lastRowCount? stages with
    | none => simpa [hlast, Except.map, Sql.limitText, String.append_assoc] using hcapped
    | some count =>
      refine ⟨by simpa [hlast, Except.map] using hcapped, ?_⟩
      rw [compile_of_pipeline? hstages] at hsql
      obtain ⟨plan, hplan, hselect⟩ := bind_eq_ok_iff.mp hsql
      have hlimit := (limit_planOf hplan).trans hlast
      obtain ⟨front, rfl⟩ := Sql.exists_of_select_of_limit hselect hlimit
      exact ⟨front, by rw [Sql.limitText, String.append_assoc]⟩

/-- The row count of `top` stays the last clause; without one, the limit of the options is it. -/
theorem compile_rowLimit_topThree :
    0 < 5 ∧
      (∃ sql front, compile ⟨none, some 5, .sqlite⟩ "T | take 9 | top 3 by a" = .ok sql ∧
        sql = front ++ " LIMIT " ++ toString 3) ∧
      ∃ sql, compile ⟨none, none, .sqlite⟩ "T | project a" = .ok sql ∧
        compile ⟨none, some 5, .sqlite⟩ "T | project a" = .ok (sql ++ " LIMIT " ++ toString 5) := by
  have htop : pipeline? "T | take 9 | top 3 by a" =
      some [.source "T", .take 9, .top 3 ⟨.bare "a", .descending⟩] :=
    pipeline?_eq_some.mpr ⟨["T".toList, "take 9".toList, "top 3 by a".toList], by decide, by cbv⟩
  have hproject : pipeline? "T | project a" =
      some [.source "T", .project [⟨.column (.bare "a"), none⟩]] :=
    pipeline?_eq_some.mpr ⟨["T".toList, "project a".toList], by decide, by cbv⟩
  obtain ⟨sql, hsql⟩ :
      ∃ sql, compile ⟨none, none, .sqlite⟩ "T | take 9 | top 3 by a" = .ok sql :=
    ⟨_, (compile_of_pipeline? htop).trans rfl⟩
  obtain ⟨other, hother⟩ : ∃ sql, compile ⟨none, none, .sqlite⟩ "T | project a" = .ok sql :=
    ⟨_, (compile_of_pipeline? hproject).trans rfl⟩
  obtain ⟨hcapped, front, hfront⟩ :=
    (compile_rowLimit none .sqlite _ (by decide : 0 < 5)).2.2 _ htop sql hsql
  have hadded := (compile_rowLimit none .sqlite _ (by decide : 0 < 5)).2.2 _ hproject other hother
  exact ⟨by decide, ⟨sql, front, hcapped, hfront⟩, other, hother, hadded⟩

end PipeSql
