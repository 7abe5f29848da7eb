import PipeSql.Proofs.Rows.Shaping

/-! # Inlining keeps the meaning of a row

A plan has the computed columns of the stages written out over the columns of its source. Main
statement: a row passes the stages exactly when it passes the filters of the plan, and then the
select list gives the row that the stages give. -/

namespace PipeSql

open Query

variable {V : Type*} {M : Meaning V}

/-- An expression is true in a row as a condition. -/
def Query.Expr.Passes (M : Meaning V) (row : Row V) (expr : Expr) : Prop :=
  (expr.valueIn? M row).any M.holds

instance (row : Row V) (expr : Expr) : Decidable (expr.Passes M row) :=
  inferInstanceAs (Decidable (_ = true))

section Follow

variable {catalog : Catalog} {catalog? : Option Catalog} {reach next : Reach}
  {plan after : Plan} {group : List (Row V)} {row current : Row V}

/-- One stage: the row is dropped exactly when an added filter fails, and else the new select list
shows the row behind the stage. -/
theorem Shows.follow_stage {stage : Stage} (hstage : stage.RowWise) (hbare : stage.Bare)
    (hgroup : stage.Scalar ∨ group = [row])
    (hplace : stage.Shaping ∨
      group = [row] ∧ ∀ item ∈ plan.select.listed, item.RowItem fun _ => True)
    (hjoins : plan.joins = [])
    (hcheck : reach.after catalog stage = .ok next)
    (happly : plan.apply catalog? stage = .ok after)
    (h : Shows M group row plan.select.listed current reach.columns) :
    ∃ added outcome, after.filters = plan.filters ++ added ∧
      stage.follow? M current = some outcome ∧
      (outcome.isSome ↔ ∀ filter ∈ added, filter.Passes M row) ∧
      ∀ final, outcome = some final →
        Shows M group row after.select.listed final next.columns := by
  have hscope := Plan.scope_reads hjoins
  have hbare' : ∀ expr ∈ stage.expressions, ∀ c ∈ expr.columns, c.table = none :=
    fun expr hexpr => hbare.of_mem_expression hexpr
  rcases hstage with condition | ⟨items | assignments⟩
  · rcases hplace with hshaping | ⟨rfl, hitems⟩
    · cases hshaping
    obtain ⟨hcondition, rfl⟩ := Reach.after_filter.mp hcheck
    have hb : ∀ c ∈ condition.columns, c.table = none := hbare' condition List.mem_cons_self
    have hn := Reach.names_of_checkExpr hcondition hb
    obtain ⟨value, hvalue⟩ := Option.isSome_iff_exists.mp (h.isSome_valueIn? hb hn)
    have hresolve : (plan.scope.resolve false condition).valueIn? M row = some value :=
      (h.value?_resolve hscope (.inr hitems) (.inr rfl) hb hn).trans hvalue
    refine ⟨[plan.scope.resolve false condition], if M.holds value then some current else none,
      ?_, by simp [Stage.follow?, hvalue], ?_, ?_⟩
    · cases happly
      rfl
    · have hpasses : (plan.scope.resolve false condition).Passes M row ↔ M.holds value := by
        simp [Expr.Passes, hresolve]
      simp only [List.forall_mem_singleton, hpasses]
      cases M.holds value <;> simp
    · intro final hfinal
      cases happly
      cases hholds : M.holds value
      · simp [hholds] at hfinal
      · obtain rfl : current = final := by simpa [hholds] using hfinal
        exact h
  · obtain ⟨hitems, rfl⟩ := Reach.after_project.mp hcheck
    cases happly
    have hb : ∀ p ∈ items, ∀ c ∈ p.value.columns, c.table = none :=
      fun p hp => hbare' _ (List.mem_map_of_mem hp)
    obtain ⟨final, hproject, hshows⟩ := h.project hscope
      (hgroup.imp_left fun hs p hp => hs _ (List.mem_map_of_mem hp)) hb
      (fun p hp => Reach.names_of_checkExpr (hitems p hp) (hb p hp))
    refine ⟨[], some final, by simp, by simp [Stage.follow?, hproject], by simp, ?_⟩
    rintro _ ⟨⟩
    exact hshows
  · rw [Reach.after_extend] at hcheck
    rw [Plan.apply_extend] at happly
    cases happly
    obtain ⟨final, hextend, hshows⟩ := h.extend
      (hgroup.imp_left fun hs a ha => hs _ (List.mem_map_of_mem ha))
      (fun a ha => hbare' _ (List.mem_map_of_mem ha)) hcheck
    refine ⟨[], some final, by simp, by simp [Stage.follow?, hextend], by simp, ?_⟩
    rintro _ ⟨⟩
    rw [hscope.keys]
    exact hshows

/-- A run of stages: the row is dropped exactly when an added filter fails, and else the new select
list shows the row behind the last stage. -/
theorem Shows.follow_stages {stages : List Stage} (hstages : ∀ stage ∈ stages, stage.RowWise)
    (hbare : ∀ stage ∈ stages, stage.Bare)
    (hgroup : (∀ stage ∈ stages, stage.Scalar) ∨ group = [row])
    (hplace : (∀ stage ∈ stages, stage.Shaping) ∨
      group = [row] ∧ ∀ item ∈ plan.select.listed, item.RowItem fun _ => True)
    (hjoins : plan.joins = [])
    (hcheck : stages.foldlM (Reach.after catalog) reach = .ok next)
    (hfold : stages.foldlM (Plan.apply catalog?) plan = .ok after)
    (h : Shows M group row plan.select.listed current reach.columns) :
    ∃ added outcome, after.filters = plan.filters ++ added ∧
      follow? M current stages = some outcome ∧
      (outcome.isSome ↔ ∀ filter ∈ added, filter.Passes M row) ∧
      ∀ final, outcome = some final →
        Shows M group row after.select.listed final next.columns := by
  induction stages generalizing reach plan current with
  | nil =>
    obtain rfl : reach = next := pure_eq_ok_iff.mp hcheck
    obtain rfl : plan = after := pure_eq_ok_iff.mp hfold
    refine ⟨[], some current, by simp, rfl, by simp, ?_⟩
    rintro _ ⟨⟩
    exact h
  | cons stage stages ih =>
    rw [List.foldlM_cons, bind_eq_ok_iff] at hcheck hfold
    obtain ⟨reach', hcheck', hcheck⟩ := hcheck
    obtain ⟨plan', happly, hfold⟩ := hfold
    have hstage := hstages stage List.mem_cons_self
    have hrest : ∀ s ∈ stages, s ∈ stage :: stages := fun s hs => List.mem_cons_of_mem stage hs
    obtain ⟨hjoins', -, -⟩ := Plan.joins_apply_rowWise hstage happly
    have hplace' : (∀ s ∈ stages, s.Shaping) ∨
        group = [row] ∧ ∀ item ∈ plan'.select.listed, item.RowItem fun _ => True := by
      refine hplace.imp (fun hs s hstages => hs s (hrest s hstages)) ?_
      rintro ⟨hg, hitems⟩
      exact ⟨hg,
        Plan.rowItem_apply_rowWise inlinable_true hstage (fun _ _ => trivial) hitems happly⟩
    obtain ⟨first, outcome, hfirst, hfollow, hkept, hshows⟩ := h.follow_stage hstage
      (hbare stage List.mem_cons_self) (hgroup.imp_left fun hs => hs stage List.mem_cons_self)
      (hplace.imp_left fun hs => hs stage List.mem_cons_self) hjoins hcheck' happly
    cases outcome with
    | none =>
      obtain ⟨later, hlater⟩ := Plan.filters_fold_rowWise
        (fun s hs => hstages s (hrest s hs)) hfold
      refine ⟨first ++ later, none, by rw [hlater, hfirst, List.append_assoc],
        by simp [follow?, hfollow], ?_, by simp⟩
      have hfails : ¬ ∀ filter ∈ first, filter.Passes M row := by
        intro hall
        simpa using hkept.mpr hall
      refine iff_of_false (by simp) ?_
      intro hall
      exact hfails fun filter hfilter => hall filter (List.mem_append_left later hfilter)
    | some middle =>
      obtain ⟨later, outcome, hlater, hfollow', hkept', hshows'⟩ := ih
        (fun s hs => hstages s (hrest s hs)) (fun s hs => hbare s (hrest s hs))
        (hgroup.imp_left fun hs s hmem => hs s (hrest s hmem)) hplace'
        (hjoins'.trans hjoins) hcheck hfold (hshows middle rfl)
      refine ⟨first ++ later, outcome, by rw [hlater, hfirst, List.append_assoc],
        by simp [follow?, hfollow, hfollow'], ?_, hshows'⟩
      rw [hkept', List.forall_mem_append]
      exact ⟨fun hall => ⟨hkept.mp rfl, hall⟩, And.right⟩

end Follow

/-- The row has a value in each of the columns. -/
def Row.Covers (row : Row V) (columns : List String) : Prop :=
  ∀ name ∈ columns, (row name).isSome

/-- A row of the source is shown by the plan that gives the source as it is. -/
theorem Shows.ofTable {row : Row V} {columns : List String} (h : row.Covers columns)
    (table : String) :
    Shows M [row] row (Plan.ofTable table).select.listed row columns where
  output name := by
    simp [Plan.ofTable, SelectList.listed, outputOf?, namedItem?, SelectItem.outputName?,
      startsWithAll]
  defined := h

/-- The stages of a pipeline behind its source: a row passes them exactly when it passes the filters
of the plan, and then the select list shows the row behind the last stage. -/
theorem Shows.follow_source {catalog : Catalog} {catalog? : Option Catalog} {table : String}
    {columns : List String} {last : Reach} {plan : Plan} {row : Row V} {stages : List Stage}
    (hstages : ∀ stage ∈ stages, stage.RowWise) (hbare : ∀ stage ∈ stages, stage.Bare)
    (hcheck : stages.foldlM (Reach.after catalog) ⟨[table], columns, []⟩ = .ok last)
    (hfold : stages.foldlM (Plan.apply catalog?) (.ofTable table) = .ok plan)
    (hrow : row.Covers columns) :
    ∃ outcome, follow? M row stages = some outcome ∧
      (outcome.isSome ↔ ∀ filter ∈ plan.filters, filter.Passes M row) ∧
      ∀ final, outcome = some final → Shows M [row] row plan.select.listed final last.columns := by
  have hitems : ∀ item ∈ (Plan.ofTable table).select.listed, item.RowItem fun _ => True := by
    intro item hitem
    obtain rfl : item = .everything := by simpa [Plan.ofTable, SelectList.listed] using hitem
    exact .everything
  obtain ⟨added, outcome, hadded, hfollow, hkept, hshows⟩ :=
    (Shows.ofTable hrow table).follow_stages hstages hbare (.inr rfl) (.inr ⟨rfl, hitems⟩) rfl
      hcheck hfold
  have hfilters : plan.filters = added := by simpa [Plan.ofTable] using hadded
  rw [hfilters]
  exact ⟨outcome, hfollow, hkept, hshows⟩

/-- Accepted stages that look at each row on its own keep their meaning in the plan: no row gets
stuck in them, a row passes them exactly when it passes the filters of the plan, and then the
select list gives each column of the row behind the last stage. -/
theorem follow?_eq_output? (catalog : Catalog) (catalog? : Option Catalog) (table : String)
    (stages : List Stage)
    (hstages : ∀ stage ∈ stages, stage.RowWise) (hbare : ∀ stage ∈ stages, stage.Bare)
    (hcheck : checkNames catalog (.source table :: stages) = .ok ())
    (M : Meaning V) (row : Row V)
    (hrow : ∀ columns, catalog.columns? table = some columns → row.Covers columns) :
    ∃ plan outcome, Plan.ofStages catalog? (.source table :: stages) = .ok plan ∧
      follow? M row stages = some outcome ∧
      (outcome.isSome ↔ ∀ filter ∈ plan.filters, filter.Passes M row) ∧
      ∀ final, outcome = some final → ∀ name, plan.output? M [row] row name = final name := by
  obtain ⟨columns, last, hcolumns, hcheck⟩ := checkNames_source.mp hcheck
  obtain ⟨plan, hfold⟩ : ∃ plan, stages.foldlM (Plan.apply catalog?) (.ofTable table) = .ok plan :=
    Plan.exists_fold_rowWise hstages _
  have hsource : ∀ other, Stage.source other ∉ stages :=
    fun other hother => (hstages _ hother).ne_source other rfl
  obtain ⟨outcome, hfollow, hkept, hshows⟩ :=
    Shows.follow_source hstages hbare hcheck hfold (hrow columns hcolumns)
  refine ⟨plan, outcome, by rw [Plan.ofStages_source hsource, hfold], hfollow, hkept, ?_⟩
  intro final hfinal name
  exact (hshows final hfinal).output name

/-- Numbers as values: a text and a literal count as their lengths, a truth value as zero or one,
and an aggregate adds up. -/
def countMeaning : Meaning Nat where
  text value := value.length
  number digits := digits.length
  bool value := if value then 1 else 0
  binary
    | .compute .add, a, b => a + b
    | .compare .greater, a, b => if a > b then 1 else 0
    | _, a, _ => a
  call _ arguments := arguments.foldr (· + ·) 0
  aggregate _ rows := rows.flatten.foldr (· + ·) 0
  holds value := value != 0

def peopleCatalog : Catalog :=
  Catalog.empty.register "people" ["age", "size"]

def peopleRow : Row Nat :=
  Row.ofOutputs [(some "age", 30), (some "size", 12)]

/-- `age` and `size` change places, and then `age` grows by `size`. -/
def swapStages : List Stage :=
  [.project [⟨.column (.bare "size"), some "age"⟩, ⟨.column (.bare "age"), some "size"⟩],
    .extend [⟨"age", .binary (.compute .add) (.column (.bare "age")) (.column (.bare "size"))⟩],
    .filter (.binary (.compare .greater) (.column (.bare "age")) (.number "5"))]

theorem rowWise_swapStages : ∀ stage ∈ swapStages, stage.RowWise := by
  intro stage hstage
  simp only [swapStages, List.mem_cons, List.not_mem_nil, or_false] at hstage
  rcases hstage with rfl | rfl | rfl
  · exact .shaping (.project _)
  · exact .shaping (.extend _)
  · exact .filter _

theorem follow?_eq_output?_swapStages :
    (follow? countMeaning peopleRow swapStages).join.bind (· "age") = some 42 ∧
      ∃ plan outcome, Plan.ofStages none (.source "people" :: swapStages) = .ok plan ∧
        follow? countMeaning peopleRow swapStages = some outcome ∧
        (outcome.isSome ↔ ∀ filter ∈ plan.filters, filter.Passes countMeaning peopleRow) ∧
        ∀ final, outcome = some final →
          ∀ name, plan.output? countMeaning [peopleRow] peopleRow name = final name := by
  refine ⟨rfl, follow?_eq_output? peopleCatalog none "people" swapStages rowWise_swapStages ?_ rfl
    countMeaning peopleRow ?_⟩
  · unfold Stage.Bare
    decide
  · rintro columns ⟨⟩ name hname
    have hcases : name = "age" ∨ name = "size" := by simpa using hname
    rcases hcases with rfl | rfl <;> rfl

end PipeSql
