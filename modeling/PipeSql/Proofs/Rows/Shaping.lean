import PipeSql.Proofs.Catalog.Reach
import PipeSql.Proofs.Rows.Output

/-! # Shaping stages

`extend` and `project` keep the select list showing the row of the stages. -/

namespace PipeSql

open Query

variable {V : Type*} {M : Meaning V}

/-- The names of an accepted expression without tables are in reach. -/
theorem Reach.names_of_checkExpr {catalog : Catalog} {reach : Reach} {expr : Expr}
    (h : reach.checkExpr catalog expr = .ok ()) (hbare : ∀ c ∈ expr.columns, c.table = none) :
    ∀ c ∈ expr.columns, c.name ∈ reach.columns := by
  intro c hc
  exact ((Reach.checkColumn_bare (hbare c hc)).mp (Reach.checkExpr_eq_ok.mp h c hc)).2

namespace Shows

variable {group : List (Row V)} {row : Row V} {items : List SelectItem} {current : Row V}
  {names : List String} {scope : Scope}

/-! ## Assignments -/

/-- Behind an assignment the list shows the row with the new column. -/
theorem assign (h : Shows M group row items current names) {assignment : Assignment}
    (hgroup : assignment.value.Scalar ∨ group = [row])
    (hbare : ∀ c ∈ assignment.value.columns, c.table = none)
    (hnames : ∀ c ∈ assignment.value.columns, c.name ∈ names) :
    ∃ next, current.assign? M assignment = some next ∧
      Shows M group row (Plan.assign [] items assignment) next (assignment.name :: names) := by
  obtain ⟨value, hvalue⟩ := Option.isSome_iff_exists.mp (h.isSome_valueIn? hbare hnames)
  have hscope : (⟨items, []⟩ : Scope).Reads items := ⟨fun _ => rfl, rfl⟩
  have hresolve := h.value?_resolve hscope (.inl rfl) hgroup hbare hnames
  refine ⟨current.set assignment.name value, by simp [Row.assign?, hvalue], ?_, ?_⟩
  · intro name
    rw [Plan.assign, outputOf?_overwrite M group row (by rfl)]
    by_cases hname : name = assignment.name
    · simp only [hname, if_true, SelectItem.value?, hresolve, hvalue, Row.set]
    · simp only [hname, if_false, h.output, Row.set]
  · intro name hname
    by_cases heq : name = assignment.name
    · simp [Row.set, heq]
    · have hold : name ∈ names := by simpa [heq] using hname
      simpa [Row.set, heq] using h.defined name hold

/-- Accepted assignments, one after the other. -/
theorem extend {catalog : Catalog} {reach next : Reach} {assignments : List Assignment}
    (h : Shows M group row items current reach.columns)
    (hgroup : (∀ a ∈ assignments, a.value.Scalar) ∨ group = [row])
    (hbare : ∀ a ∈ assignments, ∀ c ∈ a.value.columns, c.table = none)
    (hcheck : assignments.foldlM (Reach.afterAssignment catalog) reach = .ok next) :
    ∃ after, assignments.foldlM (Row.assign? M) current = some after ∧
      Shows M group row (assignments.foldl (Plan.assign []) items) after next.columns := by
  induction assignments generalizing reach items current with
  | nil =>
    obtain rfl : reach = next := pure_eq_ok_iff.mp hcheck
    exact ⟨current, rfl, h⟩
  | cons assignment assignments ih =>
    rw [List.foldlM_cons, bind_eq_ok_iff] at hcheck
    obtain ⟨middle, hfirst, hrest⟩ := hcheck
    obtain ⟨hexpr, rfl⟩ := Reach.afterAssignment_eq_ok.mp hfirst
    have hbare' := hbare assignment List.mem_cons_self
    obtain ⟨between, hassign, hshows⟩ := h.assign
      (hgroup.imp_left fun hs => hs assignment List.mem_cons_self) hbare'
      (Reach.names_of_checkExpr hexpr hbare')
    obtain ⟨after, hfold, hafter⟩ := ih hshows
      (hgroup.imp_left fun hs a ha => hs a (List.mem_cons_of_mem _ ha))
      (fun a ha => hbare a (List.mem_cons_of_mem _ ha)) hrest
    exact ⟨after, by simp [hassign, hfold], hafter⟩

/-! ## Projections -/

/-- The output of an item of `project` has the name and the value of the item. -/
theorem project_item (h : Shows M group row items current names) (hscope : scope.Reads items)
    {item : Projection} (hgroup : item.value.Scalar ∨ group = [row])
    (hbare : ∀ c ∈ item.value.columns, c.table = none)
    (hnames : ∀ c ∈ item.value.columns, c.name ∈ names) :
    scope.project item ≠ .everything ∧ (scope.project item).outputName? = item.name? ∧
      (scope.project item).value? M group row = item.value.valueIn? M current := by
  refine ⟨(scope.outputName?_project item).1, (scope.outputName?_project item).2, ?_⟩
  rcases scope.project_cases item with
    ⟨column, earlier, hitem, hcolumn, hearlier, hproject⟩ | ⟨-, hproject⟩
  · -- the value of an earlier output is that of the column it shows
    rw [hscope.output] at hearlier
    have hvalue : (Expr.column column).valueIn? M current = earlier.value? M group row := by
      have houtput := h.output column.name
      simp only [outputOf?, hearlier] at houtput
      rw [Expr.valueIn?, Expr.value?, Row.column?, hcolumn, houtput]
    rw [hproject, hitem, hvalue]
    cases earlier with
    | everything => exact absurd hearlier namedItem?_ne_everything
    | value expr old => rfl
    | aggregate of => rfl
  · rw [hproject]
    exact h.value?_resolve hscope (.inl rfl) hgroup hbare hnames

/-- Behind `project` the list shows the row of the items. -/
theorem project (h : Shows M group row items current names) (hscope : scope.Reads items)
    {projections : List Projection}
    (hgroup : (∀ p ∈ projections, p.value.Scalar) ∨ group = [row])
    (hbare : ∀ p ∈ projections, ∀ c ∈ p.value.columns, c.table = none)
    (hnames : ∀ p ∈ projections, ∀ c ∈ p.value.columns, c.name ∈ names) :
    ∃ after, current.project? M projections = some after ∧
      Shows M group row (projections.map scope.project) after
        (projections.filterMap Projection.name?) := by
  obtain ⟨outputs, houtputs, hall⟩ := exists_mapM_forall₂ (l := projections)
    (f := fun p : Projection => (p.value.valueIn? M current).map (p.name?, ·))
    (R := fun p output => output.1 = p.name? ∧ (scope.project p ≠ .everything ∧
      (scope.project p).outputName? = output.1 ∧
      (scope.project p).value? M group row = some output.2)) <| by
    intro p hp
    obtain ⟨value, hvalue⟩ :=
      Option.isSome_iff_exists.mp (h.isSome_valueIn? (hbare p hp) (hnames p hp))
    obtain ⟨hne, hname, hout⟩ := h.project_item hscope
      (hgroup.imp_left fun hs => hs p hp) (hbare p hp) (hnames p hp)
    exact ⟨(p.name?, value), by simp [hvalue], rfl, hne, hname, by rw [hout, hvalue]⟩
  refine ⟨Row.ofOutputs outputs, by simp [Row.project?, houtputs], ?_, ?_⟩
  · refine outputOf?_eq_ofOutputs (List.forall₂_map_left_iff.mpr ?_)
    exact hall.imp fun _ _ hr => hr.2
  · intro name hname
    have hfst : List.Forall₂ (· = ·) (projections.map Projection.name?)
        (outputs.map Prod.fst) := by
      rw [List.forall₂_map_left_iff, List.forall₂_map_right_iff]
      exact hall.imp fun _ _ hr => hr.1.symm
    rw [List.forall₂_eq_eq_eq] at hfst
    refine isSome_ofOutputs ?_
    rw [← hfst]
    obtain ⟨p, hp, hpname⟩ := List.mem_filterMap.mp hname
    exact List.mem_map.mpr ⟨p, hp, hpname⟩

end Shows

end PipeSql
