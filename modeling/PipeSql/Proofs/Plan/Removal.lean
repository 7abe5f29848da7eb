import PipeSql.Proofs.Plan.Items

/-! # Taking away names

The outputs that `project-away` leaves: those of other names, in front of which the columns of a
wildcard may come when it is written out. -/

namespace PipeSql

open Query

variable {catalog? : Option Catalog} {catalog : Catalog} {plan after : Plan} {name : String}
  {names columns : List String} {items : List SelectItem} {item : SelectItem}

/-! ## The wildcard written out -/

/-- The items with the wildcard written out, where its columns are known. -/
def Plan.writtenOut (columns? : Option (List String)) (items : List SelectItem) :
    List SelectItem :=
  match columns? with
  | none => items
  | some columns => expanded columns items

theorem Plan.mem_expanded (h : item ∈ expanded columns items) :
    item ∈ items ∨ .everything ∈ items ∧ ∃ name ∈ columns, item = .ofColumn name := by
  obtain ⟨listed, hlisted, hitem⟩ := List.mem_flatMap.mp h
  cases listed with
  | everything =>
    obtain ⟨name, hname, rfl⟩ := List.mem_map.mp hitem
    exact .inr ⟨hlisted, name, hname, rfl⟩
  | value | aggregate =>
    obtain rfl := List.mem_singleton.mp hitem
    exact .inl hlisted

theorem namedItem?_map_ofColumn (columns : List String) :
    namedItem? (columns.map SelectItem.ofColumn) name =
      if name ∈ columns then some (.ofColumn name) else none := by
  have hname : ∀ column, (SelectItem.ofColumn column).outputName? = some column := fun _ => rfl
  induction columns with
  | nil => rfl
  | cons first rest ih =>
    rw [List.map_cons, namedItem?_cons, hname, ih]
    by_cases h : first = name
    · simp [h]
    · simp [h, Ne.symm h]

/-- Where the wildcard is written out, a name is found as before, or as a column of the wildcard. -/
theorem namedItem?_expanded (columns : List String) (items : List SelectItem) :
    namedItem? (Plan.expanded columns items) name = namedItem? items name ∨
      .everything ∈ items ∧ name ∈ columns ∧
        namedItem? (Plan.expanded columns items) name = some (.ofColumn name) := by
  induction items with
  | nil => exact .inl rfl
  | cons first rest ih =>
    by_cases hall : first = .everything
    · subst hall
      have hexpanded : Plan.expanded columns (.everything :: rest) =
          columns.map .ofColumn ++ Plan.expanded columns rest := rfl
      have hrest : namedItem? (.everything :: rest) name = namedItem? rest name := rfl
      rw [hexpanded, hrest, namedItem?_append, namedItem?_map_ofColumn]
      by_cases hname : name ∈ columns
      · exact .inr ⟨List.mem_cons_self, hname, by simp [hname]⟩
      · simp only [if_neg hname, Option.none_or]
        exact ih.imp_right fun ⟨hmem, hfound⟩ => ⟨List.mem_cons_of_mem _ hmem, hfound⟩
    · have hexpanded : Plan.expanded columns (first :: rest) =
          first :: Plan.expanded columns rest := by
        cases first with
        | everything => exact absurd rfl hall
        | value | aggregate => rfl
      rw [hexpanded, namedItem?_cons, namedItem?_cons]
      by_cases hname : first.outputName? = some name
      · exact .inl (by rw [if_pos hname, if_pos hname])
      · rw [if_neg hname, if_neg hname]
        exact ih.imp_right fun ⟨hmem, hfound⟩ => ⟨List.mem_cons_of_mem _ hmem, hfound⟩

/-! ## The outputs that are left -/

namespace Plan

/-- The wildcard stands for the columns that the catalog knows, as long as nothing is joined. -/
theorem columns?_of_wildcardColumns? (h : plan.wildcardColumns? (some catalog) = some columns) :
    plan.joins = [] ∧ catalog.columns? plan.table = some columns := by
  unfold wildcardColumns? at h
  split at h
  · rename_i hjoins
    exact ⟨List.isEmpty_iff.mp hjoins, h⟩
  · cases h

theorem removable?_eq_some (h : plan.removable? catalog? = some items) :
    items = writtenOut (plan.wildcardColumns? catalog?) plan.select.listed := by
  unfold removable? at h
  cases hselect : plan.select <;> cases hcolumns : plan.wildcardColumns? catalog? <;>
    simp only [hselect, hcolumns, reduceCtorEq, Option.some.injEq] at h <;>
    simp [← h, SelectList.listed, writtenOut, expanded]

/-- A wildcard of unknown columns is left as it is, and of other items those of other names. -/
theorem removeNames_cases (h : plan.removeNames catalog? names = .ok after) :
    plan.removable? catalog? = none ∧ after = plan ∨
      ∃ items, plan.removable? catalog? = some items ∧
        after = { plan with
          select := .items (items.filter fun item => !item.outputName?.any names.contains) } := by
  unfold removeNames at h
  cases hitems : plan.removable? catalog? with
  | none =>
    rw [hitems] at h
    cases h
    exact .inl ⟨rfl, rfl⟩
  | some items =>
    simp only [hitems] at h
    split at h
    · cases h
    · cases h
      exact .inr ⟨items, rfl, rfl⟩

theorem eq_of_removeNames (h : plan.removeNames catalog? names = .ok after) :
    ∃ select, after = { plan with select } := by
  rcases removeNames_cases h with ⟨-, rfl⟩ | ⟨items, -, rfl⟩
  · exact ⟨after.select, rfl⟩
  · exact ⟨_, rfl⟩

/-- The items that are left were there before, or they are columns of the wildcard. -/
theorem listed_removeNames {Q : SelectItem → Prop} (hcolumn : ∀ name, Q (.ofColumn name))
    (hitems : ∀ item ∈ plan.select.listed, Q item)
    (h : plan.removeNames catalog? names = .ok after) : ∀ item ∈ after.select.listed, Q item := by
  rcases removeNames_cases h with ⟨-, rfl⟩ | ⟨items, hremovable, rfl⟩
  · exact hitems
  · intro item hitem
    have hmem := List.mem_of_mem_filter hitem
    rw [removable?_eq_some hremovable] at hmem
    unfold writtenOut at hmem
    split at hmem
    · exact hitems item hmem
    · rcases mem_expanded hmem with hlisted | ⟨-, name, -, rfl⟩
      · exact hitems item hlisted
      · exact hcolumn name

/-- What names pass on passes through every stage, from the expressions that are written and the
aggregates over what their arguments stand for. -/
theorem holds_apply {S P : Expr → Prop} {A : Aggregate → Prop} {stage : Stage}
    (hP : Inlines S P A) (hshaping : stage.Shaping → ∀ e ∈ stage.expressions, S e)
    (hsummarize : ∀ aggregates groups, stage = .summarize aggregates groups →
      ∀ aggregate ∈ aggregates, A { aggregate with
        arguments := aggregate.arguments.map (plan.scope.resolve false) })
    (hitems : ∀ item ∈ plan.select.listed, item.Holds P A)
    (h : plan.apply catalog? stage = .ok after) : ∀ item ∈ after.select.listed, item.Holds P A := by
  cases stage with
  | project items =>
    exact holds_apply_shaping hP (.project items) (hshaping (.project items)) hitems h
  | extend assignments =>
    exact holds_apply_shaping hP (.extend assignments) (hshaping (.extend assignments)) hitems h
  | projectAway names => exact listed_removeNames (fun name => .value none (hP.column _)) hitems h
  | summarize aggregates groups =>
    cases h
    intro item hitem
    rcases List.mem_append.mp hitem with hitem | hitem
    · obtain ⟨aggregate, haggregate, rfl⟩ := List.mem_map.mp hitem
      exact .aggregate (hsummarize aggregates groups rfl aggregate haggregate)
    · obtain ⟨column, -, rfl⟩ := List.mem_map.mp hitem
      exact hP.groupItem (output?_of_listed hitems) column
  | source | filter | orderBy | limit | take | join | top =>
    cases h
    exact hitems

/-- Only a join changes the joins of a plan. -/
theorem joins_apply_of_ne_join {stage : Stage}
    (hjoin : ∀ kind table on, stage ≠ .join kind table on)
    (h : plan.apply catalog? stage = .ok after) : after.joins = plan.joins := by
  cases stage with
  | join kind table on => exact absurd rfl (hjoin kind table on)
  | projectAway names =>
    obtain ⟨select, rfl⟩ := eq_of_removeNames h
    rfl
  | extend assignments =>
    rw [apply_extend] at h
    cases h
    rfl
  | source | filter | project | summarize | orderBy | limit | take | top =>
    cases h
    rfl

/-- Names stand for columns in the condition of a join, whatever outputs have these names. -/
theorem joins_apply {S P : Expr → Prop} {stage : Stage}
    (hkeys : ∀ left right names, P (keysEqual left right names))
    (hsides : ∀ left right e, S e → P (nameSides left right e))
    (hstage : ∀ e ∈ stage.expressions, S e) (hjoins : ∀ join ∈ plan.joins, P join.on)
    (h : plan.apply catalog? stage = .ok after) : ∀ join ∈ after.joins, P join.on := by
  cases stage with
  | join kind table on =>
    cases h
    intro join hjoin
    rcases List.mem_append.mp hjoin with hjoin | hjoin
    · exact hjoins join hjoin
    · obtain rfl := List.mem_singleton.mp hjoin
      cases on with
      | keys names => exact hkeys plan.table table names
      | condition e => exact hsides plan.table table e (hstage e (List.mem_singleton.mpr rfl))
  | source | filter | project | projectAway | extend | summarize | orderBy | limit | take | top =>
    rwa [joins_apply_of_ne_join (by simp) h]

end Plan

/-- Leaving out names leaves the first item of each other name. -/
theorem namedItem?_filter (names : List String) (items : List SelectItem) :
    namedItem? (items.filter fun item => !item.outputName?.any names.contains) name =
      if name ∈ names then none else namedItem? items name := by
  split
  · rename_i hgone
    refine namedItem?_eq_none_iff.mpr fun item hitem hname => ?_
    have hkept := (List.mem_filter.mp hitem).2
    simp [hname, hgone] at hkept
  · rename_i hkept
    rw [namedItem?, namedItem?, List.find?_filter]
    congr 1
    funext item
    by_cases hname : item.outputName? = some name <;> simp [hname, hkept]

/-- No output has a name that was taken away, where the columns of the tables are known. -/
theorem Plan.output?_removeNames_of_mem (hitems : plan.removable? catalog? = some items)
    (happly : plan.removeNames catalog? names = .ok after) (hname : name ∈ names) :
    after.scope.output? name = none := by
  rcases removeNames_cases happly with ⟨hnone, -⟩ | ⟨items, -, rfl⟩
  · simp [hitems] at hnone
  · rw [scope_output?]
    exact (namedItem?_filter names items).trans (if_pos hname)

/-- The output of another name stays, or a column of the wildcard comes in front of it. -/
theorem Plan.output?_removeNames_of_not_mem
    (happly : plan.removeNames (some catalog) names = .ok after) (hname : name ∉ names) :
    after.scope.output? name = plan.scope.output? name ∨
      .everything ∈ plan.select.listed ∧
        (∃ columns, catalog.columns? plan.table = some columns ∧ name ∈ columns) ∧
        after.scope.output? name = some (.ofColumn name) := by
  rcases removeNames_cases happly with ⟨-, rfl⟩ | ⟨items, hitems, rfl⟩
  · exact .inl rfl
  · have hkept : namedItem? (items.filter fun item => !item.outputName?.any names.contains) name =
        namedItem? items name := (namedItem?_filter names items).trans (if_neg hname)
    simp only [scope_output?, SelectList.listed, hkept]
    rw [removable?_eq_some hitems]
    cases hcolumns : plan.wildcardColumns? (some catalog) with
    | none => exact .inl rfl
    | some columns =>
      refine (namedItem?_expanded columns plan.select.listed).imp_right ?_
      rintro ⟨hall, hmem, hfound⟩
      exact ⟨hall, ⟨columns, (columns?_of_wildcardColumns? hcolumns).2, hmem⟩, hfound⟩

end PipeSql
