import PipeSql.Proofs.Plan.Accounts
import PipeSql.Proofs.Plan.Sparing

/-! # What sort keys denote

A sort key is kept as a name, which the SELECT reads again among the outputs that the later stages
leave. Main statement: the stages behind which a sort key still denotes what its name did when its
stage was folded. -/

namespace PipeSql

open Query

/-- The sort keys of a stage that sorts. -/
def Query.Stage.sortKeys? : Stage → Option (List SortKey)
  | .orderBy keys => some keys
  | .top _ key => some [key]
  | _ => none

/-! ## Where a key stands -/

section Keys

variable {catalog : Catalog} {plan : Plan} {name : String} {item : SelectItem}

theorem Scope.name_resolveKey (scope : Scope) (column : Column) :
    (scope.resolveKey column).name = column.name := by
  unfold resolveKey
  split
  · rfl
  · split
    · rename_i inner hitem
      simpa [SelectItem.outputName?, Expr.outputName?] using outputName?_of_output? hitem
    · rfl
    · exact scope.name_qualify column

/-- A column that is no output denotes itself where the tables have it. -/
theorem Plan.denotes?_of_no_output {column : Column}
    (hcolumn : column.table = none → plan.scope.output? column.name = none) :
    plan.denotes? catalog column =
      if catalog.Provides plan.tables column then some (.column column) else none := by
  unfold denotes?
  split
  · rename_i item hnone hitem
    rw [hcolumn hnone] at hitem
    cases hitem
  · rfl

theorem Plan.denotes?_eq_self {column : Column}
    (hcolumn : column.table = none → plan.scope.output? column.name = none)
    (h : (plan.denotes? catalog column).isSome) :
    plan.denotes? catalog column = some (.column column) := by
  rw [denotes?_of_no_output hcolumn] at h ⊢
  exact if_pos (by simpa using h)

theorem Scope.resolveKey_of_output? {scope : Scope} (h : scope.output? name = some item) :
    scope.resolveKey (.bare name) = .bare name ∨
      ∃ inner, item = .value (.column inner) none ∧ scope.resolveKey (.bare name) = inner := by
  unfold resolveKey
  simp only [Column.bare, Option.isSome_none, Bool.false_eq_true, if_false, h]
  split
  · rename_i inner heq
    exact .inr ⟨inner, Option.some.inj heq, rfl⟩
  · exact .inl rfl
  · rename_i heq
    cases heq

/-- Where its stage stands, a sort key denotes what its name stands for, if anything. -/
theorem Plan.denotes?_resolveKey {column : Column}
    (h : (plan.denotes? catalog (plan.scope.resolveKey column)).isSome) :
    plan.denotes? catalog (plan.scope.resolveKey column) =
      some (plan.scope.resolveColumn true column) := by
  obtain ⟨_ | table, name⟩ := column
  · change (plan.denotes? catalog (plan.scope.resolveKey (.bare name))).isSome at h
    change plan.denotes? catalog (plan.scope.resolveKey (.bare name)) =
      some (plan.scope.resolveColumn true (.bare name))
    cases hitem : plan.scope.output? name with
    | none =>
      have hkey : plan.scope.resolveKey (.bare name) = plan.scope.qualify (.bare name) := by
        simp [Scope.resolveKey, Column.bare, hitem]
      have hcolumn : plan.scope.resolveColumn true (.bare name) =
          .column (plan.scope.qualify (.bare name)) := by
        simp [Scope.resolveColumn, Column.bare, hitem]
      rw [hkey] at h ⊢
      rw [hcolumn]
      refine denotes?_eq_self (fun _ => ?_) h
      rw [plan.scope.name_qualify]
      exact hitem
    | some item =>
      have houtput := Scope.resolveColumn_of_output? hitem
      rcases Scope.resolveKey_of_output? hitem with hkey | ⟨inner, rfl, hkey⟩
      · rw [hkey]
        exact denotes?_of_output hitem houtput
      · -- The output only copies a column, which is kept in the place of its name.
        have hname : inner.name = name := by
          rw [← hkey]
          exact plan.scope.name_resolveKey (.bare name)
        rw [hkey] at h ⊢
        obtain ⟨_ | table, _⟩ := inner
        · obtain rfl := hname
          exact denotes?_of_output hitem houtput
        · rw [← houtput]
          exact denotes?_eq_self (fun hnone => by cases hnone) h
  · exact denotes?_eq_self (fun hnone => by cases hnone) h

/-! ## Keys of accepted pipelines -/

theorem Plan.isSome_denotes?_of_provides {column : Column}
    (hprovides : catalog.Provides plan.tables column)
    (hcolumn : column.table = none → plan.scope.output? column.name = none) :
    (plan.denotes? catalog column).isSome := by
  rw [denotes?_of_no_output hcolumn, if_pos hprovides]
  rfl

/-- A key that the scope puts in the place of a name is one of the tables', or the table of it was
told by a side. -/
theorem Accounted.isSome_denotes? {done : List Stage} {column : Column}
    (h : Accounted catalog done plan.table plan.tables column) (hsome : column.table.isSome) :
    (plan.denotes? catalog column).isSome ∨ ∃ stage ∈ done, stage.Sides plan.table column := by
  cases h with
  | provided hprovides =>
    refine .inl (Plan.isSome_denotes?_of_provides hprovides fun hnone => ?_)
    simp [hnone] at hsome
  | aggregate | removed => cases hsome
  | side hstage hside => exact .inr ⟨_, hstage, hside⟩

theorem Accounts.isSome_denotes?_of_no_output {done : List Stage} {reach : Reach}
    (h : Accounts catalog done reach plan) (hreach : name ∈ reach.columns)
    (hnone : plan.scope.output? name = none) :
    (plan.denotes? catalog (plan.scope.resolveKey (.bare name))).isSome ∨ Removed done name ∨
      ∃ stage ∈ done, stage.Sides plan.table (plan.scope.resolveKey (.bare name)) := by
  cases hkey : plan.scope.keys.find? fun key => key.name == name with
  | none =>
    have hself : plan.scope.resolveKey (.bare name) = .bare name := by
      simp [Scope.resolveKey, Scope.qualify, Column.bare, hnone, hkey]
    rw [hself]
    rcases h.found name hreach with hprovides | hsome | hremoved
    · exact .inl (Plan.isSome_denotes?_of_provides hprovides fun _ => hnone)
    · simp [hnone] at hsome
    · exact .inr (.inl hremoved)
  | some key =>
    have hstored : plan.scope.resolveKey (.bare name) = key := by
      simp [Scope.resolveKey, Scope.qualify, Column.bare, hnone, hkey]
    have hmem := List.mem_of_find?_eq_some hkey
    rw [hstored]
    exact ((h.all.scope.keys key hmem).isSome_denotes?
      (Plan.isSome_table_of_mem_keys hmem)).imp_right .inr

/-- The name of an output denotes something, unless the output copies a column whose table was told
by a side. -/
theorem Accounts.isSome_denotes?_of_output {done : List Stage} {reach : Reach}
    (h : Accounts catalog done reach plan) (hitem : plan.scope.output? name = some item) :
    (plan.denotes? catalog (plan.scope.resolveKey (.bare name))).isSome ∨
      ∃ stage ∈ done, stage.Sides plan.table (plan.scope.resolveKey (.bare name)) := by
  have hnamed : (plan.denotes? catalog (.bare name)).isSome := by
    rw [Plan.denotes?_of_output hitem (Scope.resolveColumn_of_output? hitem)]
    rfl
  rcases Scope.resolveKey_of_output? hitem with hself | ⟨inner, rfl, hstored⟩
  · rw [hself]
    exact .inl hnamed
  · by_cases hinner : inner.table.isSome
    · rw [hstored]
      refine Accounted.isSome_denotes? ?_ hinner
      exact h.all.scope.items name _ hitem inner (by simp [Expr.columns])
    · have hnone : (plan.scope.resolveKey (.bare name)).table = none := by
        rw [hstored]
        simpa using hinner
      have hself : plan.scope.resolveKey (.bare name) = .bare name := by
        rw [Column.eq_bare hnone, plan.scope.name_resolveKey]
        rfl
      rw [hself]
      exact .inl hnamed

/-- In an accepted pipeline a sort key denotes something at its stage, unless its name was taken
away before or a side of a join tells its table. -/
theorem Accounts.isSome_denotes? {done : List Stage} {reach : Reach}
    (h : Accounts catalog done reach plan) {column : Column}
    (hchecked : reach.checkColumn catalog column = .ok ()) :
    (plan.denotes? catalog (plan.scope.resolveKey column)).isSome ∨ Removed done column.name ∨
      column.NamesSide ∨ ∃ stage ∈ done, stage.Sides plan.table (plan.scope.resolveKey column) := by
  by_cases hbare : column.table = none
  · have hreach := ((Reach.checkColumn_bare hbare).mp hchecked).2
    rw [Column.eq_bare hbare] at hreach ⊢
    cases hitem : plan.scope.output? column.name with
    | none => exact (h.isSome_denotes?_of_no_output hreach hitem).imp_right (Or.imp_right .inr)
    | some item =>
      exact (h.isSome_denotes?_of_output hitem).imp_right fun hside => .inr (.inr hside)
  · obtain ⟨_ | table, name⟩ := column
    · exact absurd rfl hbare
    · rcases Reach.checkColumn_qualified hchecked with hprovides | hside
      · rw [h.tables] at hprovides
        exact .inl (Plan.isSome_denotes?_of_provides hprovides fun hnone => absurd hnone hbare)
      · exact .inr (.inr (.inl hside))

end Keys

/-! ## The last sort keys -/

section LastKeys

variable {catalog : Catalog} {plan after last : Plan} {stage sort : Stage}
  {stages before behind : List Stage} {keys : List SortKey}

theorem Plan.order_apply (hsort : stage.sortKeys? = none)
    (h : plan.apply (some catalog) stage = .ok after) : after.order = plan.order := by
  cases stage with
  | projectAway names =>
    obtain ⟨select, rfl⟩ := eq_of_removeNames h
    rfl
  | extend assignments =>
    rw [apply_extend] at h
    cases h
    rfl
  | source | filter | project | summarize | limit | take | join =>
    cases h
    rfl
  | orderBy | top => cases hsort

theorem Plan.order_of_sortKeys? (hsort : sort.sortKeys? = some keys)
    (h : plan.apply (some catalog) sort = .ok after) :
    after.order = keys.map fun key => { key with column := plan.scope.resolveKey key.column } := by
  cases sort with
  | orderBy | top =>
    cases hsort
    cases h
    rfl
  | source | filter | project | projectAway | extend | summarize | limit | take | join =>
    cases hsort

/-- A sort key denotes behind later stages what its name stood for at its stage, if it denoted
anything there, and it is kept with a table or the later stages spare its name. -/
theorem Plan.denotes?_foldlM_resolveKey {column : Column}
    (hsome : (plan.denotes? catalog (plan.scope.resolveKey column)).isSome)
    (hkept : (plan.scope.resolveKey column).table.isSome ∨
      plan.SparedBy catalog column.name (plan.scope.resolveColumn true column) stages)
    (hsource : ∀ table, Stage.source table ∉ stages)
    (hfold : stages.foldlM (Plan.apply (some catalog)) plan = .ok last) :
    last.denotes? catalog (plan.scope.resolveKey column) =
      some (plan.scope.resolveColumn true column) := by
  have hfound := Plan.denotes?_resolveKey hsome
  by_cases hqualified : (plan.scope.resolveKey column).table.isSome
  · refine Plan.denotes?_of_isSome hqualified hfound ?_
    refine foldlM_keeps (P := fun result => ∀ table ∈ plan.tables, table ∈ result.tables)
      ?_ (fun _ htable => htable) hfold
    intro stage hstage middle result hmiddle happly table htable
    have hnot : ∀ other, stage ≠ .source other := by
      rintro other rfl
      exact hsource other hstage
    exact Plan.tables_subset_apply hnot happly table (hmiddle table htable)
  · have hbare : plan.scope.resolveKey column = .bare column.name := by
      rw [← plan.scope.name_resolveKey column]
      exact Column.eq_bare (by simpa using hqualified)
    rw [hbare] at hfound ⊢
    exact (hkept.resolve_left hqualified).denotes? hsource hfound hfold

theorem Reach.checkColumn_of_sortKeys? {reach next : Reach} (hsort : sort.sortKeys? = some keys)
    (h : reach.after catalog sort = .ok next) :
    ∀ key ∈ keys, reach.checkColumn catalog key.column = .ok () := by
  cases sort with
  | orderBy =>
    cases hsort
    exact (after_orderBy.mp h).1
  | top =>
    cases hsort
    simpa using (after_top.mp h).1
  | source | filter | project | projectAway | extend | summarize | limit | take | join =>
    cases hsort

/-- The sort keys of an accepted pipeline are those of its last stage that sorts. Such a key denotes
in the finished plan what its name stood for at that stage, if it is kept with a table or the later
stages spare its name; or else it denoted nothing at its stage either, since its name was taken away
before or a side of a join tells its table. -/
theorem denotes?_sortKeys_of_sparedBy (hsort : sort.sortKeys? = some keys)
    (hbehind : ∀ stage ∈ behind, stage.sortKeys? = none)
    (hnames : checkNames catalog (before ++ sort :: behind) = .ok ())
    (hlast : Plan.ofStages (some catalog) (before ++ sort :: behind) = .ok last) :
    ∃ plan, Plan.ofStages (some catalog) before = .ok plan ∧
      last.order = keys.map (fun key => { key with column := plan.scope.resolveKey key.column }) ∧
      ∀ key ∈ keys,
        (plan.scope.resolveKey key.column).table.isSome ∨
          plan.SparedBy catalog key.column.name (plan.scope.resolveColumn true key.column)
            (sort :: behind) →
        last.denotes? catalog (plan.scope.resolveKey key.column) =
            some (plan.scope.resolveColumn true key.column) ∨
          plan.denotes? catalog (plan.scope.resolveKey key.column) = none ∧
            (Removed before key.column.name ∨ key.column.NamesSide ∨
              ∃ stage ∈ before, stage.Sides plan.table (plan.scope.resolveKey key.column)) := by
  have hbefore : before ≠ [] := by
    rintro rfl
    obtain ⟨table, rest, hstages, -⟩ := Plan.ofStages_eq_ok.mp hlast
    obtain ⟨rfl, -⟩ := List.cons.inj hstages
    cases hsort
  obtain ⟨plan, hplan, hsource, hfold⟩ := (Plan.ofStages_append hbefore).mp hlast
  obtain ⟨reach, hreach⟩ := checkNames_eq_ok.mp hnames
  rw [List.foldlM_append, bind_eq_ok_iff] at hreach
  obtain ⟨middle, hmiddle, hreach⟩ := hreach
  rw [List.foldlM_cons, bind_eq_ok_iff] at hreach
  obtain ⟨next, hnext, -⟩ := hreach
  have haccounts := Accounts.of_reach hmiddle hplan
  refine ⟨plan, hplan, ?_, fun key hkey hkept => ?_⟩
  · rw [List.foldlM_cons, bind_eq_ok_iff] at hfold
    obtain ⟨sorted, happly, hrest⟩ := hfold
    have horder : last.order = sorted.order :=
      foldlM_keeps (P := fun result => result.order = sorted.order)
        (fun stage hstage _ _ hsame happly =>
          (Plan.order_apply (hbehind stage hstage) happly).trans hsame) rfl hrest
    rw [horder, Plan.order_of_sortKeys? hsort happly]
  · by_cases hsome : (plan.denotes? catalog (plan.scope.resolveKey key.column)).isSome
    · exact .inl (Plan.denotes?_foldlM_resolveKey hsome hkept hsource hfold)
    · have hchecked := Reach.checkColumn_of_sortKeys? hsort hnext key hkey
      exact .inr ⟨Option.not_isSome_iff_eq_none.mp hsome,
        (haccounts.isSome_denotes? hchecked).resolve_left hsome⟩

end LastKeys

def doubleAge : Stage :=
  .extend [⟨"doubled", .binary (.compute .multiply) (.column (.bare "age")) (.number "2")⟩]

def byDoubled : Stage :=
  .orderBy [⟨.bare "doubled", .descending⟩]

def keepNames (names : List String) : Stage :=
  .project (names.map fun name => ⟨.column (.bare name), none⟩)

theorem denotes?_sortKeys_of_sparedBy_doubled :
    ∃ plan last, Plan.ofStages (some townCatalog) [.source "people", doubleAge] = .ok plan ∧
      Plan.ofStages (some townCatalog)
        ([.source "people", doubleAge] ++ byDoubled :: [keepNames ["name", "doubled"]]) =
          .ok last ∧
      last.denotes? townCatalog (.bare "doubled") =
        some (plan.scope.resolveColumn true (.bare "doubled")) := by
  obtain ⟨last, hlast⟩ : ∃ last, Plan.ofStages (some townCatalog)
      ([.source "people", doubleAge] ++ byDoubled :: [keepNames ["name", "doubled"]]) =
        .ok last := ⟨_, rfl⟩
  obtain ⟨plan, hplan, -, hkeys⟩ :=
    denotes?_sortKeys_of_sparedBy rfl (by simp [keepNames, Stage.sortKeys?]) rfl hlast
  refine ⟨plan, last, hplan, hlast, ?_⟩
  cases hplan
  refine (hkeys _ List.mem_cons_self (.inr ⟨trivial, fun sorted hsorted => ?_⟩)).resolve_right ?_
  · cases hsorted
    exact ⟨⟨rfl, fun ⟨_, _, hkey, _⟩ => List.not_mem_nil hkey⟩, fun _ _ => trivial⟩
  · rintro ⟨hnone, -⟩
    cases hnone

/-- The output that the sort key names is not kept, and no table has a column of the name. -/
theorem not_denotes?_sortKeys_doubled :
    checkNames townCatalog [.source "people", doubleAge, byDoubled, keepNames ["name"]] = .ok () ∧
      ∃ plan last, Plan.ofStages (some townCatalog) [.source "people", doubleAge] = .ok plan ∧
        Plan.ofStages (some townCatalog)
          [.source "people", doubleAge, byDoubled, keepNames ["name"]] = .ok last ∧
        last.order = [⟨plan.scope.resolveKey (.bare "doubled"), .descending⟩] ∧
        last.denotes? townCatalog (plan.scope.resolveKey (.bare "doubled")) ≠
          some (plan.scope.resolveColumn true (.bare "doubled")) := by
  refine ⟨rfl, _, _, rfl, rfl, rfl, ?_⟩
  exact fun h => by cases h

end PipeSql
