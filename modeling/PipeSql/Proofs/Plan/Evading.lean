import PipeSql.Proofs.Plan.Provided

/-! # Names that evade the check

The check of the names refuses a name without a table that several tables provide, but it sees each
stage with the tables joined in front of it, and names rather than what the plan makes of them. Main
statement: an accepted pipeline leaves such a name only where it evades the check, in the condition
of a join, as the name of an aggregate, or at a stage for which the check took it for settled. Where
a join or a filter leaves it, no stage behind takes it back. -/

namespace PipeSql

open Query

/-! ## How a name evades the check -/

/-- Some join equates the name for the check, but not in two tables that its condition names, so
that the name comes to stand for no column of theirs. -/
def HalfEquated (stages : List Stage) (name : String) : Prop :=
  ∃ kind table expr, Stage.join kind table (.condition expr) ∈ stages ∧
    name ∈ equatedNames expr ∧ name ∉ keyNames expr

/-- Some join brings the name into reach again, from a table of its own, where it was out of reach
although an earlier table has it. -/
def Reappears (catalog : Catalog) (stages : List Stage) (name : String) : Prop :=
  ∃ before kind table on behind reach, stages = before ++ .join kind table on :: behind ∧
    before.foldlM (Reach.after catalog) .empty = .ok reach ∧ name ∉ reach.columns ∧
      catalog.Lists table name ∧ ∃ earlier ∈ reach.tables, earlier ≠ table ∧
        catalog.Lists earlier name

/-- Why a name that several tables provide is not ambiguous to the check of a stage between others:
one of them is joined behind the stage; or the name was an output, which made it unambiguous, until
it was taken away; or a join equates it by halves; or it reappeared. -/
inductive Overlooked (catalog : Catalog) (before behind : List Stage) (name : String) : Prop where
  | joined {kind table on} :
    .join kind table on ∈ behind → catalog.Lists table name → Overlooked catalog before behind name
  | removed : Removed before name → Overlooked catalog before behind name
  | halfEquated : HalfEquated before name → Overlooked catalog before behind name
  | reappears : Reappears catalog before name → Overlooked catalog before behind name

/-- A stage leaves a name in the plan as it is: one that it reads while nothing computes it and no
join equates it, or one that it writes the wildcard out to. -/
inductive Query.Stage.Leaves (catalog : Catalog) (plan : Plan) (stage : Stage) (name : String) :
    Prop where
  | read :
    stage.Shaping ∨ stage.Sifting → Column.bare name ∈ stage.columns →
      plan.scope.output? name = none → name ∉ plan.scope.keys.map Column.name →
        Leaves catalog plan stage name
  | writtenOut {names} :
    stage = .projectAway names → name ∉ names → .everything ∈ plan.select.listed →
      plan.joins = [] → catalog.Lists plan.table name → Leaves catalog plan stage name

/-- How a name gets into the plan of a pipeline without a table although several tables provide it:
in the condition of a join, whose names are checked before the shared ones become ambiguous; as that
of an aggregate, read outside select lists; or left by a stage for which it was overlooked. -/
inductive Evades (catalog : Catalog) (stages : List Stage) (name : String) : Prop where
  | condition {kind table expr} :
    .join kind table (.condition expr) ∈ stages → name ∈ expr.bareNames →
      Evades catalog stages name
  | aggregate : ReadsAggregate catalog stages name → Evades catalog stages name
  | left {before stage behind plan} :
    stages = before ++ stage :: behind → Plan.ofStages (some catalog) before = .ok plan →
      stage.Leaves catalog plan name → Overlooked catalog before behind name →
        Evades catalog stages name

/-- How a name gets into the plan of a pipeline without a table for good: a join has it in its
condition, or a filter reads it where it stands for itself. -/
inductive Stays (catalog : Catalog) (stages : List Stage) (name : String) : Prop where
  | condition {kind table expr} :
    .join kind table (.condition expr) ∈ stages → name ∈ expr.bareNames →
      Stays catalog stages name
  | filtered {before condition behind plan} :
    stages = before ++ .filter condition :: behind →
      Plan.ofStages (some catalog) before = .ok plan → .bare name ∈ condition.columns →
        plan.scope.resolveColumn false (.bare name) = .column (.bare name) →
          Stays catalog stages name

/-- A column in a plan over the tables is named with its table; or a stage left its name, which no
two of the tables have so far; or the name evades the check. -/
inductive Vetted (catalog : Catalog) (stages : List Stage) (tables : List String) :
    Column → Prop where
  | qualified {column} : column.table.isSome → Vetted catalog stages tables column
  | single {before stage behind plan name} :
    stages = before ++ stage :: behind → Plan.ofStages (some catalog) before = .ok plan →
      stage.Leaves catalog plan name → ¬ catalog.Shares tables name →
        Vetted catalog stages tables (.bare name)
  | evades {name} : Evades catalog stages name → Vetted catalog stages tables (.bare name)

/-- The columns in the plan of some stages are vetted, and the names in reach behind them that the
check does not take for ambiguous are not shared, or stand for something else than a column of any
table, or are overlooked. -/
structure Vets (catalog : Catalog) (done : List Stage) (reach : Reach) (plan : Plan) : Prop where
  checked : done.foldlM (Reach.after catalog) .empty = .ok reach
  tables : reach.tables = plan.tables
  found : ∀ name ∈ reach.columns, name ∉ reach.ambiguous → catalog.Shares plan.tables name →
    (plan.scope.output? name).isSome ∨ name ∈ plan.scope.keys.map Column.name ∨
      Overlooked catalog done [] name
  conditions : ∀ join ∈ plan.joins, ∀ name ∈ join.on.bareNames, Evades catalog done name
  all : plan.All (Vetted catalog done plan.tables)

variable {catalog : Catalog} {done stages before behind : List Stage} {stage : Stage}
  {reach next : Reach} {plan after : Plan} {tables : List String} {table name : String}

/-! ## Shared names -/

namespace Catalog

theorem not_shares_singleton : ¬ catalog.Shares [table] name := by
  rintro ⟨left, hleft, right, hright, hne, -⟩
  rw [List.mem_singleton] at hleft hright
  exact hne (hleft.trans hright.symm)

/-- Of two tables that have the name, one is not the last. -/
theorem Shares.exists_ne (h : catalog.Shares (tables ++ [table]) name) :
    ∃ earlier ∈ tables, earlier ≠ table ∧ catalog.Lists earlier name := by
  obtain ⟨left, hleft, right, hright, hne, hl, hr⟩ := h
  simp only [List.mem_append, List.mem_singleton] at hleft hright
  by_cases htable : left = table
  · have hother : right ≠ table := fun h => hne (htable.trans h.symm)
    exact ⟨right, hright.resolve_right hother, hother, hr⟩
  · exact ⟨left, hleft.resolve_right htable, htable, hl⟩

/-- A table that makes a name shared has the name. -/
theorem Shares.lists_last (h : catalog.Shares (tables ++ [table]) name)
    (hbefore : ¬ catalog.Shares tables name) : catalog.Lists table name := by
  obtain ⟨left, hleft, right, hright, hne, hl, hr⟩ := h
  simp only [List.mem_append, List.mem_singleton] at hleft hright
  rcases hleft with hleft | rfl
  · rcases hright with hright | rfl
    · exact absurd ⟨left, hleft, right, hright, hne, hl, hr⟩ hbefore
    · exact hr
  · exact hl

end Catalog

/-! ## Further stages -/

theorem HalfEquated.append (h : HalfEquated done name) (more : List Stage) :
    HalfEquated (done ++ more) name := by
  obtain ⟨kind, table, expr, hstage, hnames⟩ := h
  exact ⟨kind, table, expr, List.mem_append_left _ hstage, hnames⟩

theorem HalfEquated.prepend (h : HalfEquated done name) (before : List Stage) :
    HalfEquated (before ++ done) name := by
  obtain ⟨kind, table, expr, hstage, hnames⟩ := h
  exact ⟨kind, table, expr, List.mem_append_right _ hstage, hnames⟩

theorem Reappears.append (h : Reappears catalog done name) (more : List Stage) :
    Reappears catalog (done ++ more) name := by
  obtain ⟨before, kind, table, on, behind, reach, rfl, h⟩ := h
  exact ⟨before, kind, table, on, behind ++ more, reach, by simp, h⟩

theorem Overlooked.append_before (h : Overlooked catalog before behind name) (more : List Stage) :
    Overlooked catalog (before ++ more) behind name := by
  cases h with
  | joined hstage hlists => exact .joined hstage hlists
  | removed h => exact .removed (h.append more)
  | halfEquated h => exact .halfEquated (h.append more)
  | reappears h => exact .reappears (h.append more)

theorem Overlooked.append_behind (h : Overlooked catalog before behind name) (more : List Stage) :
    Overlooked catalog before (behind ++ more) name := by
  cases h with
  | joined hstage hlists => exact .joined (List.mem_append_left _ hstage) hlists
  | removed h => exact .removed h
  | halfEquated h => exact .halfEquated h
  | reappears h => exact .reappears h

theorem Evades.append (h : Evades catalog done name) (more : List Stage) :
    Evades catalog (done ++ more) name := by
  cases h with
  | condition hstage hname => exact .condition (List.mem_append_left _ hstage) hname
  | aggregate h => exact .aggregate (h.append more)
  | left hstages hplan hleaves hoverlooked =>
    exact .left (by simp [hstages]) hplan hleaves (hoverlooked.append_behind more)

/-- Behind a further stage a name is single still, or the stage joins a table that has it too. -/
theorem Vetted.append {column : Column} (h : Vetted catalog done tables column)
    (hstage : ∀ table, stage ≠ .source table) :
    Vetted catalog (done ++ [stage]) (tables ++ stage.tables) column := by
  cases h with
  | qualified hsome => exact .qualified hsome
  | evades h => exact .evades (h.append [stage])
  | @single before reader behind plan name hstages hplan hleaves hsingle =>
    have hsplit : done ++ [stage] = before ++ reader :: (behind ++ [stage]) := by simp [hstages]
    by_cases hshared : catalog.Shares (tables ++ stage.tables) name
    · refine .evades (.left hsplit hplan hleaves ?_)
      cases stage with
      | source table => exact absurd rfl (hstage table)
      | join kind table on =>
        exact .joined (List.mem_append_right _ (List.mem_singleton_self _))
          (hshared.lists_last hsingle)
      | filter | project | projectAway | extend | summarize | orderBy | limit | take | top =>
        simp only [Stage.tables, List.append_nil] at hshared
        exact absurd hshared hsingle
    · exact .single hsplit hplan hleaves hshared

namespace Vets

theorem source {columns : List String} (hcolumns : catalog.columns? table = some columns) :
    Vets catalog [.source table] ⟨[table], columns, []⟩ (.ofTable table) where
  checked := by
    simp [Reach.after_source, Reach.empty, hcolumns]
  tables := rfl
  found _ _ _ hshared := absurd hshared Catalog.not_shares_singleton
  conditions := by simp [Plan.ofTable]
  all := .ofTable table

/-- What an accepted stage brings into the plan is vetted. -/
theorem vetted (h : Vets catalog done reach plan)
    (hdone : Plan.ofStages (some catalog) done = .ok plan) {column : Column}
    (hbrings : stage.Brings catalog reach plan column) :
    Vetted catalog (done ++ [stage]) (plan.tables ++ stage.tables) column := by
  cases hbrings with
  | provided hsome _ => exact .qualified hsome
  | side hside => exact .qualified hside.isSome_table
  | aggregate hsifting hcolumn haggregate =>
    exact .evades (.aggregate ⟨done, stage, [], plan, _, rfl, hsifting, hcolumn, hdone, haggregate⟩)
  | @free name hplace hcolumn hnone hkeys hreach hclear =>
    have hleaves : stage.Leaves catalog plan name := .read hplace hcolumn hnone hkeys
    by_cases hshared : catalog.Shares plan.tables name
    · rcases h.found name hreach hclear hshared with hsome | hkey | hoverlooked
      · simp [hnone] at hsome
      · exact absurd hkey hkeys
      · exact .evades (.left rfl hdone hleaves hoverlooked)
    · have htables : stage.tables = [] := by
        rcases hplace with hshaping | hsifting
        · cases hshaping <;> rfl
        · cases hsifting <;> rfl
      exact .single rfl hdone hleaves (by simpa [htables] using hshared)
  | writtenOut hstage hkept hall hjoins hlists =>
    have htables : plan.tables ++ stage.tables = [plan.table] := by
      simp [Plan.tables, hjoins, hstage, Stage.tables]
    rw [htables]
    exact .single rfl hdone (.writtenOut hstage hkept hall hjoins hlists)
      Catalog.not_shares_singleton

/-- A stage that joins nothing keeps the tables, and so what is shared. -/
theorem step_of_ne_join (hdone : Plan.ofStages (some catalog) done = .ok plan)
    (hstage : ∀ table, stage ≠ .source table) (hjoin : ∀ kind table on, stage ≠ .join kind table on)
    (h : Vets catalog done reach plan) (hnext : reach.after catalog stage = .ok next)
    (happly : plan.apply (some catalog) stage = .ok after) :
    Vets catalog (done ++ [stage]) next after := by
  obtain ⟨htable, htables⟩ := Plan.tables_apply hstage happly
  have hjoins := Plan.joins_apply_of_ne_join hjoin happly
  have hkeys : after.scope.keys = plan.scope.keys := by simp only [Plan.scope, hjoins, htable]
  have hnone := Stage.tables_eq_nil hstage hjoin
  refine ⟨?_, by rw [Reach.tables_after hnext, h.tables, htables], ?_, ?_, ?_⟩
  · rw [List.foldlM_append, bind_eq_ok_iff]
    exact ⟨reach, h.checked, by simpa using hnext⟩
  · intro name hname hclear hshared
    rw [hkeys]
    rw [htables, hnone, List.append_nil] at hshared
    rcases Reach.mem_columns_after hstage hnext happly hname with
      hsome | hpasses | ⟨table, hmem, -⟩
    · exact .inl hsome
    · have hclear' : name ∉ reach.ambiguous := fun h => hclear (hpasses.ambiguous h)
      rcases h.found name hpasses.columns hclear' hshared with hsome | hkey | hoverlooked
      · rcases hpasses.output hsome with hsome | hremoved
        · exact .inl hsome
        · exact .inr (.inr (.removed (hremoved.prepend done)))
      · exact .inr (.inl hkey)
      · exact .inr (.inr (hoverlooked.append_before [stage]))
    · simp [hnone] at hmem
  · intro join hmem name hname
    rw [hjoins] at hmem
    exact (h.conditions join hmem name hname).append [stage]
  · rw [htables]
    exact (h.all.imp fun column hcolumn => hcolumn.append hstage).apply hnext happly
      fun column hbrings => h.vetted hdone hbrings

/-- A name that is in reach in front of a join and behind it without being ambiguous, though the
joined table has it, is a key of the join or equated by halves. -/
theorem key_or_halfEquated {kind : JoinKind} {on : JoinCondition}
    (hnext : reach.after catalog (.join kind table on) = .ok next) (hreach : name ∈ reach.columns)
    (hlists : catalog.Lists table name) (hclear : name ∉ next.ambiguous) :
    name ∈ on.keyNames ∨ HalfEquated [.join kind table on] name := by
  obtain ⟨columns, hcolumns, rfl⟩ := Reach.eq_of_after_join hnext
  obtain ⟨listed, hlisted, hname⟩ := hlists
  obtain rfl : columns = listed := Option.some.inj (hcolumns.symm.trans hlisted)
  have hequated : name ∈ on.equated := by
    by_contra hnot
    refine hclear (List.mem_append_right _ ?_)
    simpa [hnot] using ⟨hname, hreach⟩
  cases on with
  | keys names => exact .inl hequated
  | condition expr =>
    by_cases hkey : name ∈ keyNames expr
    · exact .inl hkey
    · exact .inr ⟨kind, table, expr, List.mem_singleton_self _, hequated, hkey⟩

theorem join (hdone : Plan.ofStages (some catalog) done = .ok plan) {kind : JoinKind}
    {on : JoinCondition} (h : Vets catalog done reach plan)
    (hnext : reach.after catalog (.join kind table on) = .ok next)
    (happly : plan.apply (some catalog) (.join kind table on) = .ok after) :
    Vets catalog (done ++ [.join kind table on]) next after := by
  have htables := (Plan.tables_apply (by simp) happly).2
  have hkeys := Plan.names_keys_join happly
  have houtput : ∀ name, after.scope.output? name = plan.scope.output? name := by
    intro name
    cases happly
    rfl
  refine ⟨?_, by rw [Reach.tables_after hnext, h.tables, htables], ?_, ?_, ?_⟩
  · rw [List.foldlM_append, bind_eq_ok_iff]
    exact ⟨reach, h.checked, by simpa using hnext⟩
  · intro name hname hclear hshared
    rw [hkeys, houtput]
    rw [htables] at hshared
    by_cases hreach : name ∈ reach.columns
    · by_cases hlists : catalog.Lists table name
      · rcases key_or_halfEquated hnext hreach hlists hclear with hkey | hhalf
        · exact .inr (.inl (List.mem_append_right _ hkey))
        · exact .inr (.inr (.halfEquated (hhalf.prepend done)))
      · have hearlier : catalog.Shares plan.tables name := by
          by_contra hnot
          exact hlists (hshared.lists_last hnot)
        have hclear' : name ∉ reach.ambiguous := by
          obtain ⟨columns, -, rfl⟩ := Reach.eq_of_after_join hnext
          exact fun h => hclear (List.mem_append_left _ h)
        rcases h.found name hreach hclear' hearlier with hsome | hkey | hoverlooked
        · exact .inl hsome
        · exact .inr (.inl (List.mem_append_left _ hkey))
        · exact .inr (.inr (hoverlooked.append_before _))
    · obtain ⟨columns, hcolumns, rfl⟩ := Reach.eq_of_after_join hnext
      have hmem : name ∈ columns := (List.mem_append.mp hname).resolve_left hreach
      obtain ⟨earlier, hearlier, hne, hlists⟩ := hshared.exists_ne
      refine .inr (.inr (.reappears ⟨done, kind, table, on, [], reach, rfl, h.checked, hreach,
        ⟨columns, hcolumns, hmem⟩, earlier, ?_, hne, hlists⟩))
      rwa [h.tables]
  · intro join hmem name hname
    cases happly
    rcases List.mem_append.mp hmem with hmem | hmem
    · exact (h.conditions join hmem name hname).append _
    · obtain rfl := List.mem_singleton.mp hmem
      cases on with
      | keys names =>
        rw [bareNames_keysEqual] at hname
        cases hname
      | condition expr =>
        rw [bareNames_nameSides] at hname
        exact .condition (List.mem_append_right _ (List.mem_singleton_self _)) hname
  · rw [htables]
    exact (h.all.imp fun column hcolumn => hcolumn.append (by simp)).apply hnext happly
      fun column hbrings => h.vetted hdone hbrings

theorem step (hdone : Plan.ofStages (some catalog) done = .ok plan)
    (hstage : ∀ table, stage ≠ .source table) (h : Vets catalog done reach plan)
    (hnext : reach.after catalog stage = .ok next)
    (happly : plan.apply (some catalog) stage = .ok after) :
    Vets catalog (done ++ [stage]) next after := by
  by_cases hjoin : ∃ kind table on, stage = .join kind table on
  · obtain ⟨kind, table, on, rfl⟩ := hjoin
    exact h.join hdone hnext happly
  · exact h.step_of_ne_join hdone hstage
      (fun kind table on heq => hjoin ⟨kind, table, on, heq⟩) hnext happly

/-- All columns in the plan of an accepted pipeline are vetted. -/
theorem of_reach (hreach : stages.foldlM (Reach.after catalog) .empty = .ok reach)
    (hplan : Plan.ofStages (some catalog) stages = .ok plan) : Vets catalog stages reach plan :=
  accepted_induction (fun _ _ => source) step hreach hplan

end Vets

/-! ## Names that stay -/

namespace Plan

variable {catalog? : Option Catalog} {rest : List Stage} {expr : Expr}

/-- No stage takes a filter back. -/
theorem filters_subset_apply (h : plan.apply catalog? stage = .ok after) :
    ∀ expr ∈ plan.filters, expr ∈ after.filters := by
  cases stage with
  | filter condition =>
    cases h
    exact fun expr hexpr => List.mem_append_left _ hexpr
  | projectAway names =>
    obtain ⟨select, rfl⟩ := eq_of_removeNames h
    exact fun _ hexpr => hexpr
  | extend assignments =>
    rw [apply_extend] at h
    cases h
    exact fun _ hexpr => hexpr
  | source | project | summarize | orderBy | limit | take | join | top =>
    cases h
    exact fun _ hexpr => hexpr

/-- No stage takes a join back. -/
theorem joins_subset_apply (h : plan.apply catalog? stage = .ok after) :
    ∀ join ∈ plan.joins, join ∈ after.joins := by
  by_cases hjoin : ∃ kind table on, stage = .join kind table on
  · obtain ⟨kind, table, on, rfl⟩ := hjoin
    cases h
    exact fun join hmem => List.mem_append_left _ hmem
  · rw [joins_apply_of_ne_join (fun kind table on heq => hjoin ⟨kind, table, on, heq⟩) h]
    exact fun join hmem => hmem

theorem mem_bareNames_of_filter (h : rest.foldlM (apply catalog?) plan = .ok after)
    (hexpr : expr ∈ plan.filters) (hname : name ∈ expr.bareNames) : name ∈ after.bareNames := by
  have hkept : expr ∈ after.filters := by
    refine foldlM_keeps (P := fun plan => expr ∈ plan.filters) ?_ hexpr h
    exact fun _ _ _ _ hmem happly => filters_subset_apply happly expr hmem
  have hcomputed : expr ∈ after.computed :=
    List.mem_append_left _ (List.mem_append_right _ hkept)
  exact List.mem_flatMap.mpr ⟨expr, mem_expressions.mpr (.inl hcomputed), hname⟩

theorem mem_bareNames_of_join (h : rest.foldlM (apply catalog?) plan = .ok after) {join : Join}
    (hjoin : join ∈ plan.joins) (hname : name ∈ join.on.bareNames) : name ∈ after.bareNames := by
  have hkept : join ∈ after.joins := by
    refine foldlM_keeps (P := fun plan => join ∈ plan.joins) ?_ hjoin h
    exact fun _ _ _ _ hmem happly => joins_subset_apply happly join hmem
  exact List.mem_flatMap.mpr ⟨join.on, mem_expressions.mpr (.inr ⟨join, hkept, rfl⟩), hname⟩

end Plan

theorem Stays.mem_bareNames (h : Stays catalog stages name)
    (hplan : Plan.ofStages (some catalog) stages = .ok plan) : name ∈ plan.bareNames := by
  cases h with
  | @condition kind table expr hstage hname =>
    obtain ⟨before, behind, rfl⟩ := List.append_of_mem hstage
    obtain ⟨front, after, -, happly, hrest⟩ := Plan.exists_of_ofStages_between (by simp) hplan
    cases happly
    refine Plan.mem_bareNames_of_join hrest
      (List.mem_append_right _ (List.mem_singleton_self _)) ?_
    rwa [bareNames_nameSides]
  | @filtered before condition behind front hstages hfront hcolumn hbare =>
    subst hstages
    obtain ⟨front', after, hfront', happly, hrest⟩ :=
      Plan.exists_of_ofStages_between (by simp) hplan
    obtain rfl : front = front' := Except.ok.inj (hfront.symm.trans hfront')
    cases happly
    refine Plan.mem_bareNames_of_filter hrest
      (List.mem_append_right _ (List.mem_singleton_self _)) ?_
    rw [Expr.mem_bareNames, Scope.resolve, Expr.columns_mapColumns, List.mem_flatMap]
    exact ⟨.bare name, hcolumn, by simp [hbare, Expr.columns]⟩

/-! ## Names that are left -/

/-- The plan of an accepted pipeline leaves no name without a table that two of its tables provide,
exactly when it leaves none of those that evade the check. It leaves a name for certain that stands
in the condition of a join, or that a filter reads where it stands for itself. -/
theorem settles_bareNames_iff (hnames : checkNames catalog stages = .ok ())
    (hplan : Plan.ofStages (some catalog) stages = .ok plan) :
    (catalog.Settles plan.tables plan.bareNames ↔
        ∀ name ∈ plan.bareNames, Evades catalog stages name →
          ¬ catalog.Shares plan.tables name) ∧
      ∀ name, Stays catalog stages name → name ∈ plan.bareNames := by
  obtain ⟨reach, hreach⟩ := checkNames_eq_ok.mp hnames
  have h := Vets.of_reach hreach hplan
  refine ⟨⟨?_, ?_⟩, fun name hstays => hstays.mem_bareNames hplan⟩
  · exact fun hsettles name hname _ => hsettles name hname
  · intro hevading name hname hshared
    obtain ⟨expr, hexpr, hbare⟩ := List.mem_flatMap.mp hname
    rcases Plan.mem_expressions.mp hexpr with hcomputed | ⟨join, hjoin, rfl⟩
    · cases h.all.computed hcomputed (.bare name) (Expr.mem_bareNames.mp hbare) with
      | qualified hsome => cases hsome
      | single _ _ _ hsingle => exact hsingle hshared
      | evades h => exact hevading name hname h hshared
    · exact hevading name hname (h.conditions join hjoin name hbare) hshared

/-- With the filters behind the join, no shared name is left. With one ahead of it, some name evades
the check. -/
theorem settles_bareNames_iff_filtersBehind :
    (∃ plan, Plan.ofStages (some townCatalog)
        [.source "people", cityJoin, osloFilter, moreThanThree (.bare "age")] = .ok plan ∧
      townCatalog.Settles plan.tables plan.bareNames) ∧
    ∃ name, Evades townCatalog [.source "people", osloFilter, cityJoin] name := by
  obtain ⟨plan, hplan⟩ : ∃ plan, Plan.ofStages (some townCatalog)
      [.source "people", cityJoin, osloFilter, moreThanThree (.bare "age")] = .ok plan := ⟨_, rfl⟩
  obtain ⟨plan', hplan'⟩ : ∃ plan, Plan.ofStages (some townCatalog)
      [.source "people", osloFilter, cityJoin] = .ok plan := ⟨_, rfl⟩
  have hsingle : ∀ name ∈ plan.bareNames, ¬ townCatalog.Shares plan.tables name := by
    cases hplan
    decide
  have hshared : ¬ townCatalog.Settles plan'.tables plan'.bareNames := by
    cases hplan'
    decide
  refine ⟨⟨plan, hplan, (settles_bareNames_iff rfl hplan).1.mpr fun name hname _ =>
    hsingle name hname⟩, ?_⟩
  by_contra hnone
  exact hshared ((settles_bareNames_iff rfl hplan').1.mpr fun name _ hevades =>
    absurd ⟨name, hevades⟩ hnone)

/-- Both joined tables have the filtered column. Its name is read before the join, which does not
change it any more. -/
theorem not_settles_filterAhead :
    checkNames townCatalog [.source "people", osloFilter, cityJoin] = .ok () ∧
      ∃ plan, Plan.ofStages (some townCatalog) [.source "people", osloFilter, cityJoin] =
          .ok plan ∧
        ¬ townCatalog.Settles plan.tables plan.bareNames :=
  ⟨rfl, _, rfl, by decide⟩

end PipeSql
