import PipeSql.Proofs.Rows.Inlining
import PipeSql.Proofs.Rows.Table

/-! # Inlining keeps the meaning of a group

A plan groups the rows of its source. Main statement: the groups are those that the stages form of
the rows they made, and the select list gives each of them the row that the stages make of it. -/

namespace PipeSql

open Query

variable {V : Type*} {M : Meaning V}

section Summary

variable {scope : Scope} {items : List SelectItem} {names : List String}
  {group : List (Row V)} {row : Row V} {arrive : Row V → Row V}

/-- What a column stands for looks at one row only, when no item of the list does otherwise. -/
theorem scalar_resolveColumn (hscope : scope.Reads items)
    (hitems : ∀ item ∈ items, item.RowItem Expr.Scalar) (inSelect : Bool) (column : Column) :
    (scope.resolveColumn inSelect column).Scalar := by
  refine inlinable_scalar.resolveColumn (fun name item hitem => ?_) inSelect column
  rw [hscope.output] at hitem
  exact hitems item (mem_of_namedItem? hitem)

theorem value?_resolveColumn_of_shows (hscope : scope.Reads items)
    (hitems : ∀ item ∈ items, item.RowItem Expr.Scalar)
    (hshows : ∀ row ∈ group, Shows M [row] row items (arrive row) names)
    {inSelect : Bool} {column : Column} (hbare : column.table = none) (hname : column.name ∈ names)
    (hrow : row ∈ group) :
    (scope.resolveColumn inSelect column).value? M group row = (arrive row).column? column := by
  rw [(scalar_resolveColumn hscope hitems inSelect column).value?_eq]
  refine (hshows row hrow).value?_resolveColumn hscope (.inr fun item hitem => ?_) hbare hname
  exact (hitems item hitem).imp fun _ _ => trivial

/-- A scalar expression has the same value in a row of a group as in the row that the stages made
of it. -/
theorem value?_resolve_of_shows (hscope : scope.Reads items)
    (hitems : ∀ item ∈ items, item.RowItem Expr.Scalar)
    (hshows : ∀ row ∈ group, Shows M [row] row items (arrive row) names)
    {inSelect : Bool} {expr : Expr} (hexpr : expr.Scalar)
    (hbare : ∀ c ∈ expr.columns, c.table = none) (hnames : ∀ c ∈ expr.columns, c.name ∈ names)
    (group' : List (Row V)) (hrow : row ∈ group) :
    (scope.resolve inSelect expr).value? M group row = expr.value? M group' (arrive row) := by
  refine Expr.value?_mapColumns (.inl hexpr) fun c hc => ?_
  exact value?_resolveColumn_of_shows hscope hitems hshows (hbare c hc) (hnames c hc) hrow

/-- The arguments of an aggregate, in all rows of a group. -/
theorem value?_aggregate_of_shows (hscope : scope.Reads items)
    (hitems : ∀ item ∈ items, item.RowItem Expr.Scalar)
    (hshows : ∀ row ∈ group, Shows M [row] row items (arrive row) names)
    {arguments : List Expr} (hscalar : ∀ e ∈ arguments, e.Scalar)
    (hbare : ∀ e ∈ arguments, ∀ c ∈ e.columns, c.table = none)
    (hnames : ∀ e ∈ arguments, ∀ c ∈ e.columns, c.name ∈ names)
    (function : String) (row row' : Row V) :
    (Expr.aggregate function (arguments.map (scope.resolve false))).value? M group row =
      (Expr.aggregate function arguments).value? M (group.map arrive) row' ∧
    ((Expr.aggregate function arguments).value? M (group.map arrive) row').isSome := by
  constructor
  · rw [Expr.value?, Expr.value?, List.mapM_map]
    refine congrArg (Option.map _) (mapM_congr fun member hmember => Expr.values?_map ?_)
    intro e he
    exact value?_resolve_of_shows hscope hitems hshows (hscalar e he) (hbare e he) (hnames e he) _
      hmember
  · rw [Expr.value?, Option.isSome_map]
    refine isSome_mapM fun member hmember => Expr.isSome_values? fun e he => ?_
    obtain ⟨source, hsource, rfl⟩ := List.mem_map.mp hmember
    rw [(hscalar e he).value?_eq]
    exact (hshows source hsource).isSome_valueIn? (hbare e he) (hnames e he)

/-- The aggregates of a group have the values that the plan gives them, in any row. -/
theorem exists_results (hscope : scope.Reads items)
    (hitems : ∀ item ∈ items, item.RowItem Expr.Scalar)
    (hshows : ∀ row ∈ group, Shows M [row] row items (arrive row) names)
    {aggregates : List Aggregate} (hscalar : ∀ a ∈ aggregates, ∀ e ∈ a.arguments, e.Scalar)
    (hbare : ∀ a ∈ aggregates, ∀ e ∈ a.arguments, ∀ c ∈ e.columns, c.table = none)
    (hnames : ∀ a ∈ aggregates, ∀ e ∈ a.arguments, ∀ c ∈ e.columns, c.name ∈ names) :
    ∃ results, aggregates.mapM (fun a =>
        ((Expr.aggregate a.function a.arguments).value? M (group.map arrive) .empty).map
          (some a.label, ·)) = some results ∧
      List.Forall₂ (fun a output => output.1 = some a.label ∧ ∀ row,
        (Expr.aggregate a.function (a.arguments.map (scope.resolve false))).value? M group row =
          some output.2) aggregates results := by
  refine exists_mapM_forall₂ fun a ha => ?_
  have hvalue := value?_aggregate_of_shows hscope hitems hshows (hscalar a ha) (hbare a ha)
    (hnames a ha) a.function
  obtain ⟨value, hsome⟩ := Option.isSome_iff_exists.mp (hvalue .empty .empty).2
  exact ⟨(some a.label, value), by simp [hsome], rfl, fun row =>
    (hvalue row .empty).1.trans hsome⟩

/-- The columns that a group is formed by have the values that the plan gives them, in each row. -/
theorem exists_keys (hscope : scope.Reads items)
    (hitems : ∀ item ∈ items, item.RowItem Expr.Scalar)
    (hshows : ∀ row ∈ group, Shows M [row] row items (arrive row) names)
    {columns : List Column} (hcolumns : ∀ c ∈ columns, c.table = none ∧ c.name ∈ names)
    (hgroup : columns ≠ [] → group ≠ [])
    (hkeys : ∀ a ∈ group, ∀ b ∈ group, ∀ c ∈ columns, (arrive a).column? c = (arrive b).column? c) :
    ∃ keys, columns.mapM (fun c =>
        ((group.map arrive).head?.bind fun row => row.column? c).map (some c.name, ·)) =
          some keys ∧
      List.Forall₂ (fun c output => output.1 = some c.name ∧ columns ≠ [] ∧ ∀ row ∈ group,
        (scope.resolveColumn false c).value? M group row = some output.2) columns keys := by
  refine exists_mapM_forall₂ fun c hc => ?_
  obtain ⟨hb, hn⟩ := hcolumns c hc
  obtain ⟨first, rest, hfirst⟩ := List.exists_cons_of_ne_nil (hgroup (List.ne_nil_of_mem hc))
  have hmem : first ∈ group := by simp [hfirst]
  obtain ⟨value, hvalue⟩ := Option.isSome_iff_exists.mp ((hshows first hmem).defined c.name hn)
  have hcolumn : (arrive first).column? c = some value := by rw [Row.column?, hb, ← hvalue]
  refine ⟨(some c.name, value), by simp [hfirst, hcolumn], rfl, List.ne_nil_of_mem hc, ?_⟩
  intro row hrow
  rw [value?_resolveColumn_of_shows hscope hitems hshows hb hn hrow, ← hcolumn]
  exact hkeys row hrow first hmem c hc

/-- The items of `summarize` show the row that it makes of a group, in every row of the group. -/
theorem Shows.summarize (hscope : scope.Reads items)
    (hitems : ∀ item ∈ items, item.RowItem Expr.Scalar)
    (hshows : ∀ row ∈ group, Shows M [row] row items (arrive row) names)
    {aggregates : List Aggregate} {columns : List Column}
    (hscalar : ∀ a ∈ aggregates, ∀ e ∈ a.arguments, e.Scalar)
    (hbare : ∀ a ∈ aggregates, ∀ e ∈ a.arguments, ∀ c ∈ e.columns, c.table = none)
    (hnames : ∀ a ∈ aggregates, ∀ e ∈ a.arguments, ∀ c ∈ e.columns, c.name ∈ names)
    (hcolumns : ∀ c ∈ columns, c.table = none ∧ c.name ∈ names)
    (hgroup : columns ≠ [] → group ≠ [])
    (hkeys : ∀ a ∈ group, ∀ b ∈ group, ∀ c ∈ columns, (arrive a).column? c = (arrive b).column? c) :
    ∃ summary, Row.summary? M aggregates columns (group.map arrive) = some summary ∧
      ∀ row, (group ≠ [] → row ∈ group) → Shows M group row
        ((aggregates.map fun a => SelectItem.aggregate
          { a with arguments := a.arguments.map (scope.resolve false) }) ++
            columns.map (Plan.groupItem scope)) summary
        (aggregates.map Aggregate.label ++ columns.map Column.name) := by
  obtain ⟨results, hresults, hresult⟩ := exists_results hscope hitems hshows hscalar hbare hnames
  obtain ⟨keys, hkeysEq, hkey⟩ := exists_keys hscope hitems hshows hcolumns hgroup hkeys
  refine ⟨Row.ofOutputs (results ++ keys), ?_, fun row hrow => ⟨?_, ?_⟩⟩
  · unfold Row.summary?
    rw [hresults, hkeysEq]
    rfl
  · refine outputOf?_eq_ofOutputs (List.rel_append ?_ ?_)
    · refine List.forall₂_map_left_iff.mpr (hresult.imp fun a output hr => ?_)
      exact ⟨by simp, hr.1.symm, hr.2 row⟩
    · refine List.forall₂_map_left_iff.mpr (hkey.imp fun c output hr => ?_)
      obtain ⟨label, hitem, hname⟩ := groupItem_eq scope c
      refine ⟨by simp [hitem], hname.trans hr.1.symm, ?_⟩
      rw [hitem]
      exact hr.2.2 row (hrow (hgroup hr.2.1))
  · intro name hname
    have hlabels : List.Forall₂ (· = ·) ((aggregates.map Aggregate.label ++
        columns.map Column.name).map some) ((results ++ keys).map Prod.fst) := by
      rw [List.forall₂_map_left_iff, List.forall₂_map_right_iff]
      refine List.rel_append ?_ ?_
      · exact List.forall₂_map_left_iff.mpr (hresult.imp fun _ _ hr => hr.1.symm)
      · exact List.forall₂_map_left_iff.mpr (hkey.imp fun _ _ hr => hr.1.symm)
    rw [List.forall₂_eq_eq_eq] at hlabels
    refine isSome_ofOutputs ?_
    rw [← hlabels]
    exact List.mem_map_of_mem hname

end Summary

/-! ## Plans with one grouping -/

/-- The rows that pass all filters of a plan. -/
def Plan.kept (M : Meaning V) (plan : Plan) (rows : List (Row V)) : List (Row V) :=
  rows.filter fun row => ∀ filter ∈ plan.filters, filter.Passes M row

section Source

variable {catalog : Catalog} {catalog? : Option Catalog} {table : String} {columns : List String}
  {reach next : Reach} {plan after : Plan} {rows : List (Row V)} {stages : List Stage}

/-- Stages without a grouping, on all rows of the source: each row that passes the filters arrives
as a row which the select list shows, and the others are dropped. -/
theorem exists_arrive (hstages : ∀ stage ∈ stages, stage.RowWise)
    (hbare : ∀ stage ∈ stages, stage.Bare)
    (hcheck : stages.foldlM (Reach.after catalog) ⟨[table], columns, []⟩ = .ok reach)
    (hfold : stages.foldlM (Plan.apply catalog?) (.ofTable table) = .ok plan)
    (hrows : ∀ row ∈ rows, row.Covers columns) :
    ∃ arrive : Row V → Row V,
      (∀ row ∈ rows, follow? M row stages =
        some (if ∀ filter ∈ plan.filters, filter.Passes M row then some (arrive row) else none)) ∧
      ∀ row ∈ plan.kept M rows,
        Shows M [row] row plan.select.listed (arrive row) reach.columns := by
  have hsource := fun row hrow => Shows.follow_source (M := M) hstages hbare hcheck hfold
    (hrows row hrow)
  refine ⟨fun row => (follow? M row stages).join.getD row, fun row hrow => ?_, fun row hrow => ?_⟩
  · obtain ⟨outcome, hfollow, hkept, -⟩ := hsource row hrow
    rw [hfollow]
    cases outcome with
    | none => rw [if_neg fun hall => by simpa using hkept.mpr hall]
    | some final =>
      rw [if_pos (hkept.mp rfl)]
      simp [hfollow]
  · obtain ⟨hmem, hpasses⟩ := List.mem_filter.mp hrow
    obtain ⟨outcome, hfollow, hkept, hshows⟩ := hsource row hmem
    obtain ⟨final, rfl⟩ := Option.isSome_iff_exists.mp (hkept.mpr (by simpa using hpasses))
    simpa [hfollow] using hshows final rfl

/-- The row of a group behind `summarize`, and what the later stages make of it. -/
theorem exists_summary {aggregates : List Aggregate} {groups : List Column} {group : List (Row V)}
    {arrive : Row V → Row V} {later : List Stage}
    (hlater : ∀ stage ∈ later, stage.Shaping)
    (hbare : ∀ stage ∈ .summarize aggregates groups :: later, stage.Bare)
    (hscalar : ∀ stage ∈ .summarize aggregates groups :: later, stage.Scalar)
    (hcheck : (.summarize aggregates groups :: later).foldlM (Reach.after catalog) reach = .ok next)
    (hfold : (.summarize aggregates groups :: later).foldlM (Plan.apply catalog?) plan = .ok after)
    (hjoins : plan.joins = [])
    (hitems : ∀ item ∈ plan.select.listed, item.RowItem Expr.Scalar)
    (hshows : ∀ row ∈ group, Shows M [row] row plan.select.listed (arrive row) reach.columns)
    (hgroup : groups ≠ [] → group ≠ [])
    (hkeys : ∀ a ∈ group, ∀ b ∈ group, ∀ c ∈ groups, (arrive a).column? c = (arrive b).column? c) :
    ∃ summary, Row.summary? M aggregates groups (group.map arrive) = some summary ∧
      ∃ final, follow? M summary later = some (some final) ∧
        ∀ row, (group ≠ [] → row ∈ group) →
          Shows M group row after.select.listed final next.columns := by
  have hscope := Plan.scope_reads hjoins
  rw [List.foldlM_cons, bind_eq_ok_iff] at hcheck hfold
  obtain ⟨reach', hsummarize, hcheck⟩ := hcheck
  obtain ⟨hexprs, -, rfl⟩ := Reach.after_summarize.mp hsummarize
  obtain ⟨plan', happly, hfold⟩ := hfold
  have hb : ∀ a ∈ aggregates, ∀ e ∈ a.arguments, ∀ c ∈ e.columns, c.table = none :=
    fun a ha e he => (hbare _ List.mem_cons_self).of_mem_expression
      (List.mem_flatMap.mpr ⟨a, ha, he⟩)
  have hc := Reach.names_of_summarize (hbare _ List.mem_cons_self) hsummarize
  obtain ⟨summary, hsummary, hshown⟩ := Shows.summarize hscope hitems hshows
    (fun a ha e he => hscalar _ List.mem_cons_self e (List.mem_flatMap.mpr ⟨a, ha, he⟩)) hb
    (fun a ha e he => Reach.names_of_checkExpr (hexprs a ha e he) (hb a ha e he)) hc hgroup hkeys
  -- each row of the group follows the later stages to the same row
  have hfinal : ∀ row, (group ≠ [] → row ∈ group) → ∃ final,
      follow? M summary later = some (some final) ∧
        Shows M group row after.select.listed final next.columns := by
    intro row hrow
    have hjoins' : plan'.joins = [] := by
      cases happly
      exact hjoins
    have hshows' : Shows M group row plan'.select.listed summary
        (aggregates.map Aggregate.label ++ groups.map Column.name) := by
      cases happly
      exact hshown row hrow
    obtain ⟨added, outcome, hadded, hfollow, hkept, hshows⟩ := hshows'.follow_stages
      (fun stage hstage => .shaping (hlater stage hstage))
      (fun stage hstage => hbare stage (List.mem_cons_of_mem _ hstage))
      (.inl fun stage hstage => hscalar stage (List.mem_cons_of_mem _ hstage)) (.inl hlater)
      hjoins' hcheck hfold
    have hnone : added = [] := by
      rw [Plan.filters_fold_shaping hlater hfold] at hadded
      simpa using hadded
    obtain ⟨final, rfl⟩ := Option.isSome_iff_exists.mp (hkept.mpr (by simp [hnone]))
    exact ⟨final, hfollow, hshows final rfl⟩
  refine ⟨summary, hsummary, ?_⟩
  obtain ⟨first, hfirst⟩ : ∃ first : Row V, group ≠ [] → first ∈ group := by
    cases group with
    | nil => exact ⟨.empty, fun h => absurd rfl h⟩
    | cons first rest => exact ⟨first, fun _ => List.mem_cons_self⟩
  obtain ⟨final, hfollow, -⟩ := hfinal first hfirst
  refine ⟨final, hfollow, fun row hrow => ?_⟩
  obtain ⟨other, hother, hshows⟩ := hfinal row hrow
  obtain rfl : final = other := by simpa [hfollow] using hother
  exact hshows

/-- The plan behind the first stages, and that behind a grouping and the stages after it, which
keeps the filters of the first and has their meaning of the columns that are grouped by. -/
theorem Plan.exists_grouped (catalog? : Option Catalog) (table : String) {before later : List Stage}
    (aggregates : List Aggregate) (groups : List Column)
    (hbefore : ∀ stage ∈ before, stage.RowWise) (hlater : ∀ stage ∈ later, stage.Shaping) :
    ∃ plan after, before.foldlM (apply catalog?) (.ofTable table) = .ok plan ∧
      (.summarize aggregates groups :: later).foldlM (apply catalog?) plan = .ok after ∧
      ofStages catalog?
        (.source table :: (before ++ .summarize aggregates groups :: later)) = .ok after ∧
      plan.joins = [] ∧ after.filters = plan.filters ∧
      after.groups = groups.map (plan.scope.resolveColumn false) := by
  have hlaterRows : ∀ stage ∈ later, stage.RowWise :=
    fun stage hstage => .shaping (hlater stage hstage)
  have hsource : ∀ other, Stage.source other ∉ before ++ .summarize aggregates groups :: later := by
    intro other hother
    rcases List.mem_append.mp hother with hother | hother
    · exact (hbefore _ hother).ne_source other rfl
    · rcases List.mem_cons.mp hother with hother | hother
      · cases hother
      · exact (hlaterRows _ hother).ne_source other rfl
  obtain ⟨plan, hplan⟩ : ∃ plan, before.foldlM (apply catalog?) (.ofTable table) = .ok plan :=
    exists_fold_rowWise hbefore _
  obtain ⟨grouped, hgrouped⟩ : ∃ grouped, plan.apply catalog? (.summarize aggregates groups) =
      .ok grouped := ⟨_, rfl⟩
  obtain ⟨after, hafter⟩ : ∃ after, later.foldlM (apply catalog?) grouped = .ok after :=
    exists_fold_rowWise hlaterRows _
  have hfold : (.summarize aggregates groups :: later).foldlM (apply catalog?) plan =
      .ok after := by
    rw [List.foldlM_cons, hgrouped]
    exact hafter
  refine ⟨plan, after, hplan, hfold, ?_, (joins_fold_rowWise hbefore hplan).1, ?_, ?_⟩
  · rw [ofStages_source hsource, List.foldlM_append, hplan]
    exact hfold
  · rw [filters_fold_shaping hlater hafter]
    cases hgrouped
    rfl
  · rw [(joins_fold_rowWise hlaterRows hafter).2]
    cases hgrouped
    rfl

end Source

/-- Accepted stages with one grouping keep their meaning in the plan. The rows which pass the
filters of the plan are those that arrive at the grouping, and they fall into the same groups by the
expressions of the plan as by the columns of the grouping. Each group becomes one row behind the
last stage, and the select list gives the columns of it: aggregates over all rows of the group, and
everything else in any one of them. -/
theorem run?_eq_output? [DecidableEq V] (catalog : Catalog) (catalog? : Option Catalog)
    (table : String) (before later : List Stage) (aggregates : List Aggregate)
    (groups : List Column)
    (hbefore : ∀ stage ∈ before, stage.RowWise) (hlater : ∀ stage ∈ later, stage.Shaping)
    (hbare : ∀ stage ∈ before ++ .summarize aggregates groups :: later, stage.Bare)
    (hscalar : ∀ stage ∈ before ++ .summarize aggregates groups :: later, stage.Scalar)
    (hcheck : checkNames catalog
      (.source table :: (before ++ .summarize aggregates groups :: later)) = .ok ())
    (M : Meaning V) (rows : List (Row V))
    (hrows : ∀ columns, catalog.columns? table = some columns → ∀ row ∈ rows, row.Covers columns) :
    ∃ plan current out, ∃ arrive : Row V → Row V,
      Plan.ofStages catalog?
        (.source table :: (before ++ .summarize aggregates groups :: later)) = .ok plan ∧
      (∀ row ∈ rows, follow? M row before =
        some (if ∀ filter ∈ plan.filters, filter.Passes M row then some (arrive row) else none)) ∧
      run? M rows before = some current ∧ current = (plan.kept M rows).map arrive ∧
      rowGroups M (groups.map .column) current =
        (rowGroups M plan.groups (plan.kept M rows)).map (List.map arrive) ∧
      run? M rows (before ++ .summarize aggregates groups :: later) = some out ∧
      List.Forall₂ (fun group final => ∀ row, (group ≠ [] → row ∈ group) →
          ∀ name, plan.output? M group row name = final name)
        (rowGroups M plan.groups (plan.kept M rows)) out := by
  obtain ⟨columns, last, hcolumns, hcheck⟩ := checkNames_source.mp hcheck
  have hrows := hrows columns hcolumns
  rw [List.foldlM_append, bind_eq_ok_iff] at hcheck
  obtain ⟨reach, hcheckBefore, hcheckLater⟩ := hcheck
  have hnames : ∀ c ∈ groups, c.table = none ∧ c.name ∈ reach.columns := by
    rw [List.foldlM_cons, bind_eq_ok_iff] at hcheckLater
    obtain ⟨next, hsummarize, -⟩ := hcheckLater
    exact Reach.names_of_summarize
      (hbare _ (List.mem_append_right _ List.mem_cons_self)) hsummarize
  obtain ⟨plan, after, hfoldBefore, hfold, hplan, hjoins, hfilters, hgroups⟩ :=
    Plan.exists_grouped catalog? table aggregates groups hbefore hlater
  have hitems : ∀ item ∈ plan.select.listed, item.RowItem Expr.Scalar := by
    refine Plan.rowItem_fold_rowWise inlinable_scalar hbefore
      (fun stage hstage => hscalar stage (List.mem_append_left _ hstage)) (fun item hitem => ?_)
      hfoldBefore
    obtain rfl : item = .everything := by simpa [Plan.ofTable, SelectList.listed] using hitem
    exact .everything
  obtain ⟨arrive, hfollow, hshows⟩ := exists_arrive (M := M) hbefore
    (fun stage hstage => hbare stage (List.mem_append_left _ hstage)) hcheckBefore hfoldBefore hrows
  -- the expressions of the plan have the values of the columns of the grouping
  have hkey : ∀ row ∈ plan.kept M rows, ∀ c ∈ groups,
      (plan.scope.resolveColumn false c).valueIn? M row = (arrive row).column? c := by
    intro row hrow c hc
    obtain ⟨hb, hn⟩ := hnames c hc
    refine (hshows row hrow).value?_resolveColumn (Plan.scope_reads hjoins) (.inr ?_) hb hn
    exact fun item hitem => (hitems item hitem).imp fun _ _ => trivial
  have hkept : after.kept M rows = plan.kept M rows := by
    unfold Plan.kept
    rw [hfilters]
  have hrun : run? M rows before = some ((plan.kept M rows).map arrive) :=
    run?_eq_map hbefore hfollow
  have hparts : rowGroups M (groups.map .column) ((plan.kept M rows).map arrive) =
      (rowGroups M after.groups (plan.kept M rows)).map (List.map arrive) := by
    refine rowGroups_map (fun row hrow => ?_) (by simp [hgroups])
    rw [hgroups, List.map_map, List.map_map]
    exact List.map_congr_left fun c hc => (hkey row hrow c hc).symm
  obtain ⟨summaries, hsummaries, hall⟩ := exists_mapM_forall₂
    (l := rowGroups M after.groups (plan.kept M rows))
    (f := fun group => Row.summary? M aggregates groups (group.map arrive))
    (R := fun group summary => ∃ final, follow? M summary later = some (some final) ∧
      ∀ row, (group ≠ [] → row ∈ group) → ∀ name, after.output? M group row name = final name) <| by
    intro group hgroup
    obtain ⟨hsub, hne, hagree⟩ := of_mem_rowGroups hgroup
    obtain ⟨summary, hsummary, final, hfinal, hshown⟩ := exists_summary hlater
      (fun stage hstage => hbare stage (List.mem_append_right _ hstage))
      (fun stage hstage => hscalar stage (List.mem_append_right _ hstage)) hcheckLater hfold hjoins
      hitems (fun row hrow => hshows row (hsub hrow)) (fun h => hne (by simpa [hgroups] using h))
      (fun a ha b hb c hc => by
        rw [← hkey a (hsub ha) c hc, ← hkey b (hsub hb) c hc]
        exact hagree a ha b hb _ (by rw [hgroups]; exact List.mem_map_of_mem hc))
    exact ⟨summary, hsummary, final, hfinal,
      fun row hrow name => (hshown row hrow).output name⟩
  obtain ⟨out, hout, hfinals⟩ := exists_run?_forall₂
    (fun stage hstage => .shaping (hlater stage hstage)) hall
  refine ⟨after, _, out, arrive, hplan, ?_, hrun, by rw [hkept], ?_, ?_, ?_⟩
  · rw [hfilters]
    exact hfollow
  · rw [hkept]
    exact hparts
  · have hsummarize : Stage.run? M ((plan.kept M rows).map arrive) (.summarize aggregates groups) =
        some summaries := by
      rw [Stage.run?, hparts, List.mapM_map]
      exact hsummaries
    rw [run?_append, hrun, Option.bind_some, run?, List.foldlM_cons, hsummarize]
    exact hout
  · rw [hkept]
    exact hfinals

/-- Three rows of ages and sizes, the first of which does not pass `twiceStages`. -/
def peopleRows : List (Row Nat) :=
  [(1, 7), (10, 7), (20, 8), (30, 7)].map fun (age, size) =>
    Row.ofOutputs [(some "age", age), (some "size", size)]

def twiceStages : List Stage :=
  [.filter (.binary (.compare .greater) (.column (.bare "age")) (.number "5")),
    .extend [⟨"age", .binary (.compute .add) (.column (.bare "age")) (.column (.bare "age"))⟩]]

/-- The sum gets the name of a column that it was formed from, and then grows. -/
def renameStages : List Stage :=
  [.project [⟨.column (.bare "total"), some "age"⟩, ⟨.column (.bare "size"), none⟩],
    .extend [⟨"age", .binary (.compute .add) (.column (.bare "age")) (.column (.bare "size"))⟩]]

theorem run?_eq_output?_renameStages :
    let grouping := Stage.summarize [⟨"total", "sum", [.column (.bare "age")]⟩] [.bare "size"]
    (run? countMeaning peopleRows (twiceStages ++ grouping :: renameStages)).map
        (List.map fun row => (row "age", row "size")) =
      some [(some 48, some 8), (some 87, some 7)] ∧
    ∃ plan current out, ∃ arrive : Row Nat → Row Nat,
      Plan.ofStages none (.source "people" :: (twiceStages ++ grouping :: renameStages)) =
        .ok plan ∧
      (∀ row ∈ peopleRows, follow? countMeaning row twiceStages = some
        (if ∀ filter ∈ plan.filters, filter.Passes countMeaning row then some (arrive row)
          else none)) ∧
      run? countMeaning peopleRows twiceStages = some current ∧
      current = (plan.kept countMeaning peopleRows).map arrive ∧
      rowGroups countMeaning ([.bare "size"].map .column) current =
        (rowGroups countMeaning plan.groups (plan.kept countMeaning peopleRows)).map
          (List.map arrive) ∧
      run? countMeaning peopleRows (twiceStages ++ grouping :: renameStages) = some out ∧
      List.Forall₂ (fun group final => ∀ row, (group ≠ [] → row ∈ group) →
          ∀ name, plan.output? countMeaning group row name = final name)
        (rowGroups countMeaning plan.groups (plan.kept countMeaning peopleRows)) out := by
  refine ⟨by decide, run?_eq_output? peopleCatalog none "people" twiceStages renameStages _ _
    ?_ ?_ ?_ ?_ rfl countMeaning peopleRows ?_⟩
  · intro stage hstage
    simp only [twiceStages, List.mem_cons, List.not_mem_nil, or_false] at hstage
    rcases hstage with rfl | rfl
    · exact .filter _
    · exact .shaping (.extend _)
  · intro stage hstage
    simp only [renameStages, List.mem_cons, List.not_mem_nil, or_false] at hstage
    rcases hstage with rfl | rfl
    · exact .project _
    · exact .extend _
  · unfold Stage.Bare
    decide
  · intro stage hstage expr hexpr
    have hcolumn : ∀ name, (Expr.column (.bare name)).Scalar := fun name => .column _
    simp only [twiceStages, renameStages, List.cons_append, List.nil_append, List.mem_cons,
      List.not_mem_nil, or_false] at hstage
    rcases hstage with rfl | rfl | rfl | rfl | rfl <;>
      simp only [Stage.expressions, List.map_cons, List.map_nil, List.flatMap_cons,
        List.flatMap_nil, List.append_nil, List.mem_cons, List.not_mem_nil, or_false] at hexpr
    · exact hexpr ▸ .binary _ (hcolumn _) (.number _)
    · exact hexpr ▸ .binary _ (hcolumn _) (hcolumn _)
    · exact hexpr ▸ hcolumn _
    · rcases hexpr with rfl | rfl <;> exact hcolumn _
    · exact hexpr ▸ .binary _ (hcolumn _) (hcolumn _)
  · rintro columns ⟨⟩ row hrow name hname
    have hcases : name = "age" ∨ name = "size" := by simpa using hname
    obtain ⟨pair, -, rfl⟩ := List.mem_map.mp hrow
    rcases hcases with rfl | rfl <;> rfl

end PipeSql
