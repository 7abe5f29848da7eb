import PipeSql.Proofs.Plan.Accepted

/-! # Accounts of columns

Where the columns come from that an accepted pipeline leaves in its plan: from a table, from a name
that an aggregate has outside select lists, from one that was taken away before it was read, or from
the side of a join. Each stage keeps the plan accounted for. -/

namespace PipeSql

open Query

/-! ## Names that the tables do not have -/

/-- A stage outside select lists reads the name while it is that of an aggregate. -/
def ReadsAggregate (catalog : Catalog) (stages : List Stage) (name : String) : Prop :=
  ∃ before stage behind plan of, stages = before ++ stage :: behind ∧ stage.Sifting ∧
    Column.bare name ∈ stage.columns ∧ Plan.ofStages (some catalog) before = .ok plan ∧
      plan.scope.output? name = some (.aggregate of)

/-- A stage reads the name when it was taken away before, and nothing computes it. -/
def ReadsRemoved (catalog : Catalog) (stages : List Stage) (name : String) : Prop :=
  ∃ before stage behind plan, stages = before ++ stage :: behind ∧
    Column.bare name ∈ stage.columns ∧ Plan.ofStages (some catalog) before = .ok plan ∧
      plan.scope.output? name = none ∧ Removed before name

/-- Where a column comes from that some stages leave in a plan over the tables. -/
inductive Accounted (catalog : Catalog) (stages : List Stage) (source : String)
    (tables : List String) : Column → Prop where
  | provided {column} :
    catalog.Provides tables column → Accounted catalog stages source tables column
  | aggregate {name} :
    ReadsAggregate catalog stages name → Accounted catalog stages source tables (.bare name)
  | removed {name} :
    ReadsRemoved catalog stages name → Accounted catalog stages source tables (.bare name)
  | side {stage column} :
    stage ∈ stages → stage.Sides source column → Accounted catalog stages source tables column

/-- The plan of some stages agrees with the names in reach behind them, which are those of the
tables, those of the outputs, and those that were taken away. All its columns are accounted for. -/
structure Accounts (catalog : Catalog) (done : List Stage) (reach : Reach) (plan : Plan) :
    Prop where
  tables : reach.tables = plan.tables
  found : ∀ name ∈ reach.columns, catalog.Provides plan.tables (.bare name) ∨
    (plan.scope.output? name).isSome ∨ Removed done name
  all : plan.All (Accounted catalog done plan.table plan.tables)

variable {catalog : Catalog} {done stages : List Stage} {stage : Stage} {reach next : Reach}
  {plan after : Plan}

theorem ReadsAggregate.append {name : String} (h : ReadsAggregate catalog done name)
    (more : List Stage) : ReadsAggregate catalog (done ++ more) name := by
  obtain ⟨before, read, behind, plan, of, rfl, h⟩ := h
  exact ⟨before, read, behind ++ more, plan, of, by simp, h⟩

theorem ReadsRemoved.append {name : String} (h : ReadsRemoved catalog done name)
    (more : List Stage) : ReadsRemoved catalog (done ++ more) name := by
  obtain ⟨before, read, behind, plan, rfl, h⟩ := h
  exact ⟨before, read, behind ++ more, plan, by simp, h⟩

/-- A further stage takes no account back. -/
theorem Accounted.append {source : String} {tables tables' : List String} {column : Column}
    (h : Accounted catalog done source tables column)
    (htables : ∀ table ∈ tables, table ∈ tables') (more : List Stage) :
    Accounted catalog (done ++ more) source tables' column := by
  cases h with
  | provided h => exact .provided (h.mono htables)
  | aggregate h => exact .aggregate (h.append more)
  | removed h => exact .removed (h.append more)
  | side hstage h => exact .side (List.mem_append_left _ hstage) h

namespace Accounts

theorem source {table : String} {columns : List String}
    (hcolumns : catalog.columns? table = some columns) :
    Accounts catalog [.source table] ⟨[table], columns, []⟩ (.ofTable table) where
  tables := rfl
  found := fun _ hname =>
    .inl ⟨table, List.mem_singleton_self table, .inl rfl, columns, hcolumns, hname⟩
  all := .ofTable table

/-- What an accepted stage brings into the plan is accounted for. -/
theorem accounted (h : Accounts catalog done reach plan)
    (hdone : Plan.ofStages (some catalog) done = .ok plan) {column : Column}
    (hbrings : stage.Brings catalog reach plan column) :
    Accounted catalog (done ++ [stage]) plan.table (plan.tables ++ stage.tables) column := by
  cases hbrings with
  | provided _ hprovides =>
    rw [h.tables] at hprovides
    exact .provided hprovides
  | side hside => exact .side (List.mem_append_right done List.mem_cons_self) hside
  | aggregate hsifting hcolumn haggregate =>
    exact .aggregate ⟨done, stage, [], plan, _, rfl, hsifting, hcolumn, hdone, haggregate⟩
  | @free name _ hcolumn hnone _ hreach _ =>
    rcases h.found name hreach with hprovides | hsome | hremoved
    · exact .provided (hprovides.mono fun other hother => List.mem_append_left _ hother)
    · simp [hnone] at hsome
    · exact .removed ⟨done, stage, [], plan, rfl, hcolumn, hdone, hnone, hremoved⟩
  | writtenOut _ _ _ _ hlists => exact .provided ⟨plan.table, List.mem_cons_self, .inl rfl, hlists⟩

/-- What the stages leave in the plan stays accounted for behind a further stage. -/
theorem step (hdone : Plan.ofStages (some catalog) done = .ok plan)
    (hstage : ∀ table, stage ≠ .source table) (h : Accounts catalog done reach plan)
    (hnext : reach.after catalog stage = .ok next)
    (happly : plan.apply (some catalog) stage = .ok after) :
    Accounts catalog (done ++ [stage]) next after := by
  obtain ⟨htable, htables⟩ := Plan.tables_apply hstage happly
  have hmono := Plan.tables_subset_apply hstage happly
  refine ⟨by rw [Reach.tables_after hnext, h.tables, htables], ?_, ?_⟩
  · intro name hname
    rcases Reach.mem_columns_after hstage hnext happly hname with hsome | hpasses | hjoined
    · exact .inr (.inl hsome)
    · rcases h.found name hpasses.columns with hprovides | hsome | hremoved
      · exact .inl (hprovides.mono hmono)
      · exact .inr ((hpasses.output hsome).imp_right fun hgone => hgone.prepend done)
      · exact .inr (.inr (hremoved.append [stage]))
    · obtain ⟨table, hmem, hlists⟩ := hjoined
      refine .inl ⟨table, ?_, .inl rfl, hlists⟩
      rw [htables]
      exact List.mem_append_right _ hmem
  · rw [htable]
    refine (h.all.imp fun column hcolumn => ?_).apply hnext happly fun column hbrings => ?_
    · exact hcolumn.append hmono [stage]
    · rw [htables]
      exact h.accounted hdone hbrings

/-- All columns in the plan of an accepted pipeline are accounted for. -/
theorem of_reach (hreach : stages.foldlM (Reach.after catalog) .empty = .ok reach)
    (hplan : Plan.ofStages (some catalog) stages = .ok plan) :
    Accounts catalog stages reach plan :=
  accepted_induction (fun _ _ => source) step hreach hplan

end Accounts

end PipeSql
