import PipeSql.Proofs.Catalog.Reach
import PipeSql.Proofs.Plan.Items
import Mathlib.Data.List.Induction

/-! # Whole pipelines

When a pipeline has a plan, and what holds of all accepted pipelines because each stage keeps it:
the stages up to a place, the names in reach there and the plan there belong together. -/

namespace PipeSql

open Query

namespace Plan

variable {catalog? : Option Catalog} {stages before rest : List Stage} {stage : Stage}
variable {plan last : Plan}

theorem ofStages_eq_ok :
    ofStages catalog? stages = .ok plan ↔
      ∃ table rest, stages = .source table :: rest ∧ (∀ other, Stage.source other ∉ rest) ∧
        rest.foldlM (apply catalog?) (ofTable table) = .ok plan := by
  constructor
  · intro h
    cases stages with
    | nil => cases h
    | cons first rest =>
      cases first with
      | source table =>
        rw [ofStages] at h
        cases hextra : extraSource? rest with
        | some extra =>
          rw [hextra] at h
          cases h
        | none =>
          rw [hextra] at h
          refine ⟨table, rest, rfl, ?_, h⟩
          intro other hother
          simpa using List.findSome?_eq_none_iff.mp hextra _ hother
      | filter | project | projectAway | extend | summarize | orderBy | limit | take | join | top =>
        cases h
  · rintro ⟨table, rest, rfl, hother, hfold⟩
    rw [ofStages_source hother, hfold]

/-- The stages behind the first ones go on with their plan. -/
theorem ofStages_append (hbefore : before ≠ []) :
    ofStages catalog? (before ++ rest) = .ok last ↔
      ∃ plan, ofStages catalog? before = .ok plan ∧ (∀ other, Stage.source other ∉ rest) ∧
        rest.foldlM (apply catalog?) plan = .ok last := by
  obtain ⟨first, before, rfl⟩ := List.exists_cons_of_ne_nil hbefore
  simp only [ofStages_eq_ok, List.cons_append, List.cons.injEq]
  constructor
  · rintro ⟨table, _, ⟨rfl, rfl⟩, hother, hfold⟩
    rw [List.foldlM_append, bind_eq_ok_iff] at hfold
    obtain ⟨plan, hplan, hlast⟩ := hfold
    refine ⟨plan, ⟨table, before, ⟨rfl, rfl⟩, ?_, hplan⟩, ?_, hlast⟩
    · exact fun other h => hother other (List.mem_append_left _ h)
    · exact fun other h => hother other (List.mem_append_right _ h)
  · rintro ⟨plan, ⟨table, _, ⟨rfl, rfl⟩, hbefore, hplan⟩, hrest, hlast⟩
    refine ⟨table, _, ⟨rfl, rfl⟩, ?_, ?_⟩
    · intro other h
      rcases List.mem_append.mp h with h | h
      · exact hbefore other h
      · exact hrest other h
    · rw [List.foldlM_append, bind_eq_ok_iff]
      exact ⟨plan, hplan, hlast⟩

theorem ofStages_concat (hbefore : before ≠ []) :
    ofStages catalog? (before ++ [stage]) = .ok last ↔
      ∃ plan, ofStages catalog? before = .ok plan ∧ (∀ table, stage ≠ .source table) ∧
        plan.apply catalog? stage = .ok last := by
  simp only [ofStages_append hbefore, List.mem_singleton, List.foldlM_cons, List.foldlM_nil,
    bind_eq_ok_iff, pure_eq_ok_iff, exists_eq_right, ne_comm, ne_eq]

/-- A stage between others goes on with the plan of those in front of it. -/
theorem exists_of_ofStages_between (hstage : ∀ table, stage ≠ .source table)
    (h : ofStages catalog? (before ++ stage :: rest) = .ok last) :
    ∃ plan after, ofStages catalog? before = .ok plan ∧ plan.apply catalog? stage = .ok after ∧
      rest.foldlM (apply catalog?) after = .ok last := by
  have hbefore : before ≠ [] := by
    rintro rfl
    obtain ⟨table, _, heq, -⟩ := ofStages_eq_ok.mp h
    exact hstage table (List.cons.inj heq).1
  obtain ⟨plan, hplan, -, hfold⟩ := (ofStages_append hbefore).mp h
  rw [List.foldlM_cons, bind_eq_ok_iff] at hfold
  obtain ⟨after, happly, hrest⟩ := hfold
  exact ⟨plan, after, hplan, happly, hrest⟩

/-- What the source establishes and each stage keeps holds behind all stages of a pipeline. -/
theorem ofStages_induction {P : List Stage → Plan → Prop}
    (source : ∀ table, P [.source table] (ofTable table))
    (step : ∀ {done stage before after},
      ofStages catalog? done = .ok before → (∀ table, stage ≠ .source table) → P done before →
        before.apply catalog? stage = .ok after → P (done ++ [stage]) after)
    (h : ofStages catalog? stages = .ok plan) : P stages plan := by
  induction stages using List.reverseRecOn generalizing plan with
  | nil => cases h
  | append_singleton done stage ih =>
    cases done with
    | nil =>
      obtain ⟨table, rest, hstages, -, hfold⟩ := ofStages_eq_ok.mp h
      obtain ⟨rfl, rfl⟩ : stage = .source table ∧ [] = rest := by simpa using hstages
      obtain rfl : ofTable table = plan := pure_eq_ok_iff.mp hfold
      exact source table
    | cons first more =>
      obtain ⟨before, hbefore, hstage, hafter⟩ :=
        (ofStages_concat (List.cons_ne_nil first more)).mp h
      exact step hbefore hstage (ih hbefore) hafter

end Plan

theorem checkNames_eq_ok {catalog : Catalog} {stages : List Stage} :
    checkNames catalog stages = .ok () ↔
      ∃ reach, stages.foldlM (Reach.after catalog) .empty = .ok reach := by
  simp only [checkNames, bind_eq_ok_iff, pure_eq_ok_iff, and_true]

/-- What the source establishes and each stage keeps holds behind all stages of an accepted
pipeline. -/
theorem accepted_induction {catalog : Catalog} {P : List Stage → Reach → Plan → Prop}
    (source : ∀ table columns, catalog.columns? table = some columns →
      P [.source table] ⟨[table], columns, []⟩ (.ofTable table))
    (step : ∀ {done stage reach next before after},
      Plan.ofStages (some catalog) done = .ok before → (∀ table, stage ≠ .source table) →
        P done reach before → reach.after catalog stage = .ok next →
          before.apply (some catalog) stage = .ok after → P (done ++ [stage]) next after)
    {stages : List Stage} {reach : Reach} {plan : Plan}
    (hreach : stages.foldlM (Reach.after catalog) .empty = .ok reach)
    (hplan : Plan.ofStages (some catalog) stages = .ok plan) : P stages reach plan := by
  refine Plan.ofStages_induction (P := fun stages plan => ∀ reach,
    stages.foldlM (Reach.after catalog) .empty = .ok reach → P stages reach plan)
    ?_ ?_ hplan reach hreach
  · intro table reach hreach
    simp only [List.foldlM_cons, bind_eq_ok_iff, Reach.after_source] at hreach
    obtain ⟨-, ⟨columns, hcolumns, rfl⟩, hlast⟩ := hreach
    obtain rfl := pure_eq_ok_iff.mp hlast
    exact source table columns hcolumns
  · intro done stage before after hbefore hstage ih hafter next hreach
    rw [List.foldlM_append, bind_eq_ok_iff] at hreach
    obtain ⟨reach, hreach, hnext⟩ := hreach
    rw [List.foldlM_cons, bind_eq_ok_iff] at hnext
    obtain ⟨last, hnext, hlast⟩ := hnext
    obtain rfl := pure_eq_ok_iff.mp hlast
    exact step hbefore hstage (ih reach hreach) hnext hafter

end PipeSql
