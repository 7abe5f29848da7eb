import PipeSql.Proofs.Rows.Stage

/-! # Running stages on a table

A run on all rows is a run on each of them, and groups are kept by a map that keeps their keys. -/

namespace PipeSql

open Query

/-! ## Groups -/

section Groups

variable {α β κ : Type*} [DecidableEq κ]

theorem groupsBy_congr {key key' : α → κ} {as : List α} (h : ∀ a ∈ as, key a = key' a) :
    groupsBy key as = groupsBy key' as := by
  have hkeys : as.map key = as.map key' := List.map_congr_left h
  unfold groupsBy
  rw [hkeys]
  refine List.map_congr_left fun k _ => List.filter_congr fun a ha => ?_
  rw [h a ha]

theorem groupsBy_map (key : β → κ) (f : α → β) (as : List α) :
    groupsBy key (as.map f) = (groupsBy (key ∘ f) as).map (List.map f) := by
  unfold groupsBy
  rw [List.map_map, List.map_map]
  refine List.map_congr_left fun k _ => ?_
  simp only [Function.comp_apply, List.filter_map]
  rfl

/-- A group has members, which all have its key. -/
theorem of_mem_groupsBy {key : α → κ} {as group : List α} (h : group ∈ groupsBy key as) :
    group ≠ [] ∧ group ⊆ as ∧ ∀ a ∈ group, ∀ b ∈ group, key a = key b := by
  obtain ⟨k, hk, rfl⟩ := List.mem_map.mp h
  obtain ⟨a, ha, hak⟩ := List.mem_map.mp (List.mem_dedup.mp hk)
  refine ⟨?_, List.filter_subset_self _, ?_⟩
  · exact List.ne_nil_of_mem (List.mem_filter.mpr ⟨ha, by simpa using hak⟩)
  · intro b hb c hc
    have hbk : key b = k := by simpa using (List.mem_filter.mp hb).2
    have hck : key c = k := by simpa using (List.mem_filter.mp hc).2
    rw [hbk, hck]

variable {V : Type*} [DecidableEq V] {M : Meaning V}

/-- Rows that are grouped by some expressions are grouped as the rows made of them are by others,
when these have the values of the first. -/
theorem rowGroups_map {exprs exprs' : List Expr} {rows : List (Row V)} {f : Row V → Row V}
    (h : ∀ row ∈ rows, exprs'.map (Expr.valueIn? M (f row)) = exprs.map (Expr.valueIn? M row))
    (hlength : exprs'.isEmpty = exprs.isEmpty) :
    rowGroups M exprs' (rows.map f) = (rowGroups M exprs rows).map (List.map f) := by
  unfold rowGroups
  rw [hlength]
  split
  · rfl
  · rw [groupsBy_map]
    exact congrArg (List.map (List.map f)) (groupsBy_congr h)

/-- The rows of a group agree in the values that it is formed by, and there are some unless the
group is formed by nothing. -/
theorem of_mem_rowGroups {exprs : List Expr} {rows group : List (Row V)}
    (h : group ∈ rowGroups M exprs rows) :
    group ⊆ rows ∧ (exprs ≠ [] → group ≠ []) ∧
      ∀ a ∈ group, ∀ b ∈ group, ∀ e ∈ exprs, e.valueIn? M a = e.valueIn? M b := by
  unfold rowGroups at h
  cases exprs with
  | nil =>
    obtain rfl : group = rows := by simpa using h
    simp
  | cons e es =>
    obtain ⟨hne, hsub, hkey⟩ := of_mem_groupsBy (by simpa using h)
    refine ⟨hsub, fun _ => hne, fun a ha b hb e' he' => ?_⟩
    have hvalues : (e :: es).map (Expr.valueIn? M a) = (e :: es).map (Expr.valueIn? M b) :=
      hkey a ha b hb
    exact List.map_inj_left.mp hvalues e' he'

end Groups

/-! ## Runs -/

section Runs

theorem filterMap_mapM {α β : Type*} {f : α → Option (Option β)} {as : List α}
    (h : ∀ a ∈ as, (f a).isSome) :
    (as.mapM f).map (·.filterMap id) = some (as.filterMap fun a => (f a).join) := by
  induction as with
  | nil => rfl
  | cons a as ih =>
    obtain ⟨outcome, houtcome⟩ := Option.isSome_iff_exists.mp (h a List.mem_cons_self)
    obtain ⟨outcomes, houtcomes, hrest⟩ :=
      Option.map_eq_some_iff.mp (ih fun a ha => h a (List.mem_cons_of_mem _ ha))
    rw [List.filterMap_cons, ← hrest]
    cases outcome <;> simp [houtcome, houtcomes]

variable {V : Type*} [DecidableEq V] {M : Meaning V}

theorem Query.run?_append (rows : List (Row V)) (stages more : List Stage) :
    run? M rows (stages ++ more) = (run? M rows stages).bind fun rows => run? M rows more :=
  List.foldlM_append

theorem Query.Stage.run?_rowWise {stage : Stage} (hstage : stage.RowWise) {rows : List (Row V)}
    (h : ∀ row ∈ rows, (stage.follow? M row).isSome) :
    stage.run? M rows = some (rows.filterMap fun row => (stage.follow? M row).join) := by
  rw [← filterMap_mapM h]
  rcases hstage with condition | ⟨items | assignments⟩ <;> rfl

/-- When no row gets stuck, the run on the table leaves the rows that are not dropped. -/
theorem Query.run?_rowWise {stages : List Stage} (hstages : ∀ stage ∈ stages, stage.RowWise)
    {rows : List (Row V)} (h : ∀ row ∈ rows, (follow? M row stages).isSome) :
    run? M rows stages = some (rows.filterMap fun row => (follow? M row stages).join) := by
  induction stages generalizing rows with
  | nil => simp [run?, follow?]
  | cons stage stages ih =>
    have hfirst : ∀ row ∈ rows, (stage.follow? M row).isSome := by
      intro row hrow
      have hall := h row hrow
      cases hstage : stage.follow? M row with
      | none => simp [follow?, hstage] at hall
      | some => rfl
    -- the rows that the first stage leaves do not get stuck later
    have hlater : ∀ row ∈ rows.filterMap (fun row => (stage.follow? M row).join),
        (follow? M row stages).isSome := by
      intro next hnext
      obtain ⟨row, hrow, hjoin⟩ := List.mem_filterMap.mp hnext
      have hstage : stage.follow? M row = some (some next) := Option.join_eq_some_iff.mp hjoin
      simpa [follow?, hstage] using h row hrow
    have hrest := ih (fun s hs => hstages s (List.mem_cons_of_mem _ hs)) hlater
    unfold run? at hrest ⊢
    rw [List.foldlM_cons, Stage.run?_rowWise (hstages stage List.mem_cons_self) hfirst,
      Option.bind_eq_bind, Option.bind_some, hrest, List.filterMap_filterMap]
    refine congrArg some (List.filterMap_congr fun row hrow => ?_)
    obtain ⟨outcome, houtcome⟩ := Option.isSome_iff_exists.mp (hfirst row hrow)
    cases outcome <;> simp [follow?, houtcome]

/-- A run in which it is known of each row whether it is dropped, and else where it arrives. -/
theorem Query.run?_eq_map {stages : List Stage} (hstages : ∀ stage ∈ stages, stage.RowWise)
    {rows : List (Row V)} {p : Row V → Prop} [DecidablePred p] {arrive : Row V → Row V}
    (h : ∀ row ∈ rows, follow? M row stages = some (if p row then some (arrive row) else none)) :
    run? M rows stages = some ((rows.filter p).map arrive) := by
  rw [run?_rowWise hstages fun row hrow => by simp [h row hrow], ← List.filterMap_eq_map,
    List.filterMap_filter]
  refine congrArg some (List.filterMap_congr fun row hrow => ?_)
  by_cases hp : p row <;> simp [h row hrow, hp]

/-- A run in which no row is dropped. -/
theorem Query.exists_run?_forall₂ {α : Type*} {R : α → Row V → Prop} {stages : List Stage}
    (hstages : ∀ stage ∈ stages, stage.RowWise) {as : List α} {rows : List (Row V)}
    (h : List.Forall₂ (fun a row => ∃ final, follow? M row stages = some (some final) ∧ R a final)
      as rows) :
    ∃ out, run? M rows stages = some out ∧ List.Forall₂ R as out := by
  have hsome : ∀ row ∈ rows, (follow? M row stages).isSome := by
    induction h with
    | nil => simp
    | cons hfirst _ ih =>
      obtain ⟨final, hfinal, -⟩ := hfirst
      simpa [hfinal] using ih
  refine ⟨_, run?_rowWise hstages hsome, ?_⟩
  clear hsome
  induction h with
  | nil => exact .nil
  | cons hfirst _ ih =>
    obtain ⟨final, hfinal, hr⟩ := hfirst
    rw [List.filterMap_cons_some (by rw [hfinal]; rfl)]
    exact .cons hr ih

end Runs

end PipeSql
