import PipeSql.Proofs.Plan.Pipeline
import PipeSql.Proofs.Plan.Removal
import PipeSql.Proofs.Query.Stage.Parsed

/-! # How select lists are arranged

The wildcard stands in front of what `extend` computes, or the items name all that is selected.
Main statement: behind each stage of a pipeline the select list is well formed, and without a
catalog its outputs have different names unless a stage names two of its own outputs alike. -/

namespace PipeSql

open Query

/-! ## The place of the wildcard -/

/-- The wildcard stands in front of computed columns only, or it does not occur. -/
inductive Arranged : List SelectItem → Prop where
  | starred {rest} : (∀ item ∈ rest, ∃ expr label, item = .value expr label) →
      Arranged (.everything :: rest)
  | named {items} : .everything ∉ items → Arranged items

variable {catalog? : Option Catalog} {plan after : Plan} {stages : List Stage} {stage : Stage}
  {items : List SelectItem} {item : SelectItem} {name : String}

namespace Arranged

/-- The wildcard occurs at most once, as the first item. -/
theorem eq_zero (h : Arranged items) {i : Nat} (hi : items[i]? = some .everything) : i = 0 := by
  cases h with
  | named habsent => exact absurd (List.mem_of_getElem? hi) habsent
  | starred hrest =>
    cases i with
    | zero => rfl
    | succ i =>
      rw [List.getElem?_cons_succ] at hi
      obtain ⟨expr, label, hvalue⟩ := hrest _ (List.mem_of_getElem? hi)
      cases hvalue

theorem overwrite (h : Arranged items) (expr : Expr) (label : Option String) :
    Arranged (overwrite name (.value expr label) items) := by
  cases h with
  | starred hrest =>
    refine .starred fun item hitem => ?_
    rcases mem_overwrite hitem with rfl | hitem
    · exact ⟨expr, label, rfl⟩
    · exact hrest item hitem
  | named habsent =>
    refine .named fun hall => ?_
    rcases mem_overwrite hall with heq | hmem
    · cases heq
    · exact habsent hmem

theorem filter (h : Arranged items) (p : SelectItem → Bool) : Arranged (items.filter p) := by
  cases h with
  | starred hrest =>
    have hkept : ∀ item ∈ List.filter p _, ∃ expr label, item = .value expr label :=
      fun item hitem => hrest item (List.mem_of_mem_filter hitem)
    rw [List.filter_cons]
    split
    · exact .starred hkept
    · refine .named fun hall => ?_
      obtain ⟨expr, label, hvalue⟩ := hkept _ hall
      cases hvalue
  | named habsent => exact .named fun hall => habsent (List.mem_of_mem_filter hall)

theorem writtenOut (h : Arranged items) (columns? : Option (List String)) :
    Arranged (Plan.writtenOut columns? items) := by
  cases columns? with
  | none => exact h
  | some columns =>
    refine .named fun hall => ?_
    obtain ⟨item, -, hitem⟩ := List.mem_flatMap.mp hall
    cases item with
    | everything =>
      obtain ⟨name, -, hname⟩ := List.mem_map.mp hitem
      cases hname
    | value | aggregate => cases List.mem_singleton.mp hitem

end Arranged

/-- A stage that replaces the outputs lists none but its own, under their names. -/
theorem Plan.select_of_outputNames {names : List (Option String)}
    (hnames : stage.outputNames? = some names) (h : plan.apply catalog? stage = .ok after) :
    ∃ items, after.select = .items items ∧ items.map SelectItem.outputName? = names ∧
      .everything ∉ items := by
  cases stage with
  | project items =>
    cases h
    cases hnames
    refine ⟨_, rfl, ?_, ?_⟩
    · rw [List.map_map]
      exact List.map_congr_left fun item _ => (plan.scope.outputName?_project item).2
    · intro hall
      obtain ⟨item, -, hitem⟩ := List.mem_map.mp hall
      exact (plan.scope.outputName?_project item).1 hitem
  | summarize aggregates groups =>
    cases h
    cases hnames
    refine ⟨_, rfl, ?_, ?_⟩
    · rw [List.map_append, List.map_map, List.map_map]
      congr 1
      refine List.map_congr_left fun column _ => ?_
      obtain ⟨label, -, hname⟩ := groupItem_eq plan.scope column
      exact hname
    · intro hall
      rcases List.mem_append.mp hall with hall | hall
      · obtain ⟨aggregate, -, hitem⟩ := List.mem_map.mp hall
        cases hitem
      · obtain ⟨column, -, hitem⟩ := List.mem_map.mp hall
        obtain ⟨label, hvalue, -⟩ := groupItem_eq plan.scope column
        rw [hvalue] at hitem
        cases hitem
  | source | filter | projectAway | extend | orderBy | limit | take | join | top => cases hnames

/-- Other stages leave the outputs, extend them or take some away. -/
theorem Plan.select_cases (hnames : stage.outputNames? = none)
    (h : plan.apply catalog? stage = .ok after) :
    after.select = plan.select ∨
      (∃ assignments, stage = .extend assignments ∧
        after.select = .items (assignments.foldl (assign plan.scope.keys) plan.select.listed)) ∨
      ∃ names, stage = .projectAway names ∧ plan.removeNames catalog? names = .ok after := by
  cases stage with
  | extend assignments =>
    rw [apply_extend] at h
    cases h
    exact .inr (.inl ⟨assignments, rfl, rfl⟩)
  | projectAway names => exact .inr (.inr ⟨names, rfl, h⟩)
  | source | filter | orderBy | limit | take | join | top =>
    cases h
    exact .inl rfl
  | project | summarize => cases hnames

theorem Plan.arranged_removeNames {names : List String} (h : Arranged plan.select.listed)
    (happly : plan.removeNames catalog? names = .ok after) : Arranged after.select.listed := by
  rcases removeNames_cases happly with ⟨-, rfl⟩ | ⟨items, hitems, rfl⟩
  · exact h
  · rw [removable?_eq_some hitems]
    exact (h.writtenOut _).filter _

theorem Plan.arranged_apply (h : Arranged plan.select.listed)
    (happly : plan.apply catalog? stage = .ok after) : Arranged after.select.listed := by
  cases hnames : stage.outputNames? with
  | some names =>
    obtain ⟨items, hselect, -, habsent⟩ := select_of_outputNames hnames happly
    rw [hselect]
    exact .named habsent
  | none =>
    rcases select_cases hnames happly with hsame | ⟨assignments, -, hselect⟩ | ⟨names, -, hremove⟩
    · rwa [hsame]
    · rw [hselect]
      exact foldl_assign_keeps assignments (fun _ _ expr hold => hold.overwrite expr _) h
    · exact arranged_removeNames h hremove

/-- However stages are folded, the select list stays arranged. -/
theorem Plan.arranged_foldlM {table : String}
    (h : stages.foldlM (apply catalog?) (ofTable table) = .ok plan) :
    Arranged plan.select.listed :=
  foldlM_keeps (P := fun plan => Arranged plan.select.listed)
    (fun _ _ _ _ hbefore happly => arranged_apply hbefore happly) (.starred (by simp)) h

/-! ## Well-formed select lists -/

/-- Something is selected, and the wildcard is at most the first item. -/
inductive SelectList.WellFormed : SelectList → Prop where
  | wildcard : WellFormed .wildcard
  | items {list} : list ≠ [] → (∀ i, list[i]? = some .everything → i = 0) →
      WellFormed (.items list)

theorem SelectList.wellFormed_of_arranged {select : SelectList} (h : Arranged select.listed)
    (hsome : select.listed ≠ []) : select.WellFormed := by
  cases select with
  | wildcard => exact .wildcard
  | items list => exact .items hsome fun _ => h.eq_zero

theorem overwrite_ne_nil (name : String) (item : SelectItem) (items : List SelectItem) :
    overwrite name item items ≠ [] := by
  cases items with
  | nil => exact List.cons_ne_nil item []
  | cons first rest =>
    rw [overwrite]
    split <;> exact List.cons_ne_nil _ _

theorem Plan.removeNames_ne_nil {names : List String} (h : plan.select.listed ≠ [])
    (happly : plan.removeNames catalog? names = .ok after) : after.select.listed ≠ [] := by
  unfold removeNames at happly
  split at happly
  · cases happly
    exact h
  · simp only at happly
    split at happly
    · cases happly
    · rename_i hsome
      cases happly
      simpa [SelectList.listed] using hsome

/-- A stage whose own outputs are some leaves some. -/
theorem Plan.listed_ne_nil_apply (hstage : ∀ names ∈ stage.outputNames?, names ≠ [])
    (h : plan.select.listed ≠ []) (happly : plan.apply catalog? stage = .ok after) :
    after.select.listed ≠ [] := by
  cases hnames : stage.outputNames? with
  | some names =>
    obtain ⟨items, hselect, hitems, -⟩ := select_of_outputNames hnames happly
    rw [hselect]
    rintro rfl
    exact hstage names hnames hitems.symm
  | none =>
    rcases select_cases hnames happly with hsame | ⟨assignments, -, hselect⟩ | ⟨names, -, hremove⟩
    · rwa [hsame]
    · rw [hselect]
      exact foldl_assign_keeps (P := fun items => items ≠ []) assignments
        (fun items _ _ _ => overwrite_ne_nil _ _ items) h
    · exact removeNames_ne_nil h hremove

/-! ## Names of outputs -/

/-- The names that the outputs of a plan have. -/
def Plan.outputNames (plan : Plan) : List String :=
  plan.outputs.filterMap SelectItem.outputName?

/-- Where a stage replaces the outputs, it names no two of its own alike. -/
def Query.Stage.NamesApart (stage : Stage) : Prop :=
  ∀ names ∈ stage.outputNames?, (names.filterMap id).Nodup

instance (stage : Stage) : Decidable stage.NamesApart :=
  inferInstanceAs (Decidable (∀ names ∈ stage.outputNames?, (names.filterMap id).Nodup))

theorem Plan.outputNames_eq (plan : Plan) :
    plan.outputNames = plan.select.listed.filterMap SelectItem.outputName? := by
  unfold outputNames outputs
  cases plan.select <;> rfl

/-- Overwriting keeps the names, or adds one that did not occur. -/
theorem names_overwrite (hitem : item.outputName? = some name) (items : List SelectItem) :
    (overwrite name item items).filterMap SelectItem.outputName? =
        items.filterMap SelectItem.outputName? ∨
      name ∉ items.filterMap SelectItem.outputName? ∧
        (overwrite name item items).filterMap SelectItem.outputName? =
          items.filterMap SelectItem.outputName? ++ [name] := by
  induction items with
  | nil => exact .inr ⟨List.not_mem_nil, by simp [overwrite, hitem]⟩
  | cons first rest ih =>
    rw [overwrite]
    split
    · rename_i hfirst
      exact .inl (by simp [hitem, hfirst])
    · rename_i hfirst
      cases hname : first.outputName? with
      | none => simpa [hname] using ih
      | some other =>
        have hne : name ≠ other := by
          rintro rfl
          exact hfirst hname
        rcases ih with hsame | ⟨hfresh, hadded⟩
        · exact .inl (by simp [hname, hsame])
        · exact .inr ⟨by simp [hname, hne, hfresh], by simp [hname, hadded]⟩

theorem nodup_names_overwrite (hitem : item.outputName? = some name)
    (h : (items.filterMap SelectItem.outputName?).Nodup) :
    ((overwrite name item items).filterMap SelectItem.outputName?).Nodup := by
  rcases names_overwrite hitem items with hsame | ⟨hfresh, hadded⟩
  · rwa [hsame]
  · rw [hadded]
    refine List.nodup_append.mpr ⟨h, by simp, ?_⟩
    rintro other hother _ hlast rfl
    exact hfresh (List.mem_singleton.mp hlast ▸ hother)

/-- Where no wildcard is written out, taking names away leaves a part of the items. -/
theorem Plan.listed_removeNames_sublist {names : List String}
    (h : plan.removeNames none names = .ok after) :
    after.select.listed.Sublist plan.select.listed := by
  rcases removeNames_cases h with ⟨-, rfl⟩ | ⟨items, hitems, rfl⟩
  · exact List.Sublist.refl _
  · have hunknown : plan.wildcardColumns? none = none := by simp [wildcardColumns?]
    rw [removable?_eq_some hitems, hunknown]
    exact List.filter_sublist

theorem Plan.nodup_outputNames_apply (hstage : stage.NamesApart) (h : plan.outputNames.Nodup)
    (happly : plan.apply none stage = .ok after) : after.outputNames.Nodup := by
  rw [outputNames_eq] at h ⊢
  cases hnames : stage.outputNames? with
  | some names =>
    obtain ⟨items, hselect, hitems, -⟩ := select_of_outputNames hnames happly
    have hapart := hstage names hnames
    rw [← hitems, List.filterMap_map] at hapart
    rwa [hselect]
  | none =>
    rcases select_cases hnames happly with hsame | ⟨assignments, -, hselect⟩ | ⟨names, -, hremove⟩
    · rwa [hsame]
    · rw [hselect]
      exact foldl_assign_keeps (P := fun items => (items.filterMap SelectItem.outputName?).Nodup)
        assignments (fun _ _ _ hold => nodup_names_overwrite rfl hold) h
    · exact ((listed_removeNames_sublist hremove).filterMap _).nodup h

/-! ## Pipelines -/

/-- Behind each stage of a pipeline the select list is well formed. Without a catalog no two outputs
have the same name there, unless a stage that replaces the outputs names two of its own alike. -/
theorem wellFormed_select {texts : List (List Char)} {front : List Stage}
    (hparse : parsePipeline texts = .ok stages) (hfront : front <+: stages)
    (hplan : Plan.ofStages catalog? front = .ok plan) :
    plan.select.WellFormed ∧
      (catalog? = none → (∀ stage ∈ front, stage.NamesApart) → plan.outputNames.Nodup) := by
  obtain ⟨table, rest, rfl, -, hfold⟩ := Plan.ofStages_eq_ok.mp hplan
  constructor
  · have hsome : plan.select.listed ≠ [] := by
      refine foldlM_keeps (P := fun plan => plan.select.listed ≠ []) ?_ (List.cons_ne_nil _ _) hfold
      intro stage hstage before after hbefore happly
      have hmem := hfront.subset (List.mem_cons_of_mem _ hstage)
      have hown := outputNames_ne_nil_of_parsePipeline hparse stage hmem
      exact Plan.listed_ne_nil_apply hown hbefore happly
    exact SelectList.wellFormed_of_arranged (Plan.arranged_foldlM hfold) hsome
  · rintro rfl hapart
    refine foldlM_keeps (P := fun plan => plan.outputNames.Nodup) ?_ List.nodup_nil hfold
    intro stage hstage before after hbefore happly
    have hown := hapart stage (List.mem_cons_of_mem _ hstage)
    exact Plan.nodup_outputNames_apply hown hbefore happly

def doubledTexts : List (List Char) :=
  ["people".toList, "summarize n = count(), age = max(age) by city".toList,
    "extend n = n * 2, half = n / 2".toList, "project-away age".toList]

def doubledStages : List Stage :=
  [.source "people",
    .summarize [⟨"n", "count", []⟩, ⟨"age", "max", [.column (.bare "age")]⟩] [.bare "city"],
    .extend [⟨"n", .binary (.compute .multiply) (.column (.bare "n")) (.number "2")⟩,
      ⟨"half", .binary (.compute .divide) (.column (.bare "n")) (.number "2")⟩],
    .projectAway ["age"]]

theorem wellFormed_select_doubledTexts :
    parsePipeline doubledTexts = .ok doubledStages ∧
      ∃ plan, Plan.ofStages none doubledStages = .ok plan ∧ plan.select.WellFormed ∧
        plan.outputNames.Nodup := by
  have hparse : parsePipeline doubledTexts = .ok doubledStages := by cbv
  obtain ⟨plan, hplan⟩ : ∃ plan, Plan.ofStages none doubledStages = .ok plan := ⟨_, rfl⟩
  have h := wellFormed_select hparse (List.prefix_refl _) hplan
  refine ⟨hparse, plan, hplan, h.1, h.2 rfl ?_⟩
  decide

end PipeSql
