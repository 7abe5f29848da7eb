import PipeSql.Proofs.Plan.Arrangement
import PipeSql.Proofs.Plan.Shared

/-! # What names stand for when others are taken away

Taking names away writes the wildcard out as columns in front of what `extend` computed, and a name
stands for its first output. Main statement: another name stands for the same as before, unless an
output computes another value under the name of a column of the wildcard. -/

namespace PipeSql

open Query

variable {catalog? : Option Catalog} {plan after : Plan} {names columns : List String}
  {items : List SelectItem} {name : String}

namespace Plan

/-- The wildcard stands for a column of the name, and it is known to. -/
def WildcardHas (catalog? : Option Catalog) (plan : Plan) (name : String) : Prop :=
  .everything ∈ plan.select.listed ∧ ∃ columns ∈ plan.wildcardColumns? catalog?, name ∈ columns

/-- An output computes another value under the name of a column that the wildcard stands for. -/
def Hides (catalog? : Option Catalog) (plan : Plan) (name : String) : Prop :=
  plan.WildcardHas catalog? name ∧ ∃ expr label,
    plan.scope.output? name = some (.value expr label) ∧ expr ≠ .column (.bare name)

end Plan

/-! ## Outputs of other names -/

/-- Written out, the wildcard stands in front of all other outputs. -/
theorem Arranged.namedItem?_expanded (h : Arranged items) (hall : .everything ∈ items)
    (hname : name ∈ columns) :
    namedItem? (Plan.expanded columns items) name = some (.ofColumn name) := by
  cases h with
  | starred hrest =>
    have hexpanded : ∀ rest, Plan.expanded columns (.everything :: rest) =
        columns.map .ofColumn ++ Plan.expanded columns rest := fun _ => rfl
    rw [hexpanded, namedItem?_append, namedItem?_map_ofColumn, if_pos hname, Option.some_or]
  | named habsent => exact absurd hall habsent

/-- What stands behind the wildcard under a name was computed by `extend`. -/
theorem Arranged.exists_of_namedItem? (h : Arranged items) (hall : .everything ∈ items)
    {item : SelectItem} (hitem : namedItem? items name = some item) :
    ∃ expr label, item = .value expr label := by
  cases h with
  | starred hrest =>
    rcases List.mem_cons.mp (mem_of_namedItem? hitem) with rfl | hmem
    · exact absurd hitem namedItem?_ne_everything
    · exact hrest item hmem
  | named habsent => exact absurd hall habsent

section Removal

variable (happly : plan.removeNames catalog? names = .ok after) (hname : name ∉ names)

include happly hname

theorem Plan.output?_of_wildcardHas (h : Arranged plan.select.listed)
    (hwild : plan.WildcardHas catalog? name) :
    after.scope.output? name = some (.ofColumn name) := by
  obtain ⟨hall, columns, hcolumns, hmem⟩ := hwild
  have hcolumns : plan.wildcardColumns? catalog? = some columns := hcolumns
  rcases removeNames_cases happly with ⟨hnone, -⟩ | ⟨items, hitems, rfl⟩
  · unfold removable? at hnone
    rw [hcolumns] at hnone
    cases hselect : plan.select <;> simp [hselect] at hnone
  · rw [scope_output?]
    refine (namedItem?_filter names items).trans ?_
    rw [if_neg hname, removable?_eq_some hitems, hcolumns]
    exact h.namedItem?_expanded hall hmem

theorem Plan.output?_of_not_wildcardHas (hwild : ¬ plan.WildcardHas catalog? name) :
    after.scope.output? name = plan.scope.output? name := by
  rcases removeNames_cases happly with ⟨-, rfl⟩ | ⟨items, hitems, rfl⟩
  · rfl
  · rw [scope_output?, scope_output?]
    refine (namedItem?_filter names items).trans ?_
    rw [if_neg hname, removable?_eq_some hitems]
    cases hcolumns : plan.wildcardColumns? catalog? with
    | none => rfl
    | some columns =>
      refine (namedItem?_expanded columns plan.select.listed).resolve_right ?_
      rintro ⟨hall, hmem, -⟩
      exact hwild ⟨hall, columns, hcolumns, hmem⟩

end Removal

/-! ## What names stand for -/

/-- Behind the wildcard a name stands for what `extend` computes, or for the column itself. -/
theorem Plan.resolveColumn_of_wildcardHas (h : Arranged plan.select.listed)
    (hwild : plan.WildcardHas catalog? name) (inSelect : Bool) :
    plan.scope.output? name = none ∧
        plan.scope.resolveColumn inSelect (.bare name) = .column (.bare name) ∨
      ∃ expr label, plan.scope.output? name = some (.value expr label) ∧
        plan.scope.resolveColumn inSelect (.bare name) = expr := by
  obtain ⟨hall, columns, hcolumns, -⟩ := hwild
  cases hitem : plan.scope.output? name with
  | none =>
    have hjoins : plan.joins = [] := by
      by_contra hjoins
      simp [wildcardColumns?, hjoins] at hcolumns
    refine .inl ⟨rfl, ?_⟩
    rw [Scope.resolveColumn_bare, hitem]
    simp [Scope.qualify, scope, hjoins]
  | some item =>
    have hlisted := (plan.scope_output? name).symm.trans hitem
    obtain ⟨expr, label, rfl⟩ := h.exists_of_namedItem? hall hlisted
    refine .inr ⟨expr, label, rfl, ?_⟩
    rw [Scope.resolveColumn_bare, hitem]

/-- Taking other names away changes what a name stands for exactly where an output hides a column
of that name. -/
theorem resolveColumn_projectAway_iff {stages : List Stage} {table : String}
    (hplan : stages.foldlM (Plan.apply catalog?) (Plan.ofTable table) = .ok plan)
    (happly : plan.apply catalog? (.projectAway names) = .ok after) (hname : name ∉ names)
    (inSelect : Bool) :
    after.scope.resolveColumn inSelect (.bare name) =
        plan.scope.resolveColumn inSelect (.bare name) ↔
      ¬ plan.Hides catalog? name := by
  have harranged := Plan.arranged_foldlM hplan
  by_cases hwild : plan.WildcardHas catalog? name
  · -- the name now stands for the column that the wildcard is written out to
    have hafter : after.scope.resolveColumn inSelect (.bare name) = .column (.bare name) := by
      rw [Scope.resolveColumn_bare, Plan.output?_of_wildcardHas happly hname harranged hwild]
      rfl
    rw [hafter]
    rcases Plan.resolveColumn_of_wildcardHas harranged hwild inSelect with
      ⟨hnone, hsame⟩ | ⟨expr, label, houtput, hexpr⟩
    · rw [hsame]
      refine iff_of_true rfl ?_
      rintro ⟨-, expr, label, houtput, -⟩
      rw [hnone] at houtput
      cases houtput
    · rw [hexpr]
      constructor
      · rintro heq ⟨-, other, label', hother, hne⟩
        obtain rfl : expr = other := by
          rw [houtput] at hother
          cases hother
          rfl
        exact hne heq.symm
      · intro hhides
        by_contra hne
        exact hhides ⟨hwild, expr, label, houtput, Ne.symm hne⟩
  · obtain ⟨select, hafter⟩ := Plan.eq_of_removeNames happly
    have hkeys : after.scope.keys = plan.scope.keys := by
      rw [hafter]
      rfl
    refine iff_of_true ?_ fun hhides => hwild hhides.1
    rw [Scope.resolveColumn_bare, Scope.resolveColumn_bare,
      Plan.output?_of_not_wildcardHas happly hname hwild]
    simp only [Scope.qualify, hkeys]

def overwriteAge : Stage :=
  .extend [⟨"age", .binary (.compute .multiply) (.column (.bare "age")) (.number "2")⟩]

def nameAndAge : Stage :=
  .project [⟨.column (.bare "name"), none⟩, ⟨.column (.bare "age"), none⟩]

/-- Where no wildcard is left, the computed value stays. -/
theorem resolveColumn_projectAway_iff_nameAndAge :
    ∃ plan after, [overwriteAge, nameAndAge].foldlM (Plan.apply (some townCatalog))
          (.ofTable "people") = .ok plan ∧
        plan.apply (some townCatalog) (.projectAway ["name"]) = .ok after ∧ "age" ∉ ["name"] ∧
        ∀ inSelect, after.scope.resolveColumn inSelect (.bare "age") =
          plan.scope.resolveColumn inSelect (.bare "age") := by
  obtain ⟨plan, hplan⟩ : ∃ plan, [overwriteAge, nameAndAge].foldlM
      (Plan.apply (some townCatalog)) (.ofTable "people") = .ok plan := ⟨_, rfl⟩
  obtain ⟨after, happly⟩ : ∃ after,
      plan.apply (some townCatalog) (.projectAway ["name"]) = .ok after := by
    cases hplan
    exact ⟨_, rfl⟩
  have hnone : .everything ∉ plan.select.listed := by
    cases hplan
    change .everything ∉ [SelectItem.value _ none, SelectItem.value _ (some "age")]
    simp
  refine ⟨plan, after, hplan, happly, by decide, fun inSelect => ?_⟩
  exact (resolveColumn_projectAway_iff hplan happly (by decide) inSelect).mpr
    fun hhides => hnone hhides.1.1

/-- The wildcard is written out, with the table's own column in front of the computed one. -/
theorem not_resolveColumn_projectAway_overwriteAge :
    ∃ plan after, Plan.ofStages (some townCatalog) [.source "people", overwriteAge] = .ok plan ∧
      plan.apply (some townCatalog) (.projectAway ["city"]) = .ok after ∧ "age" ∉ ["city"] ∧
      ∀ inSelect, after.scope.resolveColumn inSelect (.bare "age") ≠
        plan.scope.resolveColumn inSelect (.bare "age") :=
  ⟨_, _, rfl, rfl, by decide, fun inSelect h => by cases h⟩

end PipeSql
