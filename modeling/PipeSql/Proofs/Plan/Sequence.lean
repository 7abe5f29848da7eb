import PipeSql.Proofs.Plan.Pipeline
import PipeSql.Proofs.Query.Stage.Extended

/-! # Assignments one after the other

An assignment reads the outputs that the assignments before it leave, and it makes no difference
whether these stand in its own stage or in the stage before. Main statement: a stage may be cut
between any two of its assignments. -/

namespace PipeSql

open Query

/-- A step that does what two others do one after the other takes their place in each fold. -/
theorem foldlM_merged {ε α β : Type} {f : β → α → Except ε β} {whole first second : α}
    (h : ∀ b, f b whole = f b first >>= (f · second)) (before after : List α) (b : β) :
    (before ++ whole :: after).foldlM f b = (before ++ first :: second :: after).foldlM f b := by
  simp only [List.foldlM_append, List.foldlM_cons, h, bind_assoc]

variable {catalog? : Option Catalog} {xs ys : List Assignment}

theorem Reach.after_extend_append (catalog : Catalog) (reach : Reach) (xs ys : List Assignment) :
    reach.after catalog (.extend (xs ++ ys)) =
      reach.after catalog (.extend xs) >>= (·.after catalog (.extend ys)) :=
  List.foldlM_append

namespace Plan

theorem apply_extend_append (catalog? : Option Catalog) (plan : Plan) (xs ys : List Assignment) :
    plan.apply catalog? (.extend (xs ++ ys)) =
      plan.apply catalog? (.extend xs) >>= (·.apply catalog? (.extend ys)) := by
  -- the scope of the second stage has the same key columns, since no join stands in between
  simp only [apply_extend, List.foldl_append]
  rfl

theorem extraSource?_merged (before after : List Stage) :
    extraSource? (before ++ .extend (xs ++ ys) :: after) =
      extraSource? (before ++ .extend xs :: .extend ys :: after) := by
  simp [extraSource?, List.findSome?_append]

theorem ofStages_merged (before after : List Stage) :
    ofStages catalog? (before ++ .extend (xs ++ ys) :: after) =
      ofStages catalog? (before ++ .extend xs :: .extend ys :: after) := by
  cases before with
  | nil => rfl
  | cons first before =>
    cases first with
    | source table =>
      rw [List.cons_append, List.cons_append, ofStages, ofStages, extraSource?_merged,
        foldlM_merged (apply_extend_append catalog? · xs ys)]
    | filter | project | projectAway | extend | summarize | orderBy | limit | take | join | top =>
      rfl

end Plan

/-- A stage with assignments may be cut between any two of them: the names are in reach of both
pipelines or of none, with the same error, and both have the same plan or the same error. The text
of the whole stage is that of the two parts, with a comma between their arguments. -/
theorem extend_append (xs ys : List Assignment) :
    (∀ before after : List Stage,
      (∀ catalog, checkNames catalog (before ++ .extend (xs ++ ys) :: after) =
        checkNames catalog (before ++ .extend xs :: .extend ys :: after)) ∧
      ∀ catalog?, Plan.ofStages catalog? (before ++ .extend (xs ++ ys) :: after) =
        Plan.ofStages catalog? (before ++ .extend xs :: .extend ys :: after)) ∧
    ∀ a b : String, parseStage ("extend " ++ a).toList = .ok (.extend xs) →
      parseStage ("extend " ++ b).toList = .ok (.extend ys) →
        parseStage ("extend " ++ a ++ ", " ++ b).toList = .ok (.extend (xs ++ ys)) := by
  refine ⟨fun before after => ⟨fun catalog => ?_, fun catalog? => ?_⟩, fun a b ha hb => ?_⟩
  · rw [checkNames, checkNames, foldlM_merged (Reach.after_extend_append catalog · xs ys)]
  · exact Plan.ofStages_merged before after
  · exact parseStage_extend_append ha hb

/-- A comma inside of a call, and an assignment that reads the one before it. -/
theorem extend_append_nested :
    parseStage "extend n = coalesce(age, 0)".toList =
        .ok (.extend [⟨"n", .call "coalesce" [.column (.bare "age"), .number "0"]⟩]) ∧
      parseStage "extend m = n + 1".toList =
        .ok (.extend [⟨"m", .binary (.compute .add) (.column (.bare "n")) (.number "1")⟩]) ∧
      parseStage "extend n = coalesce(age, 0), m = n + 1".toList =
        .ok (.extend [⟨"n", .call "coalesce" [.column (.bare "age"), .number "0"]⟩,
          ⟨"m", .binary (.compute .add) (.column (.bare "n")) (.number "1")⟩]) := by
  have hfirst : parseStage ("extend " ++ "n = coalesce(age, 0)").toList =
      .ok (.extend [⟨"n", .call "coalesce" [.column (.bare "age"), .number "0"]⟩]) := by cbv
  have hsecond : parseStage ("extend " ++ "m = n + 1").toList =
      .ok (.extend [⟨"m", .binary (.compute .add) (.column (.bare "n")) (.number "1")⟩]) := by cbv
  have hboth := (extend_append _ _).2 _ _ hfirst hsecond
  exact ⟨hfirst, hsecond, hboth⟩

end PipeSql
