import PipeSql.Proofs.Plan.Pipeline
import PipeSql.Proofs.Plan.Shared
import PipeSql.Proofs.Query.Stage.Keys

/-! # Two ways to write a join on key columns

A list of names, or the conjunction of `$left.name == $right.name`. Both have the same plan. Main
statement: exactly when both are accepted or neither is. A key has to be a column on both sides of
the join, but the column that is named on one side may be found on the other. -/

namespace PipeSql

open Query

variable {catalog : Catalog} {catalog? : Option Catalog} {reach next : Reach} {keys : List String}
  {side key table : String} {kind : JoinKind} {columns : List String} {stage : Stage}
  {before after : List Stage}

/-! ## Plans -/

theorem toLower_sides : "$left".toLower = "$left" ∧ "$right".toLower = "$right" := by
  constructor <;> rw [Text.toLower_eq_map, ← String.toList_inj, String.toList_map] <;> decide

theorem nameSides_keyEquality (left right key : String) :
    nameSides left right (keyEquality "$left" "$right" key) = keyEquality left right key := by
  simp [nameSides, keyEquality, Expr.mapColumns, Column.of, toLower_sides]

/-- Naming the sides of the conjunction gives the condition of the key columns. -/
theorem nameSides_keysEqual (left right : String) (keys : List String) :
    nameSides left right (keysEqual "$left" "$right" keys) = keysEqual left right keys := by
  cases keys with
  | nil => rfl
  | cons key keys =>
    rw [keysEqual, keysEqual, ← nameSides_keyEquality left right key]
    generalize keyEquality "$left" "$right" key = all
    induction keys generalizing all with
    | nil => rfl
    | cons next keys ih =>
      rw [List.foldl_cons, List.foldl_cons, ih, ← nameSides_keyEquality left right next]
      rfl

theorem Plan.apply_join_condition (catalog? : Option Catalog) (plan : Plan) (kind : JoinKind)
    (table : String) (keys : List String) :
    plan.apply catalog? (.join kind table (.condition (keysEqual "$left" "$right" keys))) =
      plan.apply catalog? (.join kind table (.keys keys)) := by
  simp only [apply, nameSides_keysEqual]

/-! ## Names in reach -/

/-- What a conjunction of equalities has, its equalities have one after the other. -/
theorem flatMap_keysEqual {α : Type} {parts : Expr → List α} (htrue : parts (.bool true) = [])
    (hand : ∀ a b, parts (.binary (.connect .and) a b) = parts a ++ parts b)
    (left right : String) (keys : List String) :
    parts (keysEqual left right keys) =
      keys.flatMap fun key => parts (keyEquality left right key) := by
  cases keys with
  | nil => exact htrue
  | cons key keys =>
    rw [keysEqual, List.flatMap_cons]
    generalize keyEquality left right key = all
    induction keys generalizing all with
    | nil => simp
    | cons next keys ih => rw [List.foldl_cons, ih, hand, List.append_assoc, List.flatMap_cons]

theorem columns_keysEqual (left right : String) (keys : List String) :
    (keysEqual left right keys).columns =
      keys.flatMap fun key => [.of left key, .of right key] :=
  flatMap_keysEqual rfl (fun _ _ => rfl) left right keys

theorem equatedNames_keysEqual {left right : String} (h : left ≠ right) (keys : List String) :
    equatedNames (keysEqual left right keys) = keys := by
  have hkey : ∀ key, equatedNames (keyEquality left right key) = [key] := fun key => by
    simp [keyEquality, equatedNames, Column.of, h]
  have hall : equatedNames (keysEqual left right keys) =
      keys.flatMap fun key => equatedNames (keyEquality left right key) :=
    flatMap_keysEqual rfl (fun _ _ => rfl) left right keys
  rw [hall]
  simp only [hkey, List.flatMap_singleton']

namespace Reach

/-- The names in reach of the condition of a join, where the table has these columns. -/
def joined (reach : Reach) (table : String) (columns : List String) : Reach :=
  { reach with tables := reach.tables ++ [table], columns := reach.columns ++ columns }

/-- The names in reach behind a join on key columns. -/
def behindKeys (reach : Reach) (table : String) (columns keys : List String) : Reach :=
  { reach.joined table columns with
    ambiguous := reach.ambiguous ++ (columns.filter reach.columns.contains).filter
      fun name => !keys.contains name }

/-- A key is found for a column of a side: among all columns in reach, unless a table has the name
of the side. -/
def Finds (catalog : Catalog) (reach : Reach) (side key : String) : Prop :=
  if side ∈ reach.tables then catalog.Lists side key else key ∈ reach.columns

instance (catalog : Catalog) (reach : Reach) (side key : String) :
    Decidable (reach.Finds catalog side key) :=
  inferInstanceAs (Decidable (if side ∈ reach.tables then catalog.Lists side key
    else key ∈ reach.columns))

theorem checkColumn_side (hside : IsSide side) :
    reach.checkColumn catalog (.of side key) = .ok () ↔ reach.Finds catalog side key := by
  obtain ⟨front, hlist, -⟩ := hside
  have hdollar : side.toList.head? = some '$' := by rw [hlist, List.head?_cons]
  unfold Finds
  simp only [checkColumn, Column.of, hdollar, if_true, List.contains_iff_mem]
  split
  · simp [Catalog.Lists, Option.any_eq_true]
  · exact checkName_eq_ok

theorem checkExpr_keysEqual {left right : String} (hleft : IsSide left) (hright : IsSide right) :
    reach.checkExpr catalog (keysEqual left right keys) = .ok () ↔
      ∀ key ∈ keys, reach.Finds catalog left key ∧ reach.Finds catalog right key := by
  rw [checkExpr_eq_ok, columns_keysEqual, List.forall_mem_flatMap]
  simp only [List.forall_mem_cons, checkColumn_side hleft, checkColumn_side hright,
    List.not_mem_nil, false_imp_iff, implies_true, and_true]

theorem after_keys_iff :
    reach.after catalog (.join kind table (.keys keys)) = .ok next ↔
      ∃ columns, catalog.columns? table = some columns ∧
        (∀ key ∈ keys, key ∈ reach.columns ∧ key ∈ columns) ∧
          reach.behindKeys table columns keys = next := by
  simp only [after_join_keys, checkKey_eq_ok]
  rfl

theorem after_sides_iff :
    reach.after catalog (.join kind table (.condition (keysEqual "$left" "$right" keys))) =
        .ok next ↔
      ∃ columns, catalog.columns? table = some columns ∧
        (∀ key ∈ keys, (reach.joined table columns).Finds catalog "$left" key ∧
          (reach.joined table columns).Finds catalog "$right" key) ∧
          reach.behindKeys table columns keys = next := by
  have hsides : "$left" ≠ "$right" := by decide
  simp only [after_join_condition, equatedNames_keysEqual hsides,
    checkExpr_keysEqual isSide_left isSide_right]
  rfl

end Reach

/-! ## Pipelines -/

/-- The stages around a join on key columns are accepted: `reach` is in reach in front of it, and
the table has the columns. -/
structure AcceptsAround (catalog : Catalog) (before after : List Stage) (table : String)
    (keys : List String) (reach : Reach) (columns : List String) : Prop where
  front : before.foldlM (Reach.after catalog) .empty = .ok reach
  listed : catalog.columns? table = some columns
  behind : ∃ last, after.foldlM (Reach.after catalog) (reach.behindKeys table columns keys) =
    .ok last

/-- If the stage needs `needs`, and has the names of key columns in reach behind it, the pipeline is
accepted when the other stages are and `needs` is given. -/
theorem checkNames_around_iff {needs : Reach → List String → Prop}
    (h : ∀ reach next, reach.after catalog stage = .ok next ↔
      ∃ columns, catalog.columns? table = some columns ∧ needs reach columns ∧
        reach.behindKeys table columns keys = next) :
    checkNames catalog (before ++ stage :: after) = .ok () ↔
      ∃ reach columns, AcceptsAround catalog before after table keys reach columns ∧
        needs reach columns := by
  simp only [checkNames_eq_ok, List.foldlM_append, List.foldlM_cons, bind_eq_ok_iff, h]
  constructor
  · rintro ⟨last, reach, hreach, -, ⟨columns, hcolumns, hneeds, rfl⟩, hlast⟩
    exact ⟨reach, columns, ⟨hreach, hcolumns, last, hlast⟩, hneeds⟩
  · rintro ⟨reach, columns, ⟨hreach, hcolumns, last, hlast⟩, hneeds⟩
    exact ⟨last, reach, hreach, _, ⟨columns, hcolumns, hneeds, rfl⟩, hlast⟩

/-- What is in reach around a join is settled by the other stages. -/
theorem AcceptsAround.exists_iff {needs : Reach → List String → Prop}
    (h : AcceptsAround catalog before after table keys reach columns) :
    (∃ reach columns, AcceptsAround catalog before after table keys reach columns ∧
      needs reach columns) ↔ needs reach columns := by
  constructor
  · rintro ⟨reach', columns', h', hneeds⟩
    obtain rfl := Except.ok.inj (h.front.symm.trans h'.front)
    obtain rfl := Option.some.inj (h.listed.symm.trans h'.listed)
    exact hneeds
  · exact fun hneeds => ⟨reach, columns, h, hneeds⟩

/-- The two ways to write a join on key columns have the same plan behind each plan, and are read
from their two texts. Among other stages that are accepted, both are accepted or neither is exactly
when all keys are columns on both sides, or not all of them are found: a key that one side alone has
is refused in the list, but found for both sides in the conjunction. -/
theorem join_spellings (keys : List String) (hne : keys ≠ []) :
    (∀ catalog? (plan : Plan) kind table,
      plan.apply catalog? (.join kind table (.condition (keysEqual "$left" "$right" keys))) =
        plan.apply catalog? (.join kind table (.keys keys))) ∧
    (∀ text table, TableText text table → (∀ key ∈ keys, IsKey key) →
      parseStage ("join " ++ text ++ " on " ++ ", ".intercalate keys).toList =
          .ok (.join .inner table (.keys keys)) ∧
        parseStage ("join " ++ text ++ " on " ++ " and ".intercalate (keys.map sidesText)).toList =
          .ok (.join .inner table (.condition (keysEqual "$left" "$right" keys)))) ∧
    ∀ catalog before kind table after,
      (checkNames catalog (before ++ .join kind table (.keys keys) :: after) = .ok () ↔
        checkNames catalog (before ++
          .join kind table (.condition (keysEqual "$left" "$right" keys)) :: after) = .ok ()) ↔
      ∀ reach columns, AcceptsAround catalog before after table keys reach columns →
        ((∀ key ∈ keys, key ∈ reach.columns ∧ key ∈ columns) ↔
          ∀ key ∈ keys, (reach.joined table columns).Finds catalog "$left" key ∧
            (reach.joined table columns).Finds catalog "$right" key) := by
  refine ⟨fun catalog? plan kind table => plan.apply_join_condition catalog? kind table keys,
    fun text table htext hkeys => parseStage_join_keys htext hkeys hne,
    fun catalog before kind table after => ?_⟩
  rw [checkNames_around_iff fun reach next => Reach.after_keys_iff,
    checkNames_around_iff fun reach next => Reach.after_sides_iff]
  constructor
  · intro hagree reach columns haround
    rwa [haround.exists_iff, haround.exists_iff] at hagree
  · intro hagree
    constructor <;> rintro ⟨reach, columns, haround, hneeds⟩
    · exact ⟨reach, columns, haround, (hagree reach columns haround).mp hneeds⟩
    · exact ⟨reach, columns, haround, (hagree reach columns haround).mpr hneeds⟩

/-- Both tables have the keys, and both pipelines are accepted or none. -/
theorem join_spellings_cityAndName :
    parseStage "join (cities) on city, name".toList =
        .ok (.join .inner "cities" (.keys ["city", "name"])) ∧
      parseStage
          "join (cities) on $left.city == $right.city and $left.name == $right.name".toList =
        .ok (.join .inner "cities" (.condition (keysEqual "$left" "$right" ["city", "name"]))) ∧
      (checkNames townCatalog [.source "people",
          .join .inner "cities" (.keys ["city", "name"])] = .ok () ↔
        checkNames townCatalog [.source "people", .join .inner "cities"
          (.condition (keysEqual "$left" "$right" ["city", "name"]))] = .ok ()) := by
  have htable : IsTableName "cities".toList := ⟨by decide, by decide⟩
  have havoids : AvoidsOn "cities".toList :=
    ⟨[⟨.ident "cities", 0, 6⟩], by cbv,
      by simp [Token.isKeyword, ← Bool.not_eq_true, Text.agree_iff]⟩
  have hkeys : ∀ key ∈ ["city", "name"], IsKey key := by
    simp only [List.forall_mem_cons, List.not_mem_nil, false_imp_iff, implies_true, and_true]
    exact ⟨⟨⟨0, 4, by cbv⟩, by decide⟩, ⟨⟨0, 4, by cbv⟩, by decide⟩⟩
  have htext : TableText "(cities)" "cities" := (tableText_of_isTableName htable havoids).2
  obtain ⟨-, htexts, hnames⟩ := join_spellings ["city", "name"] (by decide)
  obtain ⟨hlist, hequalities⟩ := htexts "(cities)" "cities" htext hkeys
  refine ⟨hlist, hequalities, (hnames townCatalog [.source "people"] .inner "cities" []).mpr ?_⟩
  intro reach columns haround
  obtain rfl : (⟨["people"], ["name", "city", "age"], []⟩ : Reach) = reach :=
    Except.ok.inj haround.front
  obtain rfl : ["city", "country", "name"] = columns := Option.some.inj haround.listed
  decide

/-- Only the joined table has the column, which is found for the other side all the same. -/
theorem not_join_spellings_country :
    checkNames townCatalog [.source "people", .join .inner "cities" (.keys ["country"])] =
        .error (.unknownColumn "country") ∧
      checkNames townCatalog [.source "people", .join .inner "cities"
        (.condition (keysEqual "$left" "$right" ["country"]))] = .ok () :=
  ⟨rfl, rfl⟩

end PipeSql
