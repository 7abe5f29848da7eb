import PipeSql.Proofs.Plan.Removal

/-! # Names in conditions

Which names an expression names without a table, and which ones the condition of a join equates, so
that they stand for the column of one of its tables. -/

namespace PipeSql

open Query

theorem Query.Column.eq_bare {column : Column} (h : column.table = none) :
    column = .bare column.name := by
  cases column
  cases h
  rfl

namespace Query.Expr

/-- The names of the columns that an expression names without a table. -/
def bareNames (expr : Expr) : List String :=
  (expr.columns.filter fun c => c.table.isNone).map Column.name

theorem mem_bareNames {expr : Expr} {name : String} :
    name ∈ expr.bareNames ↔ Column.bare name ∈ expr.columns := by
  constructor
  · intro h
    obtain ⟨column, hcolumn, rfl⟩ := List.mem_map.mp h
    obtain ⟨hmem, hnone⟩ := List.mem_filter.mp hcolumn
    rwa [← Column.eq_bare (by simpa using hnone)]
  · intro h
    exact List.mem_map.mpr ⟨.bare name, List.mem_filter.mpr ⟨h, rfl⟩, rfl⟩

theorem columns_mapColumns (f : Column → Expr) (expr : Expr) :
    (expr.mapColumns f).columns = expr.columns.flatMap fun c => (f c).columns := by
  induction expr using Expr.tree_induction with
  | column c => simp [mapColumns, columns]
  | text | number | bool => rfl
  | binary op left right hleft hright => simp [mapColumns, columns, hleft, hright]
  | call function arguments ih | aggregate function arguments ih =>
    simp only [mapColumns_call, columns_call, mapColumns_aggregate, columns_aggregate,
      List.flatMap_map, List.flatMap_assoc]
    exact List.flatMap_congr ih

end Query.Expr

/-! ## Equated names -/

/-- The names that a condition equates in two tables that it names. -/
def keyNames : Expr → List String
  | .binary (.connect .and) left right => keyNames left ++ keyNames right
  | .binary (.compare .equal) (.column left) (.column right) =>
    if left.table.isSome && right.table.isSome && left.name == right.name then [left.name] else []
  | _ => []

/-- The names that stand for a column of one table behind a join. -/
def Query.JoinCondition.keyNames : JoinCondition → List String
  | .keys names => names
  | .condition expr => PipeSql.keyNames expr

/-- Naming other tables does not change the names that are equated. -/
theorem keyNames_nameSides (left right : String) (expr : Expr) :
    keyNames (nameSides left right expr) = keyNames expr := by
  unfold nameSides
  induction expr using Expr.tree_induction with
  | binary op first second hfirst hsecond =>
    cases op with
    | connect op => cases op <;> simp [Expr.mapColumns, keyNames, hfirst, hsecond]
    | compute op => rfl
    | compare op =>
      cases op with
      | equal => cases first <;> cases second <;> simp [Expr.mapColumns, keyNames]
      | notEqual | less | greater | lessEqual | greaterEqual | like | unlike => rfl
  | column | text | number | bool | call | aggregate => rfl

theorem keyNames_keysEqual (left right : String) (names : List String) :
    keyNames (keysEqual left right names) = names := by
  cases names with
  | nil => rfl
  | cons first rest =>
    have hfold : ∀ (rest : List String) (all : Expr),
        keyNames (rest.foldl (fun all next =>
          .binary (.connect .and) all (keyEquality left right next)) all) =
        keyNames all ++ rest := by
      intro rest
      induction rest with
      | nil => simp
      | cons next rest ih =>
        intro all
        rw [List.foldl_cons, ih]
        simp [keyNames, keyEquality, Column.of]
    rw [keysEqual, hfold]
    simp [keyNames, keyEquality, Column.of]

/-- The columns that a condition equates have the names that it equates. -/
theorem names_keyColumns (table : String) (expr : Expr) :
    (keyColumns table expr).map Column.name = keyNames expr := by
  fun_induction keyColumns table expr with
  | case1 left right hleft hright => rw [List.map_append, hleft, hright, keyNames]
  | case2 left right h =>
    have hname : left.name = right.name := by simpa using (Bool.and_eq_true_iff.mp h).2
    rw [keyNames, if_pos h]
    split <;> simp [hname]
  | case3 left right h => rw [keyNames, if_neg h, List.map_nil]
  | case4 expr hand hequal => rw [keyNames] <;> simp_all

theorem isSome_table_of_keyColumns {table : String} {expr : Expr} :
    ∀ key ∈ keyColumns table expr, key.table.isSome := by
  fun_induction keyColumns table expr with
  | case1 left right hleft hright =>
    intro key hkey
    rcases List.mem_append.mp hkey with hkey | hkey
    · exact hleft key hkey
    · exact hright key hkey
  | case2 left right h =>
    intro key hkey
    simp only [Bool.and_eq_true] at h
    rw [List.mem_singleton] at hkey
    subst hkey
    split
    · exact h.1.2
    · exact h.1.1
  | case3 | case4 => simp

/-- The columns that joins equate are named with tables. -/
theorem Plan.isSome_table_of_mem_keys {plan : Plan} {key : Column} (h : key ∈ plan.scope.keys) :
    key.table.isSome := by
  obtain ⟨join, -, hkey⟩ := List.mem_flatMap.mp h
  exact isSome_table_of_keyColumns key hkey

/-- A join adds its own names to those that stand for a column of one table. -/
theorem Plan.names_keys_join {catalog? : Option Catalog} {plan after : Plan} {kind : JoinKind}
    {table : String} {on : JoinCondition}
    (h : plan.apply catalog? (.join kind table on) = .ok after) :
    after.scope.keys.map Column.name = plan.scope.keys.map Column.name ++ on.keyNames := by
  cases h
  cases on with
  | keys names =>
    simp [scope, names_keyColumns, keyNames_keysEqual, JoinCondition.keyNames]
  | condition expr =>
    simp [scope, names_keyColumns, keyNames_nameSides, JoinCondition.keyNames]

end PipeSql
