/-! The catalog: the tables that are known, each with its columns in order. -/

namespace PipeSql

/-- Known tables in the order in which they were registered; no name stands twice. -/
structure Catalog where
  tables : List (String × List String)
  nodup : (tables.map Prod.fst).Nodup
  deriving DecidableEq

namespace Catalog

/-- The catalog without tables. -/
def empty : Catalog := ⟨[], by simp⟩

instance : Inhabited Catalog := ⟨empty⟩

/-- The columns of a table, if it is known. -/
def columns? (catalog : Catalog) (table : String) : Option (List String) :=
  (catalog.tables.find? fun entry => entry.1 == table).map Prod.snd

/-- Makes a table known; what was known under its name is forgotten. -/
def register (catalog : Catalog) (table : String) (columns : List String) : Catalog where
  tables := (catalog.tables.filter fun entry => entry.1 != table) ++ [(table, columns)]
  nodup := by
    rw [List.map_append, List.nodup_append]
    refine ⟨catalog.nodup.sublist (List.filter_sublist.map _), by simp, ?_⟩
    intro a ha b hb
    obtain ⟨entry, hentry, rfl⟩ := List.mem_map.mp ha
    have hne := (List.mem_filter.mp hentry).2
    simp at hb hne
    exact hb ▸ hne

/-- The names of the tables, in the order of their code points. -/
def names (catalog : Catalog) : List String :=
  (catalog.tables.map Prod.fst).mergeSort fun a b => decide (a ≤ b)

end Catalog

end PipeSql
