/-! Comparison that ignores the case of ASCII letters. -/

namespace PipeSql.Text

/-- Two strings agree when they differ only in the case of ASCII letters. -/
def agree (a b : String) : Bool :=
  a.toLower == b.toLower

theorem toLower_eq_map (s : String) : s.toLower = s.map Char.toLower :=
  rfl

theorem agree_iff {a b : String} :
    agree a b ↔ a.toList.map Char.toLower = b.toList.map Char.toLower := by
  rw [agree, beq_iff_eq, toLower_eq_map, toLower_eq_map, ← String.toList_inj, String.toList_map,
    String.toList_map]

end PipeSql.Text
