/-! Rows of cells. -/

namespace PipeSql

/-- A row cut, or filled up with empty cells, to a width. -/
def fitted (width : Nat) (row : List String) : List String :=
  row.take width ++ List.replicate (width - row.length) ""

theorem length_fitted (width : Nat) (row : List String) : (fitted width row).length = width := by
  simp [fitted]
  omega

theorem fitted_of_length {width : Nat} {row : List String} (h : row.length = width) :
    fitted width row = row := by
  simp [fitted, ← h]

end PipeSql
