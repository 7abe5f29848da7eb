import PipeSql.Text.Offset

/-! # Boundaries

Whether an offset is a boundary is decided by walking along the text. A slice at offsets that are
none is no text at all. -/

namespace PipeSql.Text

variable {cs : List Char} {start stop n : Nat}

theorem boundary_append (before after : List Char) :
    Boundary (before ++ after) (byteSize before) :=
  ⟨before, after, rfl, rfl⟩

theorem boundary_zero (cs : List Char) : Boundary cs 0 :=
  boundary_append [] cs

theorem boundary_byteSize (cs : List Char) : Boundary cs (byteSize cs) := by
  simpa using boundary_append cs []

theorem Boundary.le (h : Boundary cs n) : n ≤ byteSize cs := by
  obtain ⟨before, after, rfl, rfl⟩ := h
  rw [byteSize_append]
  exact Nat.le_add_right _ _

/-- Decides whether an offset is a boundary. -/
def isBoundary : List Char → Nat → Bool
  | _, 0 => true
  | [], _ + 1 => false
  | c :: rest, n + 1 => c.utf8Size ≤ n + 1 && isBoundary rest (n + 1 - c.utf8Size)

theorem isBoundary_iff : isBoundary cs n ↔ Boundary cs n := by
  induction cs generalizing n with
  | nil =>
    cases n with
    | zero => simpa [isBoundary] using boundary_zero []
    | succ n =>
      have hnone : ¬Boundary [] (n + 1) := fun h => absurd h.le (by simp [byteSize])
      simpa [isBoundary] using hnone
  | cons c rest ih =>
    cases n with
    | zero => simpa [isBoundary] using boundary_zero (c :: rest)
    | succ n =>
      rw [isBoundary, Bool.and_eq_true, decide_eq_true_eq, ih]
      constructor
      · rintro ⟨hc, before, after, rfl, hbefore⟩
        exact ⟨c :: before, after, rfl, by rw [byteSize, hbefore]; omega⟩
      · rintro ⟨before, after, hsplit, hbefore⟩
        cases before with
        | nil => cases hbefore
        | cons d before =>
          obtain ⟨rfl, rfl⟩ := List.cons.inj hsplit
          rw [byteSize] at hbefore
          exact ⟨by omega, before, after, rfl, by omega⟩

instance : Decidable (Boundary cs n) :=
  decidable_of_iff _ isBoundary_iff

/-! ## Slices -/

/-- The part of a text between two offsets, if these are boundaries in this order. -/
def slice? (cs : List Char) (start stop : Nat) : Option (List Char) :=
  if start ≤ stop ∧ Boundary cs start ∧ Boundary cs stop then some (slice cs start stop) else none

theorem slice?_eq_some (hle : start ≤ stop) (hstart : Boundary cs start)
    (hstop : Boundary cs stop) : slice? cs start stop = some (slice cs start stop) :=
  if_pos ⟨hle, hstart, hstop⟩

theorem slice?_append (a b c : List Char) :
    slice? (a ++ (b ++ c)) (byteSize a) (byteSize (a ++ b)) = some b := by
  rw [slice?_eq_some (by simp) (boundary_append a _)
      (by simpa using boundary_append (a ++ b) c), byteSize_append, slice_append]

/-- The slice from a boundary to the end. -/
theorem slice?_byteSize (hstart : Boundary cs start) :
    slice? cs start (byteSize cs) = some (dropBytes start cs) := by
  obtain ⟨before, after, rfl, rfl⟩ := hstart
  rw [dropBytes_byteSize]
  simpa using slice?_append before after []

end PipeSql.Text
