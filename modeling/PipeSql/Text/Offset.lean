/-!
Positions in a text are byte offsets of its UTF-8 form. A slice is given by two offsets, and the
offsets that fall between two characters are the boundaries of the text.
-/

namespace PipeSql.Text

/-- The number of bytes of the UTF-8 form. -/
def byteSize : List Char → Nat
  | [] => 0
  | c :: rest => c.utf8Size + byteSize rest

/-- Leaves out the characters that start before the byte offset `n`. -/
def dropBytes : Nat → List Char → List Char
  | 0, cs => cs
  | _ + 1, [] => []
  | n + 1, c :: rest => dropBytes (n + 1 - c.utf8Size) rest

/-- The characters that start before the byte offset `n`. -/
def takeBytes : Nat → List Char → List Char
  | 0, _ => []
  | _ + 1, [] => []
  | n + 1, c :: rest => c :: takeBytes (n + 1 - c.utf8Size) rest

/-- The part of a text between two byte offsets. -/
def slice (cs : List Char) (start stop : Nat) : List Char :=
  takeBytes (stop - start) (dropBytes start cs)

/-- The byte offset `n` falls between two characters of the text, or at one of its ends. -/
def Boundary (cs : List Char) (n : Nat) : Prop :=
  ∃ before after, cs = before ++ after ∧ byteSize before = n

@[simp]
theorem byteSize_append (a b : List Char) : byteSize (a ++ b) = byteSize a + byteSize b := by
  induction a with
  | nil => simp [byteSize]
  | cons c a ih => simp [byteSize, ih, Nat.add_assoc]

theorem dropBytes_byteSize (a b : List Char) : dropBytes (byteSize a) (a ++ b) = b := by
  induction a with
  | nil => simp [byteSize, dropBytes]
  | cons c a ih =>
    have hpos := c.utf8Size_pos
    obtain ⟨n, hn⟩ : ∃ n, byteSize (c :: a) = n + 1 :=
      ⟨byteSize (c :: a) - 1, by simp only [byteSize]; omega⟩
    have hrest : n + 1 - c.utf8Size = byteSize a := by simp only [byteSize] at hn; omega
    simp [hn, dropBytes, hrest, ih]

theorem takeBytes_byteSize (a b : List Char) : takeBytes (byteSize a) (a ++ b) = a := by
  induction a with
  | nil => simp [byteSize, takeBytes]
  | cons c a ih =>
    have hpos := c.utf8Size_pos
    obtain ⟨n, hn⟩ : ∃ n, byteSize (c :: a) = n + 1 :=
      ⟨byteSize (c :: a) - 1, by simp only [byteSize]; omega⟩
    have hrest : n + 1 - c.utf8Size = byteSize a := by simp only [byteSize] at hn; omega
    simp [hn, takeBytes, hrest, ih]

/-- A slice between two boundaries is the text between them. -/
theorem slice_append (a b c : List Char) :
    slice (a ++ (b ++ c)) (byteSize a) (byteSize a + byteSize b) = b := by
  simp [slice, dropBytes_byteSize, takeBytes_byteSize]

end PipeSql.Text
