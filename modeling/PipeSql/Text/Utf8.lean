import PipeSql.Text.Offset

/-!
Reading UTF-8: the characters of a run of bytes, with the places where no character can be read.
A fault takes the longest run of bytes that could have started a character, or else one byte.
-/

namespace PipeSql.Text

/-- What the first byte of a longer character tells: how many bytes follow, between which bounds
the next one lies, and the bits that it holds itself. -/
structure Lead where
  following : Nat
  low : Nat
  high : Nat
  bits : Nat

/-- The bytes that start a character of two to four bytes. The bounds exclude forms that are too
long, surrogates, and code points beyond the last. -/
def lead? (b : Nat) : Option Lead :=
  if 0xC2 ≤ b && b ≤ 0xDF then some ⟨1, 0x80, 0xBF, b - 0xC0⟩
  else if b = 0xE0 then some ⟨2, 0xA0, 0xBF, 0⟩
  else if b = 0xED then some ⟨2, 0x80, 0x9F, 0xD⟩
  else if 0xE1 ≤ b && b ≤ 0xEF then some ⟨2, 0x80, 0xBF, b - 0xE0⟩
  else if b = 0xF0 then some ⟨3, 0x90, 0xBF, 0⟩
  else if 0xF1 ≤ b && b ≤ 0xF3 then some ⟨3, 0x80, 0xBF, b - 0xF0⟩
  else if b = 0xF4 then some ⟨3, 0x80, 0x8F, 4⟩
  else none

/-- Reads the bytes that follow a lead: the code point, or nothing where a byte does not fit; and
the bytes behind. -/
def readFollowing (n low high bits : Nat) : List UInt8 → Option Nat × List UInt8
  | [] => (if n = 0 then some bits else none, [])
  | b :: rest =>
    if n = 0 then (some bits, b :: rest)
    else if low ≤ b.toNat && b.toNat ≤ high then
      readFollowing (n - 1) 0x80 0xBF (64 * bits + (b.toNat - 0x80)) rest
    else (none, b :: rest)

theorem length_readFollowing_le (n low high bits : Nat) (bytes : List UInt8) :
    (readFollowing n low high bits bytes).2.length ≤ bytes.length := by
  induction bytes generalizing n low high bits with
  | nil => simp [readFollowing]
  | cons b rest ih =>
    unfold readFollowing
    split
    · simp
    · split
      · exact Nat.le_succ_of_le (ih ..)
      · simp

/-- Reads the character that starts with the byte `b`, if there is one, and the bytes behind. -/
def readChar (b : UInt8) (rest : List UInt8) : Option Char × List UInt8 :=
  if b.toNat < 0x80 then (some (Char.ofNat b.toNat), rest)
  else
    match lead? b.toNat with
    | none => (none, rest)
    | some lead =>
      let (code?, behind) := readFollowing lead.following lead.low lead.high lead.bits rest
      (code?.map Char.ofNat, behind)

theorem length_readChar_le (b : UInt8) (rest : List UInt8) :
    (readChar b rest).2.length ≤ rest.length := by
  unfold readChar
  split
  · simp
  · split
    · simp
    · exact length_readFollowing_le ..

/-- The characters of a run of bytes; nothing stands for a fault. -/
def decoded : List UInt8 → List (Option Char)
  | [] => []
  | b :: rest => (readChar b rest).1 :: decoded (readChar b rest).2
  termination_by bytes => bytes.length
  decreasing_by
    have := length_readChar_le b rest
    simp
    omega

/-- The text of a run of bytes without faults. -/
def ofUtf8? (bytes : List UInt8) : Option String :=
  ((decoded bytes).mapM id).map String.ofList

/-- The text of a run of bytes, with a replacement character for each fault. -/
def ofUtf8Lossy (bytes : List UInt8) : String :=
  String.ofList ((decoded bytes).map fun c? => c?.getD '\uFFFD')

/-- The number of bytes in front of the first fault. -/
def validBytes (bytes : List UInt8) : Nat :=
  byteSize (((decoded bytes).takeWhile Option.isSome).filterMap id)

end PipeSql.Text
