import PipeSql.Row
import PipeSql.Text.Blank
import PipeSql.Text.Utf8

/-!
Reading CSV: fields between commas, records between line ends. A quote opens a quoted field only
at its start; inside, two quotes are one, and what stands behind the closing quote still belongs
to the field. Empty lines are no records.
-/

namespace PipeSql.Csv

open Text

/-- A byte order mark at the start of a file is left out. -/
def withoutMark (bytes : List UInt8) : List UInt8 :=
  match bytes with
  | 0xEF :: 0xBB :: 0xBF :: rest => rest
  | bytes => bytes

/-- Line feeds and carriage returns end a record. -/
def endsLine (b : UInt8) : Bool :=
  b == 0x0A || b == 0x0D

/-- Commas and line ends end a field. -/
def endsField (b : UInt8) : Bool :=
  b == 0x2C || endsLine b

/-- The bytes of a field up to where it ends, and the bytes from there. -/
def plainField (bytes : List UInt8) : List UInt8 × List UInt8 :=
  (bytes.takeWhile (!endsField ·), bytes.dropWhile (!endsField ·))

/-- Reads a field behind its opening quote. -/
def quotedField : List UInt8 → List UInt8 × List UInt8
  | [] => ([], [])
  | 0x22 :: 0x22 :: rest =>
    let (field, behind) := quotedField rest
    (0x22 :: field, behind)
  | 0x22 :: rest => plainField rest
  | b :: rest =>
    let (field, behind) := quotedField rest
    (b :: field, behind)

/-- Reads a field. -/
def field (bytes : List UInt8) : List UInt8 × List UInt8 :=
  match bytes with
  | 0x22 :: rest => quotedField rest
  | bytes => plainField bytes

theorem length_plainField_le (bytes : List UInt8) :
    (plainField bytes).2.length ≤ bytes.length := by
  exact (List.dropWhile_sublist _).length_le

theorem length_quotedField_le (bytes : List UInt8) :
    (quotedField bytes).2.length ≤ bytes.length := by
  fun_induction quotedField bytes with
  | case1 => simp
  | case2 rest field behind h ih => simp_all; omega
  | case3 rest _ => exact Nat.le_succ_of_le (length_plainField_le rest)
  | case4 b rest _ _ field behind h ih => simp_all; omega

theorem length_field_le (bytes : List UInt8) : (field bytes).2.length ≤ bytes.length := by
  unfold field
  split
  · exact Nat.le_succ_of_le (length_quotedField_le _)
  · exact length_plainField_le _

/-- Reads a record: its fields, and the bytes behind the byte that ends it. -/
def record (bytes : List UInt8) : List (List UInt8) × List UInt8 :=
  match _h : field bytes with
  | (content, []) => ([content], [])
  | (content, b :: behind) =>
    if b = 0x2C then
      let (fields, rest) := record behind
      (content :: fields, rest)
    else ([content], behind)
  termination_by bytes.length
  decreasing_by
    have := length_field_le bytes
    simp [_h] at this
    omega

theorem record_nil : record [] = ([[]], []) := by
  unfold record
  rfl

theorem length_record_lt (bytes : List UInt8) (h : bytes ≠ []) :
    (record bytes).2.length < bytes.length := by
  induction hn : bytes.length using Nat.strongRecOn generalizing bytes with
  | ind n ih =>
    have hpos : 0 < bytes.length := List.length_pos_iff.2 h
    have hle := length_field_le bytes
    rw [record]
    split
    · simp; omega
    · rename_i content b behind hf
      simp [hf] at hle
      split
      · by_cases hb : behind = []
        · subst hb
          simp [record_nil]
          omega
        · have := ih behind.length (by omega) behind hb rfl
          simp
          omega
      · simp
        omega

/-- A record: its number, the bytes of the file from the end of the record before it, and its
fields. -/
structure Record where
  number : Nat
  source : List UInt8
  fields : List (List UInt8)

/-- The bytes from the start of the record with the given number. Empty lines are passed over. -/
def skipped (number : Nat) (source : List UInt8) : List UInt8 :=
  (if number = 0 then withoutMark source else source).dropWhile endsLine

theorem length_skipped_le (number : Nat) (source : List UInt8) :
    (skipped number source).length ≤ source.length := by
  refine Nat.le_trans (List.dropWhile_sublist _).length_le ?_
  split
  · unfold withoutMark
    split
    · simp only [List.length_cons]
      omega
    · exact Nat.le_refl _
  · exact Nat.le_refl _

/-- The records from the one with the given number on. -/
def recordsFrom (number : Nat) (source : List UInt8) : List Record :=
  if _h : skipped number source = [] then []
  else
    let read := record (skipped number source)
    ⟨number, source, read.1⟩ :: recordsFrom (number + 1) read.2
  termination_by source.length
  decreasing_by
    have h1 := length_record_lt _ _h
    have h2 := length_skipped_le number source
    omega

/-- A field that is no text: the number of its record, the line (counted from one) and the byte
where that record starts, its own number, and the number of bytes in front of the fault. -/
structure Fault where
  record : Nat
  line : Nat
  byte : Nat
  field : Nat
  index : Nat
  deriving DecidableEq, Repr

/-- The message that reports a fault. -/
def Fault.message (fault : Fault) : String :=
  "CSV parse error: record " ++ toString fault.record ++ " (line " ++ toString fault.line ++
    ", field: " ++ toString fault.field ++ ", byte: " ++ toString fault.byte ++
    "): invalid utf-8: invalid UTF-8 in field " ++ toString fault.field ++
    " near byte index " ++ toString fault.index

/-- The fault in a field of a record of a file. Only line feeds count lines. -/
def Record.fault (file : List UInt8) (record : Record) (field : Nat) (bytes : List UInt8) :
    Fault :=
  let before := file.take (file.length - record.source.length)
  ⟨record.number, before.count 0x0A + 1, before.length, field, validBytes bytes⟩

/-- The texts of the fields of a record of a file. -/
def Record.texts (file : List UInt8) (record : Record) : Except Fault (List String) :=
  record.fields.zipIdx.mapM fun (bytes, field) =>
    match ofUtf8? bytes with
    | some text => .ok text
    | none => .error (record.fault file field bytes)

/-- The records of a file. -/
def records (file : List UInt8) : Except Fault (List (List String)) :=
  (recordsFrom 0 file).mapM (Record.texts file)

/-- The header of a file, without blanks around its names, and the rows in its width, as a reader
finds its records. A file without records has an empty header. -/
def table (file : List UInt8)
    (read : List UInt8 → Except Fault (List (List String)) := records) :
    Except Fault (List String × List (List String)) := do
  match ← read file with
  | [] => return ([], [])
  | header :: rows => return (header.map trimmed, rows.map (fitted header.length))

end PipeSql.Csv
