import PipeSql.Csv.Reader
import PipeSql.Proofs.Except
import PipeSql.Proofs.Query.Clean
import PipeSql.Proofs.Text.Utf8
import PipeSql.ResultSet

/-! # Reading back what is written as CSV

A field that needs no quotes holds no byte that a reader looks for, and one in quotes holds its
quotes twice. What is relied on at a reader and a writer are two laws: how fields are spelled, and
that lines with such fields are read. Main statement: a table that is written as CSV is read with
the same headers and the same rows. -/

namespace PipeSql.Csv

open Text

variable {b : UInt8} {c : Char} {cs : List Char} {fields : List String}
  {table : List (List String)} {bytes content rest : List UInt8}

/-! ## Bytes that a reader looks for -/

/-- These bytes end a field, or open a quoted one. -/
def isMark (b : UInt8) : Bool :=
  endsField b || b == 0x22

theorem isMark_of_endsField (h : endsField b) : isMark b := by
  simp [isMark, h]

theorem isMark_of_endsLine (h : endsLine b) : isMark b := by
  simp [isMark, endsField, h]

/-- Such a byte is one of the special characters. -/
theorem isSpecial_of_isMark (h : isMark b) : b.toNat < 0x80 ∧ isSpecial (Char.ofNat b.toNat) := by
  simp only [isMark, endsField, endsLine, Bool.or_eq_true, beq_iff_eq] at h
  rcases h with (rfl | rfl | rfl) | rfl <;> decide

/-- A text has one of these bytes only where it has that character. -/
theorem exists_of_mem_utf8 (h : b ∈ utf8 cs) (hb : isMark b) :
    ∃ c ∈ cs, c = Char.ofNat b.toNat ∧ isSpecial c := by
  obtain ⟨c, hc, hmem⟩ := List.mem_flatMap.mp h
  obtain ⟨hascii, hspecial⟩ := isSpecial_of_isMark hb
  have hchar : c = Char.ofNat b.toNat := by
    rw [← (eq_of_mem_encoded hmem hascii).2, Char.ofNat_toNat]
  exact ⟨c, hc, hchar, hchar ▸ hspecial⟩

/-- A text without special characters has none of these bytes. -/
theorem not_isMark_of_mem_utf8 (h : cs.any isSpecial = false) :
    ∀ b ∈ utf8 cs, isMark b = false := by
  intro b hb
  by_contra hmark
  obtain ⟨c, hc, -, hspecial⟩ := exists_of_mem_utf8 hb (by simpa using hmark)
  exact absurd (List.any_eq_false.mp h c hc) (by simp [hspecial])

/-! ## Spelling -/

/-- How a field is spelled: as it is, or in quotes. -/
inductive Spelling where
  | bare (content : String)
  | quoted (content : String)

namespace Spelling

/-- The field that is spelled so. -/
def value : Spelling → String
  | bare value | quoted value => value

/-- The text in a file. -/
def text : Spelling → String
  | bare content => content
  | quoted content => "\"" ++ String.ofList (escaped content.toList) ++ "\""

/-- No special characters stand outside quotes. -/
def Sound : Spelling → Prop
  | bare content => content.toList.any isSpecial = false
  | quoted _ => True

/-- A field is quoted where it has special characters. -/
def of (field : String) : Spelling :=
  if field.toList.any isSpecial then quoted field else bare field

theorem value_of (field : String) : (of field).value = field := by
  unfold of
  split <;> rfl

theorem text_of (field : String) : (of field).text = fieldText field := by
  unfold of fieldText
  split <;> rfl

theorem sound_of (field : String) : (of field).Sound := by
  unfold of
  split
  · trivial
  · rename_i hspecial
    exact Bool.eq_false_iff.mpr hspecial

theorem toList_text_quoted (content : String) :
    (quoted content).text.toList = '"' :: (escaped content.toList ++ ['"']) := by
  simp [text, String.toList_append]

end Spelling

variable {s first : Spelling} {line others : List Spelling} {lines : List (List Spelling)}

/-! ## Fields -/

theorem plainField_append (h : ∀ b ∈ content, endsField b = false) (hb : endsField b) :
    plainField (content ++ b :: rest) = (content, b :: rest) := by
  have hall : ∀ b ∈ content, (!endsField b) = true := fun b hmem => by simp [h b hmem]
  rw [plainField, List.takeWhile_append_of_pos hall, List.dropWhile_append_of_pos hall,
    List.takeWhile_cons_of_neg (by simp [hb]), List.dropWhile_cons_of_neg (by simp [hb]),
    List.append_nil]

theorem quotedField_cons (h : b ≠ 0x22) :
    quotedField (b :: rest) = (b :: (quotedField rest).1, (quotedField rest).2) := by
  rw [quotedField]
  · exact fun _ hb _ => h hb
  · exact h

/-- Inside quotes, other bytes are read as they are. -/
theorem quotedField_append (h : ∀ b ∈ content, b ≠ 0x22) :
    quotedField (content ++ rest) = (content ++ (quotedField rest).1, (quotedField rest).2) := by
  induction content with
  | nil => rfl
  | cons b content ih =>
    rw [List.forall_mem_cons] at h
    rw [List.cons_append, quotedField_cons h.1, ih h.2, List.cons_append]

/-- Reads a quoted field up to the quote that closes it. -/
theorem quotedField_escaped (cs : List Char) (hb : endsField b) :
    quotedField (utf8 (escaped cs) ++ 0x22 :: b :: rest) = (utf8 cs, b :: rest) := by
  induction cs with
  | nil =>
    have hquote : b ≠ 0x22 := by
      rintro rfl
      exact absurd hb (by decide)
    rw [escaped, List.flatMap_nil, utf8_nil, List.nil_append, quotedField]
    · have hnone : ∀ b ∈ ([] : List UInt8), endsField b = false := by simp
      exact plainField_append hnone hb
    · exact fun rest' h => hquote (List.cons.inj h).1
  | cons c cs ih =>
    rw [escaped, List.flatMap_cons, utf8_append, List.append_assoc]
    change quotedField (utf8 _ ++ (utf8 (escaped cs) ++ _)) = _
    split
    · rename_i hquote
      subst hquote
      change quotedField (0x22 :: 0x22 :: (utf8 (escaped cs) ++ _)) = _
      rw [quotedField, ih]
      rfl
    · rename_i hquote
      have hplain : ∀ b ∈ utf8 [c], b ≠ 0x22 := by
        rintro b hmem rfl
        obtain ⟨d, hd, hchar, -⟩ := exists_of_mem_utf8 hmem (by decide)
        exact hquote ((List.mem_singleton.mp hd).symm.trans hchar)
      rw [quotedField_append hplain, ih, utf8_cons, utf8_cons, utf8_nil, List.append_nil]

theorem field_eq_plainField (h : ∀ b ∈ bytes.head?, b ≠ 0x22) : field bytes = plainField bytes := by
  unfold field
  split
  · exact absurd rfl (h 0x22 rfl)
  · rfl

/-- A field is read up to the byte that ends it. -/
theorem field_text (hs : s.Sound) (hb : endsField b) :
    field (utf8 s.text.toList ++ b :: rest) = (utf8 s.value.toList, b :: rest) := by
  cases s with
  | quoted content =>
    have hquoted : utf8 (Spelling.quoted content).text.toList =
        0x22 :: (utf8 (escaped content.toList) ++ [0x22]) := by
      rw [Spelling.toList_text_quoted, utf8_cons, utf8_append]
      rfl
    rw [hquoted, List.cons_append, List.append_assoc, field]
    exact quotedField_escaped content.toList hb
  | bare content =>
    have hmarks := not_isMark_of_mem_utf8 hs
    have hends : ∀ b ∈ utf8 content.toList, endsField b = false := by
      intro b hmem
      by_contra hend
      exact absurd (hmarks b hmem) (by simp [isMark_of_endsField (by simpa using hend)])
    change field (utf8 content.toList ++ b :: rest) = (utf8 content.toList, b :: rest)
    rw [field_eq_plainField, plainField_append hends hb]
    rintro d hd rfl
    cases hlist : utf8 content.toList with
    | nil =>
      rw [hlist] at hd
      obtain rfl : b = 0x22 := Option.some.inj hd
      exact absurd hb (by decide)
    | cons d' more =>
      rw [hlist] at hd hmarks
      obtain rfl : d' = 0x22 := Option.some.inj hd
      exact absurd (hmarks _ List.mem_cons_self) (by decide)

/-! ## Records -/

/-- A field is the last of its record unless a comma ends it. -/
theorem record_of_field (h : field bytes = (content, b :: rest)) :
    record bytes =
      if b = 0x2C then (content :: (record rest).1, (record rest).2) else ([content], rest) := by
  rw [record]
  split
  · rename_i hf
    exact absurd (h.symm.trans hf) (by simp)
  · rename_i b' behind hf
    obtain ⟨rfl, rfl, rfl⟩ : content = _ ∧ b = b' ∧ rest = behind := by
      simpa using h.symm.trans hf
    rfl

theorem record_comma (h : field bytes = (content, 0x2C :: rest)) :
    record bytes = (content :: (record rest).1, (record rest).2) := by
  rw [record_of_field h, if_pos rfl]

theorem record_end (h : field bytes = (content, b :: rest)) (hb : b ≠ 0x2C) :
    record bytes = ([content], rest) := by
  rw [record_of_field h, if_neg hb]

/-- The fields of a record as bytes. -/
def encoded (fields : List String) : List (List UInt8) :=
  fields.map fun s => utf8 s.toList

theorem utf8_comma : utf8 (",".toList) = [0x2C] := by
  decide

theorem utf8_newline : utf8 ("\n".toList) = [0x0A] := by
  decide

/-- A line: fields between commas, and the line feed that ends it. -/
def lineText (line : List Spelling) : String :=
  ",".intercalate (line.map Spelling.text) ++ "\n"

theorem lineText_singleton (s : Spelling) : lineText [s] = s.text ++ "\n" := by
  rw [lineText, List.map_singleton, String.intercalate_singleton]

theorem lineText_cons (s : Spelling) (hne : line ≠ []) :
    lineText (s :: line) = s.text ++ "," ++ lineText line := by
  obtain ⟨second, others, rfl⟩ := List.exists_cons_of_ne_nil hne
  rw [lineText, List.map_cons, List.map_cons, String.intercalate_cons_cons, ← List.map_cons,
    lineText, String.append_assoc, String.append_assoc]

/-- The fields of a line are read up to its end. -/
theorem record_lineText (hne : line ≠ []) (hsound : ∀ s ∈ line, s.Sound) :
    record (utf8 (lineText line).toList ++ rest) =
      (encoded (line.map Spelling.value), rest) := by
  induction line with
  | nil => exact absurd rfl hne
  | cons s line ih =>
    rw [List.forall_mem_cons] at hsound
    by_cases hlast : line = []
    · subst hlast
      rw [lineText_singleton, String.toList_append, utf8_append, utf8_newline, List.append_assoc,
        List.singleton_append]
      exact record_end (field_text hsound.1 (by decide)) (by decide)
    · rw [lineText_cons s hlast, String.toList_append, String.toList_append, utf8_append,
        utf8_append, utf8_comma, List.append_assoc, List.append_assoc, List.singleton_append,
        record_comma (field_text hsound.1 (by decide)), ih hlast hsound.2]
      rfl

/-! ## Where a line starts -/

/-- A field starts with no line end, unless it is spelled with nothing at all. -/
theorem exists_head_text (hs : s.Sound) (hne : s ≠ .bare "") :
    ∃ c cs, s.text.toList = c :: cs ∧ c ≠ '\n' ∧ c ≠ '\r' := by
  cases s with
  | quoted content => exact ⟨'"', _, Spelling.toList_text_quoted content, by decide, by decide⟩
  | bare content =>
    obtain ⟨c, cs, hlist⟩ := List.exists_cons_of_ne_nil
      (fun hnil => hne (congrArg Spelling.bare (String.toList_eq_nil_iff.mp hnil)))
    have hc : isSpecial c = false := by
      simpa using List.any_eq_false.mp hs c (by simp [hlist])
    refine ⟨c, cs, hlist, ?_, ?_⟩
    · rintro rfl
      cases hc
    · rintro rfl
      cases hc

/-- A line that is not blank starts with its first field or with a comma, and with no line end. -/
theorem exists_head_lineText (hs : first.Sound) (hblank : first :: others ≠ [.bare ""]) :
    ∃ c cs, (lineText (first :: others)).toList = c :: cs ∧
      (c ∈ first.text.toList.head? ∨ c = ',') ∧ c ≠ '\n' ∧ c ≠ '\r' := by
  by_cases hempty : first = .bare ""
  · subst hempty
    have hothers : others ≠ [] := fun h => hblank (h ▸ rfl)
    refine ⟨',', (lineText others).toList, ?_, .inr rfl, by decide, by decide⟩
    rw [lineText_cons _ hothers]
    simp [Spelling.text, String.toList_append]
  · obtain ⟨c, cs, hlist, hends⟩ := exists_head_text hs hempty
    have hline : ∃ more, (lineText (first :: others)).toList = c :: more := by
      by_cases hlast : others = []
      · subst hlast
        exact ⟨cs ++ ['\n'], by simp [lineText_singleton, String.toList_append, hlist]⟩
      · refine ⟨cs ++ ',' :: (lineText others).toList, ?_⟩
        simp [lineText_cons _ hlast, String.toList_append, hlist]
    obtain ⟨more, hmore⟩ := hline
    exact ⟨c, more, hmore, .inl (by rw [hlist]; rfl), hends⟩

theorem withoutMark_utf8 (h : c ≠ '\uFEFF') : withoutMark (utf8 (c :: cs)) = utf8 (c :: cs) := by
  unfold withoutMark
  split
  · rename_i rest hbytes
    have hmark : String.utf8EncodeChar '\uFEFF' = [0xEF, 0xBB, 0xBF] := by decide
    have hdecoded : decoded (utf8 (c :: cs)) = some '\uFEFF' :: decoded rest := by
      rw [hbytes, ← decoded_encoded_append, hmark]
      rfl
    rw [decoded_utf8, List.map_cons] at hdecoded
    exact absurd (Option.some.inj (List.cons.inj hdecoded).1) h
  · rfl

/-- Nothing is passed over in front of a text that starts with no line end, and no mark. -/
theorem skipped_utf8 {number : Nat} (hmark : number = 0 → c ≠ '\uFEFF')
    (hends : c ≠ '\n' ∧ c ≠ '\r') : skipped number (utf8 (c :: cs)) = utf8 (c :: cs) := by
  have hsource : (if number = 0 then withoutMark (utf8 (c :: cs)) else utf8 (c :: cs)) =
      utf8 (c :: cs) := by
    split
    · rename_i hzero
      exact withoutMark_utf8 (hmark hzero)
    · rfl
  rw [skipped, hsource]
  obtain ⟨b, bytes, hbytes⟩ := List.exists_cons_of_ne_nil (String.utf8EncodeChar_ne_nil (c := c))
  rw [utf8_cons, hbytes, List.cons_append, List.dropWhile_cons_of_neg]
  intro hline
  have hmem : b ∈ utf8 [c] := by simp [hbytes]
  obtain ⟨d, hd, hchar, -⟩ := exists_of_mem_utf8 hmem (isMark_of_endsLine hline)
  obtain rfl := List.mem_singleton.mp hd
  simp only [endsLine, Bool.or_eq_true, beq_iff_eq] at hline
  rcases hline with rfl | rfl
  · exact hends.1 hchar
  · exact hends.2 hchar

/-! ## Files -/

theorem recordsFrom_nil (number : Nat) : recordsFrom number [] = [] := by
  have hnone : skipped number [] = [] := by
    rw [skipped]
    split <;> rfl
  rw [recordsFrom, dif_pos hnone]

theorem recordsFrom_cons {number : Nat} (h : skipped number bytes = bytes) (hne : bytes ≠ []) :
    recordsFrom number bytes =
      ⟨number, bytes, (record bytes).1⟩ :: recordsFrom (number + 1) (record bytes).2 := by
  rw [recordsFrom, dif_neg (by rwa [h]), h]

/-- The bytes of lines. -/
def written (lines : List (List Spelling)) : List UInt8 :=
  utf8 (String.join (lines.map lineText)).toList

theorem written_cons (line : List Spelling) (lines : List (List Spelling)) :
    written (line :: lines) = utf8 (lineText line).toList ++ written lines := by
  rw [written, List.map_cons, String.join_cons, String.toList_append, utf8_append]
  rfl

/-- Lines of records: they have fields and are not blank, and special characters stand in quotes. -/
structure Lined (lines : List (List Spelling)) : Prop where
  ne_nil : ∀ line ∈ lines, line ≠ []
  not_blank : ∀ line ∈ lines, line ≠ [.bare ""]
  sound : ∀ line ∈ lines, ∀ s ∈ line, s.Sound

/-- No byte order mark stands in front of the first line. -/
def Unmarked (lines : List (List Spelling)) : Prop :=
  ∀ line ∈ lines.head?, ∀ s ∈ line.head?, s.text.toList.head? ≠ some '\uFEFF'

/-- Lines are read one after the other. Only the first is read behind a byte order mark. -/
theorem fields_recordsFrom (h : Lined lines) {number : Nat}
    (hmark : number = 0 → Unmarked lines) :
    (recordsFrom number (written lines)).map Record.fields =
      lines.map fun line => encoded (line.map Spelling.value) := by
  obtain ⟨hne, hblank, hsound⟩ := h
  induction lines generalizing number with
  | nil =>
    rw [show written [] = [] from rfl, recordsFrom_nil]
    rfl
  | cons line lines ih =>
    rw [List.forall_mem_cons] at hne hblank hsound
    obtain ⟨first, others, rfl⟩ := List.exists_cons_of_ne_nil hne.1
    obtain ⟨c, cs, hlist, hhead, hends⟩ :=
      exists_head_lineText (hsound.1 first List.mem_cons_self) hblank.1
    have hbytes : written ((first :: others) :: lines) =
        utf8 (c :: (cs ++ (String.join (lines.map lineText)).toList)) := by
      rw [written_cons, hlist, ← List.cons_append, utf8_append]
      rfl
    have hc : number = 0 → c ≠ '\uFEFF' := by
      rintro hzero rfl
      rcases hhead with hhead | hhead
      · exact hmark hzero _ rfl first rfl hhead
      · exact absurd hhead (by decide)
    have hskipped : skipped number (written ((first :: others) :: lines)) =
        written ((first :: others) :: lines) := by
      rw [hbytes]
      exact skipped_utf8 hc hends
    have hbytes_ne : written ((first :: others) :: lines) ≠ [] := by
      rw [hbytes, utf8_cons]
      simp [String.utf8EncodeChar_ne_nil]
    rw [recordsFrom_cons hskipped hbytes_ne, List.map_cons, List.map_cons, written_cons,
      record_lineText hne.1 hsound.1,
      ih (fun hzero => absurd hzero number.succ_ne_zero) hne.2 hblank.2 hsound.2]

theorem forall₂_zipIdx_encoded {ε : Type} {f : List UInt8 × Nat → Except ε String}
    (h : ∀ s index, f (utf8 s.toList, index) = .ok s) (fields : List String) (start : Nat) :
    List.Forall₂ (fun field s => f field = .ok s) ((encoded fields).zipIdx start) fields := by
  induction fields generalizing start with
  | nil => exact .nil
  | cons s fields ih => exact .cons (h s start) (ih (start + 1))

/-- The bytes of texts are the texts of a record. -/
theorem texts_eq_ok {file : List UInt8} {record : Record} (h : record.fields = encoded fields) :
    record.texts file = .ok fields := by
  rw [Record.texts, h]
  refine mapM_eq_ok_iff.mpr (forall₂_zipIdx_encoded (fun s index => ?_) fields 0)
  simp only [ofUtf8?_utf8]

/-- Lines are read as the records of their fields. -/
theorem records_written (h : Lined lines) (hmark : Unmarked lines) :
    records (written lines) = .ok (lines.map fun line => line.map Spelling.value) := by
  have hread := fields_recordsFrom h fun _ : 0 = 0 => hmark
  have hfields : List.Forall₂ (fun record line => record.fields = encoded (line.map Spelling.value))
      (recordsFrom 0 (written lines)) lines := by
    rw [← List.forall₂_eq_eq_eq, List.forall₂_map_left_iff, List.forall₂_map_right_iff] at hread
    exact hread
  refine mapM_eq_ok_iff.mpr (List.forall₂_map_right_iff.mpr (hfields.imp fun _ _ => ?_))
  exact texts_eq_ok

/-! ## Laws -/

/-- How a record is spelled. Its only field is quoted if it is empty, as the line would be blank. -/
def spelled : List String → List Spelling
  | [""] => [.quoted ""]
  | fields => fields.map Spelling.of

/-- What is relied on at a reader and a writer of CSV. -/
structure Laws (read : List UInt8 → Except Fault (List (List String)))
    (write : List (List String) → Except Unequal String) : Prop where
  /-- Records of one length are written, each on a line of its own. A field is quoted where it has
  special characters, or where it is the only one of its record, and empty. -/
  writes : ∀ table width, width ≠ 0 → (∀ fields ∈ table, fields.length = width) →
    write table = .ok (String.join (table.map fun fields => lineText (spelled fields)))
  /-- Lines are read as the records of their fields. Left open is what becomes of blank lines, which
  are no records, and of a byte order mark, which is no part of a field. -/
  reads : ∀ lines, Lined lines → Unmarked lines →
    read (written lines) = .ok (lines.map fun line => line.map Spelling.value)

theorem recordText_eq (h : fields ≠ []) : recordText fields = lineText (spelled fields) := by
  unfold recordText
  split
  · exact absurd rfl h
  · rfl
  · rename_i hsingle
    have hspelled : spelled fields = fields.map Spelling.of := by
      rw [spelled]
      exact hsingle
    rw [hspelled, lineText, List.map_map]
    congr 3
    exact funext fun field => (Spelling.text_of field).symm

/-- Records of one length are written. -/
theorem write_eq_ok {width : Nat} (hwidth : width ≠ 0)
    (h : ∀ fields ∈ table, fields.length = width) :
    write table = .ok (String.join (table.map fun fields => lineText (spelled fields))) := by
  have hfind : table.find? (fun fields =>
      fields.length != (table.head?.map List.length).getD 0) = none := by
    rw [List.find?_eq_none]
    intro fields hfields
    obtain ⟨first, others, rfl⟩ := List.exists_cons_of_ne_nil (List.ne_nil_of_mem hfields)
    simp [h fields hfields, h first List.mem_cons_self]
  have htexts : table.map recordText = table.map fun fields => lineText (spelled fields) :=
    List.map_congr_left fun fields hfields => recordText_eq <| by
      rintro rfl
      exact hwidth (h [] hfields).symm
  simp only [write, hfind, htexts]

/-- The reader and the writer here can be relied on. -/
theorem laws : Laws records write where
  writes _ _ := write_eq_ok
  reads _ := records_written

/-! ## Tables -/

theorem map_value_spelled (fields : List String) :
    (spelled fields).map Spelling.value = fields := by
  unfold spelled
  split
  · rfl
  · rw [List.map_map]
    exact (List.map_congr_left fun field _ => Spelling.value_of field).trans (List.map_id _)

theorem sound_of_mem_spelled (h : s ∈ spelled fields) : s.Sound := by
  unfold spelled at h
  split at h
  · obtain rfl := List.mem_singleton.mp h
    trivial
  · obtain ⟨field, -, rfl⟩ := List.mem_map.mp h
    exact Spelling.sound_of field

/-- Records with fields are spelled on lines that are read as records. -/
theorem lined_spelled (h : ∀ fields ∈ table, fields ≠ []) : Lined (table.map spelled) where
  ne_nil := List.forall_mem_map.mpr fun fields hfields hnil => by
    have hempty := map_value_spelled fields
    rw [hnil] at hempty
    exact h fields hfields hempty.symm
  not_blank := List.forall_mem_map.mpr fun fields _ hblank => by
    have hempty := map_value_spelled fields
    rw [hblank] at hempty
    subst hempty
    cases hblank
  sound := List.forall_mem_map.mpr fun _ _ _ => sound_of_mem_spelled

/-- A mark that stands in front of a line stands in front of its first field. -/
theorem unmarked_spelled
    (h : ∀ fields ∈ table.head?, ∀ s ∈ fields.head?, s.toList.head? ≠ some '\uFEFF') :
    Unmarked (table.map spelled) := by
  cases table with
  | nil => exact fun _ hline => absurd hline (by simp)
  | cons fields table =>
    have hfirst := h fields rfl
    intro line hline s hs
    obtain rfl : spelled fields = line := Option.some.inj hline
    have hvalue : s.value ∈ fields.head? := by
      rw [← map_value_spelled fields, List.head?_map]
      exact Option.mem_map_of_mem _ hs
    cases s with
    | quoted content => simp [Spelling.toList_text_quoted]
    | bare content => exact hfirst content hvalue

/-- What is written is read as the same records. -/
theorem Laws.read_write {read : List UInt8 → Except Fault (List (List String))}
    {write : List (List String) → Except Unequal String} (laws : Laws read write) {width : Nat}
    (hwidth : width ≠ 0) (h : ∀ fields ∈ table, fields.length = width)
    (hmark : ∀ fields ∈ table.head?, ∀ s ∈ fields.head?, s.toList.head? ≠ some '\uFEFF') :
    ∃ text, write table = .ok text ∧ read (utf8 text.toList) = .ok table := by
  have hne : ∀ fields ∈ table, fields ≠ [] := by
    rintro fields hfields rfl
    exact hwidth (h [] hfields).symm
  have hread := laws.reads _ (lined_spelled hne) (unmarked_spelled hmark)
  rw [written, List.map_map, List.map_map] at hread
  refine ⟨_, laws.writes table width hwidth h, hread.trans (congrArg Except.ok ?_)⟩
  exact (List.map_congr_left fun fields _ => map_value_spelled fields).trans (List.map_id _)

/-- Rows are read in the width of the header. -/
theorem length_of_mem_table {read : List UInt8 → Except Fault (List (List String))}
    {file : List UInt8} {columns : List String} {rows : List (List String)}
    (h : Csv.table file read = .ok (columns, rows)) :
    ∀ row ∈ rows, row.length = columns.length := by
  rw [Csv.table, bind_eq_ok_iff] at h
  obtain ⟨read, -, hread⟩ := h
  cases read with
  | nil =>
    obtain ⟨rfl, rfl⟩ : [] = columns ∧ [] = rows := by simpa [pure_eq_ok_iff] using hread
    simp
  | cons header others =>
    obtain ⟨rfl, rfl⟩ :
        header.map trimmed = columns ∧ others.map (fitted header.length) = rows := by
      simpa [pure_eq_ok_iff] using hread
    intro row hrow
    obtain ⟨other, -, rfl⟩ := List.mem_map.mp hrow
    rw [length_fitted, List.length_map]

end PipeSql.Csv

namespace PipeSql.ResultSet

open Text

/-- A result that a file can hold: headers without blanks at their ends, no byte order mark in
front of the first, and rows as wide as the headers. -/
structure Tabular (result : ResultSet) : Prop where
  headers_ne_nil : result.headers ≠ []
  head_not_blank : ∀ header ∈ result.headers, ∀ c ∈ header.toList.head?, isBlank c = false
  last_not_blank : ∀ header ∈ result.headers, ∀ c ∈ header.toList.getLast?, isBlank c = false
  unmarked : ∀ header ∈ result.headers.head?, header.toList.head? ≠ some '\uFEFF'
  width : ∀ row ∈ result.rows, row.length = result.headers.length

variable {result : ResultSet}

theorem Tabular.map_trimmed (h : result.Tabular) : result.headers.map trimmed = result.headers := by
  refine (List.map_congr_left fun header hheader => ?_).trans (List.map_id _)
  rw [trimmed, Query.trim_eq (h.head_not_blank header hheader) (h.last_not_blank header hheader),
    String.ofList_toList, id]

theorem Tabular.map_fitted (h : result.Tabular) :
    result.rows.map (fitted result.headers.length) = result.rows :=
  (List.map_congr_left fun row hrow => fitted_of_length (h.width row hrow)).trans (List.map_id _)

/-- Whatever reader and writer keep the laws, a result is written and read back. -/
theorem Tabular.read_csv {read : List UInt8 → Except Csv.Fault (List (List String))}
    {write : List (List String) → Except Csv.Unequal String} (laws : Csv.Laws read write)
    (h : result.Tabular) :
    ∃ text, result.csv write = .ok text ∧
      Csv.table text.toUTF8.toList read = .ok (result.headers, result.rows) := by
  have hwidth : ∀ fields ∈ result.headers :: result.rows, fields.length = result.headers.length :=
    List.forall_mem_cons.mpr ⟨rfl, h.width⟩
  have hmark : ∀ fields ∈ (result.headers :: result.rows).head?, ∀ s ∈ fields.head?,
      s.toList.head? ≠ some '\uFEFF' := by
    intro fields hfirst
    obtain rfl : result.headers = fields := Option.some.inj hfirst
    exact h.unmarked
  have hne : result.headers.length ≠ 0 := (List.length_pos_iff.mpr h.headers_ne_nil).ne'
  obtain ⟨text, hwrite, hread⟩ := laws.read_write hne hwidth hmark
  refine ⟨text, hwrite, ?_⟩
  rw [toList_toUTF8, Csv.table, hread]
  change Except.ok (result.headers.map trimmed, result.rows.map (fitted result.headers.length)) = _
  rw [h.map_trimmed, h.map_fitted]

/-- A result is written, and read back with the same headers and the same rows. Whatever file is
read, its rows are as wide as its header. -/
theorem table_csv :
    (∀ result : ResultSet, result.Tabular →
      ∃ text, result.csv = .ok text ∧
        Csv.table text.toUTF8.toList = .ok (result.headers, result.rows)) ∧
    ∀ file columns rows, Csv.table file = .ok (columns, rows) →
      ∀ row ∈ rows, row.length = columns.length :=
  ⟨fun _ h => h.read_csv Csv.laws, fun _ _ _ => Csv.length_of_mem_table⟩

/-- Cells with quotes, commas, line breaks and blanks, and an empty row of one column. -/
theorem table_csv_quoted :
    (∃ text, ResultSet.csv ⟨["na,me", "no\"te"], [[" ann ", "a\r\nb"], ["", "\"\""]]⟩ = .ok text ∧
      Csv.table text.toUTF8.toList =
        .ok (["na,me", "no\"te"], [[" ann ", "a\r\nb"], ["", "\"\""]])) ∧
    (∃ text, ResultSet.csv ⟨["a"], [[""], ["b"]]⟩ = .ok text ∧
      Csv.table text.toUTF8.toList = .ok (["a"], [[""], ["b"]]) ∧
      ∀ row ∈ [[""], ["b"]], row.length = ["a"].length) := by
  obtain ⟨text, hwritten, hread⟩ := table_csv.1 ⟨["a"], [[""], ["b"]]⟩
    ⟨by decide, by decide, by decide, by decide, by decide⟩
  exact ⟨table_csv.1 ⟨["na,me", "no\"te"], [[" ann ", "a\r\nb"], ["", "\"\""]]⟩
    ⟨by decide, by decide, by decide, by decide, by decide⟩,
    text, hwritten, hread, table_csv.2 _ _ _ hread⟩

end PipeSql.ResultSet
