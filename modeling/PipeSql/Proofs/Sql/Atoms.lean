import Mathlib
import PipeSql.Proofs.Query.Expr.Spelled
import PipeSql.Proofs.Sql.Pieces

/-! # Atoms of expressions

Columns, texts, numbers and truth values are written without operators. Main statement: which two
atoms have the same text, and which columns SQL takes for literals. -/

namespace PipeSql.Sql

open Query (Column Expr Spells spells_one)
open Text (agree agree_iff toLower_eq_map)

/-! ## Words for truth values -/

/-- Letters are letters in either case. -/
theorem isPlain_of_agree {name word : String} (h : agree name word) (hne : word.toList ≠ [])
    (hword : ∀ c ∈ word.toList, c.isAlpha) : isPlain name := by
  rw [agree_iff] at h
  have hname : ∀ c ∈ name.toList, c.isAlpha := by
    intro c hc
    have hlower : c.toLower ∈ word.toList.map Char.toLower := h ▸ List.mem_map_of_mem hc
    obtain ⟨d, hd, heq⟩ := List.mem_map.mp hlower
    rw [← Char.isAlpha_toLower_eq_isAlpha, ← heq, Char.isAlpha_toLower_eq_isAlpha]
    exact hword d hd
  cases hlist : name.toList with
  | nil =>
    rw [hlist, List.map_nil, eq_comm, List.map_eq_nil_iff] at h
    exact absurd h hne
  | cons c rest =>
    rw [hlist, List.forall_mem_cons] at hname
    simp only [isPlain, hlist, Bool.and_eq_true, Bool.or_eq_true, List.all_eq_true]
    exact ⟨.inl hname.1, fun d hd => .inl (by simp [Char.isAlphanum, hname.2 d hd])⟩

theorem toLower_truths : "true".toLower = "true" ∧ "false".toLower = "false" := by
  constructor <;> rw [toLower_eq_map, ← String.toList_inj, String.toList_map] <;> decide

theorem agree_true_or_false {name : String} :
    agree name "true" ∨ agree name "false" ↔ name.toLower = "true" ∨ name.toLower = "false" := by
  simp only [agree, beq_iff_eq, toLower_truths]

/-- The words for the truth values are plain, and not reserved. -/
theorem nameKind_of_agree {name : String} (h : agree name "true" ∨ agree name "false") :
    nameKind name = .word name := by
  have hplain : isPlain name := by
    rcases h with h | h <;> exact isPlain_of_agree h (by decide) (by decide)
  have hfree : reserved.contains name.toLower = false := by
    rcases agree_true_or_false.mp h with h | h <;> rw [h] <;> decide
  rw [nameKind, hplain, hfree]
  rfl

/-! ## The atom of a text -/

/-- An expression without operators and calls. A number is one of the scanner, behind a sign or
not. -/
inductive IsAtom : Expr → Prop where
  | column (c) : IsAtom (.column c)
  | text (value) : IsAtom (.text value)
  | bool (value) : IsAtom (.bool value)
  | number {digits} : Spells (.number digits) digits → IsAtom (.number digits)
  | negative {digits} : Spells (.number digits) digits → IsAtom (.number ("-" ++ digits))

/-- A column without table whose name is written like a truth value. -/
def truthColumn (value : Bool) : Expr :=
  .column (.bare (boolText value))

/-- The atom that a word is read as. -/
def wordAtom (word : String) : Expr :=
  if word = boolText true then .bool true
  else if word = boolText false then .bool false
  else .column (.bare word)

/-- The atom that tokens of SQL are read as. -/
def atomOf? : List TokenKind → Option Expr
  | [.word word] => some (wordAtom word)
  | [.name name] => some (.column (.bare name))
  | [.text value] => some (.text value)
  | [.number digits] => some (.number digits)
  | [.mark '-', .number digits] => some (.number ("-" ++ digits))
  | [.name table, .mark '.', .word name] => some (.column (.of table name))
  | [.name table, .mark '.', .name name] => some (.column (.of table name))
  | _ => none

/-- What an atom is read as: itself, unless it is named like a truth value. -/
def readAs : Expr → Expr
  | .column ⟨none, name⟩ => wordAtom name
  | e => e

theorem wordAtom_cases (word : String) :
    wordAtom word = .column (.bare word) ∨
      ∃ value, word = boolText value ∧ wordAtom word = .bool value := by
  unfold wordAtom
  split
  · exact .inr ⟨true, ‹_›, rfl⟩
  · split
    · exact .inr ⟨false, ‹_›, rfl⟩
    · exact .inl rfl

theorem readAs_cases (e : Expr) :
    readAs e = e ∨ ∃ value, e = truthColumn value ∧ readAs e = .bool value := by
  unfold readAs
  split
  · rename_i name
    rcases wordAtom_cases name with hcolumn | ⟨value, rfl, hbool⟩
    · exact .inl hcolumn
    · exact .inr ⟨value, rfl, hbool⟩
  · exact .inl rfl

theorem nameKind_boolText (value : Bool) : nameKind (boolText value) = .word (boolText value) := by
  refine nameKind_of_agree ?_
  cases value
  · exact .inr (agree_iff.mpr (by decide))
  · exact .inl (agree_iff.mpr (by decide))

theorem atomOf?_nameKind (name : String) : atomOf? [nameKind name] = some (wordAtom name) := by
  rcases wordAtom_cases name with hcolumn | ⟨value, rfl, hbool⟩
  · rw [hcolumn, nameKind]
    split
    · rw [atomOf?, hcolumn]
    · rfl
  · rw [nameKind_boolText, atomOf?]

variable (dialect : Dialect) (least : Nat) {a b e : Expr}

/-- An atom is found again from its text alone. -/
theorem atomOf?_kinds (h : IsAtom e) :
    atomOf? (kinds (exprText dialect least e).toList) = some (readAs e) := by
  cases h with
  | column c =>
    rw [exprText, (lexes_columnText c).kinds_eq]
    obtain ⟨_ | table, name⟩ := c
    · exact atomOf?_nameKind name
    · change atomOf? [.name table, .mark '.', nameKind name] = _
      unfold nameKind
      split <;> rfl
  | text value =>
    rw [exprText, (lexes_quoteText value).kinds_eq]
    rfl
  | bool value =>
    have hword : isWord (boolText value) := by cases value <;> decide
    rw [exprText, (lexes_word hword).kinds_eq]
    cases value <;> rfl
  | number hdigits =>
    rw [exprText, (lexes_number hdigits).kinds_eq]
    rfl
  | negative hdigits =>
    rw [exprText, (lexes_negative hdigits).kinds_eq]
    rfl

theorem exprText_truthColumn (value : Bool) :
    exprText dialect least (truthColumn value) = exprText dialect least (.bool value) := by
  have hword := nameKind_boolText value
  unfold nameKind at hword
  rw [truthColumn, exprText, exprText, columnText]
  change nameText (boolText value) = boolText value
  rw [nameText]
  split at hword
  · rw [if_pos ‹_›]
  · cases hword

/-! ## Literals -/

/-- Tokens that SQL reads as a literal: a text, a number behind a sign or not, or the word for a
truth value or for nothing. -/
inductive IsLiteral : List TokenKind → Prop where
  | text (value) : IsLiteral [.text value]
  | number (digits) : IsLiteral [.number digits]
  | negative (digits) : IsLiteral [.mark '-', .number digits]
  | word {word} : word.toLower ∈ ["true", "false", "null"] → IsLiteral [.word word]

/-- The name of a column is read as a literal just where it is the word for a truth value, in any
case of its letters. -/
theorem isLiteral_nameKind_iff (name : String) :
    IsLiteral [nameKind name] ↔ agree name "true" ∨ agree name "false" := by
  constructor
  · intro h
    unfold nameKind at h
    split at h
    · rename_i hplain
      simp only [Bool.and_eq_true, Bool.not_eq_true'] at hplain
      cases h with
      | word hword =>
        simp only [List.mem_cons, List.not_mem_nil, or_false] at hword
        rcases hword with hword | hword | hword
        · exact agree_true_or_false.mpr (.inl hword)
        · exact agree_true_or_false.mpr (.inr hword)
        · -- the word for nothing is reserved
          rw [hword] at hplain
          exact absurd hplain.2 (by decide)
    · cases h
  · intro h
    rw [nameKind_of_agree h]
    refine .word ?_
    rcases agree_true_or_false.mp h with h | h <;> rw [h] <;> decide

theorem isLiteral_columnText_iff (c : Column) :
    IsLiteral (kinds (columnText c).toList) ↔
      c.table = none ∧ (agree c.name "true" ∨ agree c.name "false") := by
  rw [(lexes_columnText c).kinds_eq]
  obtain ⟨_ | table, name⟩ := c
  · simpa [columnKinds] using isLiteral_nameKind_iff name
  · refine iff_of_false (fun h => ?_) (by simp)
    cases h

/-! ## Atoms with the same text -/

/-- Two atoms have the same text only where one is a truth value and the other the column named like
it; and SQL reads a column as a literal only where its name, without table, is the word for a truth
value. -/
theorem exprText_eq_iff_of_isAtom (ha : IsAtom a) (hb : IsAtom b) (hne : a ≠ b) :
    (exprText dialect least a = exprText dialect least b ↔
      ∃ value, a = truthColumn value ∧ b = .bool value ∨ a = .bool value ∧ b = truthColumn value) ∧
    ∀ c : Column, IsLiteral (kinds (exprText dialect least (.column c)).toList) ↔
      c.table = none ∧ (agree c.name "true" ∨ agree c.name "false") := by
  refine ⟨⟨fun h => ?_, ?_⟩, fun c => ?_⟩
  · have hread : readAs a = readAs b := by
      have hatoms := atomOf?_kinds dialect least ha
      rw [h, atomOf?_kinds dialect least hb] at hatoms
      exact (Option.some.inj hatoms).symm
    rcases readAs_cases a with hreadA | ⟨value, hcolumnA, hreadA⟩ <;>
      rcases readAs_cases b with hreadB | ⟨other, hcolumnB, hreadB⟩ <;>
      rw [hreadA, hreadB] at hread
    · exact absurd hread hne
    · exact ⟨other, .inr ⟨hread, hcolumnB⟩⟩
    · exact ⟨value, .inl ⟨hcolumnA, hread.symm⟩⟩
    · -- two columns named like the same truth value are the same
      obtain rfl : value = other := by simpa using hread
      exact absurd (hcolumnA.trans hcolumnB.symm) hne
  · rintro ⟨value, ⟨rfl, rfl⟩ | ⟨rfl, rfl⟩⟩
    · exact exprText_truthColumn dialect least value
    · exact (exprText_truthColumn dialect least value).symm
  · rw [exprText]
    exact isLiteral_columnText_iff c

/-- A column in a table and one whose name looks like both have texts of their own, and so have a
number and the text of its digits. -/
theorem exprText_eq_iff_of_isAtom_dotted :
    exprText .postgres 0 (.column (.of "a" "b")) ≠ exprText .postgres 0 (.column (.bare "a.b")) ∧
      exprText .sqlite 0 (.number "-1") ≠ exprText .sqlite 0 (.text "-1") := by
  have hcolumns := (exprText_eq_iff_of_isAtom .postgres 0 (.column (.of "a" "b"))
    (.column (.bare "a.b")) (by simp [Column.of, Column.bare])).1
  have hnumber := (exprText_eq_iff_of_isAtom .sqlite 0 (.negative spells_one) (.text "-1")
    (by simp)).1
  refine ⟨fun h => ?_, fun h => ?_⟩
  · simpa using hcolumns.mp h
  · simpa [truthColumn] using hnumber.mp h

/-- A name in brackets may be the word for a truth value, and its comparison with the truth value
then compares the truth value with itself. -/
theorem exists_exprText_eq_truthColumn :
    (∃ a b, IsAtom a ∧ IsAtom b ∧ a ≠ b ∧ exprText .sqlite 0 a = exprText .sqlite 0 b) ∧
      Expr.parse "['TRUE'] == true".toList =
        .ok (.binary (.compare .equal) (truthColumn true) (.bool true)) ∧
      exprText .sqlite 0 (.binary (.compare .equal) (truthColumn true) (.bool true)) =
        "TRUE = TRUE" := by
  have hsame := exprText_truthColumn .sqlite
  refine ⟨⟨truthColumn true, .bool true, .column _, .bool true, by simp [truthColumn],
    hsame 0 true⟩, by cbv, ?_⟩
  rw [exprText, hsame]
  decide

end PipeSql.Sql
