import PipeSql.Proofs.Query.Pieces
import PipeSql.Proofs.Query.Split
import PipeSql.Proofs.Sql.Capping
import PipeSql.Proofs.Sql.Spelling

/-! # Row counts

A row count is read as a text by `limit` and `take`, and as a token by `top`. Main statement: all
three read the number that its digits spell, as long as it is positive and below 2⁶⁴. -/

namespace PipeSql

open Query Text

variable {key : String} {cs text : List Char}

/-! ## Digits -/

theorem isBlank_of_isDigit {c : Char} (h : c.isDigit) : isBlank c = false := by
  simp only [Char.isDigit, Bool.and_eq_true, decide_eq_true_eq, ge_iff_le,
    UInt32.le_iff_toNat_le] at h
  have hrange : 48 ≤ c.toNat ∧ c.toNat ≤ 57 := h
  clear h
  simp [isBlank]
  omega

section Digits

variable (hne : cs ≠ []) (hdigits : ∀ c ∈ cs, c.isDigit)

include hdigits

theorem trim_digits : trim (' ' :: cs) = cs := by
  rw [trim_cons (by decide)]
  exact trim_eq (fun c hc => isBlank_of_isDigit (hdigits c (List.mem_of_head? hc)))
    fun c hc => isBlank_of_isDigit (hdigits c (List.mem_of_getLast? hc))

include hne

theorem natural?_digits : natural? cs = some (Nat.ofDigitChars 10 cs 0) := by
  have hempty : cs.isEmpty = false := List.isEmpty_eq_false_iff.mpr hne
  have hall : cs.all Char.isDigit := List.all_eq_true.mpr hdigits
  rw [natural?, hempty, hall]
  rfl

/-- Digits spell a row count unless their number is zero or takes more than 64 bits. -/
theorem rowCount?_digits :
    rowCount? cs =
      if 0 < Nat.ofDigitChars 10 cs 0 ∧ Nat.ofDigitChars 10 cs 0 < 2 ^ 64 then
        some (Nat.ofDigitChars 10 cs 0)
      else none := by
  have hplus : cs.head? ≠ some '+' := fun h =>
    absurd (hdigits '+' (List.mem_of_head? h)) (by decide)
  have hbound (v : Nat) : (v ≤ maxCount ∧ 0 < v) ↔ (0 < v ∧ v < 2 ^ 64) := by
    rw [maxCount]
    omega
  rw [rowCount?, count?, if_neg hplus, natural?_digits hne hdigits, Option.filter_filter,
    Option.filter_some]
  simp only [Bool.and_eq_true, decide_eq_true_eq, hbound]

theorem isNumeral_digits : isNumeral cs := by
  have htake : cs.takeWhile Char.isDigit = cs := List.takeWhile_eq_self_iff.mpr hdigits
  have hdrop : cs.dropWhile Char.isDigit = [] := List.dropWhile_eq_nil_iff.mpr hdigits
  simp [isNumeral, htake, hdrop, hne]

/-- Digits in a row are one number. -/
theorem scans_digits : Scans Ends cs [.number (String.ofList cs)] := by
  have hnumeral := isNumeral_digits hne hdigits
  obtain ⟨c, body, rfl⟩ := List.exists_cons_of_ne_nil hne
  obtain ⟨hc, hbody⟩ := List.forall_mem_cons.mp hdigits
  refine scans_numeral (isBlank_of_isDigit hc) (by simp [hc]) hnumeral fun d hd => ?_
  simp [continuesNumber, Char.isAlphanum, hbody d hd]

end Digits

/-! ## Stages -/

theorem parseStage_limit (arguments : List Char) :
    parseStage ("limit".toList ++ ' ' :: arguments) =
      (parseRowCount (' ' :: arguments) ("limit".toList ++ ' ' :: arguments)).map .limit := by
  obtain ⟨htake, hdrop⟩ := @keyword_blank "limit" (by decide) arguments
  have hkeyword : String.ofList ("limit".toList.map Char.toLower) = "limit" := by decide
  unfold parseStage
  rw [htake, hdrop, hkeyword]
  rfl

theorem parseStage_take (arguments : List Char) :
    parseStage ("take".toList ++ ' ' :: arguments) =
      (parseRowCount (' ' :: arguments) ("take".toList ++ ' ' :: arguments)).map .take := by
  obtain ⟨htake, hdrop⟩ := @keyword_blank "take" (by decide) arguments
  have hkeyword : String.ofList ("take".toList.map Char.toLower) = "take" := by decide
  unfold parseStage
  rw [htake, hdrop, hkeyword]
  rfl

theorem parseStage_top (arguments : List Char) :
    parseStage ("top".toList ++ ' ' :: arguments) =
      parseTop (' ' :: arguments) ("top".toList ++ ' ' :: arguments) := by
  obtain ⟨htake, hdrop⟩ := @keyword_blank "top" (by decide) arguments
  have hkeyword : String.ofList ("top".toList.map Char.toLower) = "top" := by decide
  unfold parseStage
  rw [htake, hdrop, hkeyword]
  rfl

section Counts

variable (hne : cs ≠ []) (hdigits : ∀ c ∈ cs, c.isDigit)

include hne hdigits

theorem scans_top (hkey : Spells (.ident key) key) :
    Scans Ends (' ' :: (cs ++ " by ".toList ++ key.toList))
      [.number (String.ofList cs), .ident "by", .ident key] := by
  have hblank : Scans Anything [' '] [] := .blank (by decide)
  have hby : Scans Ends "by".toList [.ident "by"] := Sql.scans_isPlain (by decide)
  have hcount := (scans_digits hne hdigits).append_break (Scans.behind hby hkey.name) (by decide)
  have hall := hblank.append hcount fun _ _ => trivial
  simpa using hall

/-- Digits are the row count that they spell, or are refused with the stage. -/
theorem parseRowCount_digits (text : List Char) :
    parseRowCount (' ' :: cs) text =
      if 0 < Nat.ofDigitChars 10 cs 0 ∧ Nat.ofDigitChars 10 cs 0 < 2 ^ 64 then
        .ok (Nat.ofDigitChars 10 cs 0)
      else .error (.badRowCount (String.ofList text)) := by
  rw [parseRowCount, trim_digits hdigits, rowCount?_digits hne hdigits]
  by_cases hfits : 0 < Nat.ofDigitChars 10 cs 0 ∧ Nat.ofDigitChars 10 cs 0 < 2 ^ 64
  · rw [if_pos hfits, if_pos hfits]
  · rw [if_neg hfits, if_neg hfits]

/-- In front of `by` and a column, `top` reads a count as `limit` does. -/
theorem parseTop_digits (hkey : Spells (.ident key) key) (text : List Char) :
    parseTop (' ' :: (cs ++ " by ".toList ++ key.toList)) text =
      (parseRowCount (' ' :: cs) text).map (.top · ⟨.ofPath key, .descending⟩) := by
  obtain ⟨ts, hts, hkinds⟩ := (scans_top hne hdigits hkey).tokens_eq
  obtain ⟨⟨_, _, _⟩, _, rfl, rfl, hbehind⟩ := List.map_eq_cons_iff.mp hkinds
  obtain ⟨⟨_, byStart, byStop⟩, _, rfl, rfl, hlast⟩ := List.map_eq_cons_iff.mp hbehind
  obtain ⟨⟨_, _, _⟩, _, rfl, rfl, hnone⟩ := List.map_eq_cons_iff.mp hlast
  obtain rfl := List.map_eq_nil_iff.mp hnone
  have hby : Token.isKeyword ⟨.ident "by", byStart, byStop⟩ "by" = true :=
    agree_iff.mpr rfl
  rw [parseTop, hts, parseRowCount, trim_digits hdigits]
  simp only [bind, Except.bind, String.toList_ofList]
  cases rowCount? cs with
  | none => rfl
  | some n =>
    simp only [hby]
    rfl

end Counts

/-! ## Queries -/

/-- Outside literals, a text that opens none, and that has no parentheses and no bars, ends where it
starts. -/
theorem endOf?_plain (h : ∀ c ∈ cs, c ∉ ['|', '(', ')', '"', '\'']) (depth : Nat) :
    endOf? none depth cs = some (none, depth) := by
  induction cs with
  | nil => rfl
  | cons c cs ih =>
    obtain ⟨hc, hcs⟩ := List.forall_mem_cons.mp h
    simp only [List.mem_cons, List.not_mem_nil, or_false, not_or] at hc
    rw [endOf?.eq_def]
    simp [hc, ih hcs]

/-- Words of letters and digits with blanks between them are a stage. -/
theorem isStage_of_words (hne : text ≠ []) (hwords : ∀ c ∈ text, c.isAlphanum ∨ c = ' ')
    (hplaceholder : occurs placeholder text = false) (htrim : trim text = text) :
    IsStage text := by
  have hmarks : ∀ c ∈ text, c ∉ ['|', '(', ')', '"', '\'', '-', '/'] := by
    intro c hc hmark
    have hnone : ∀ d ∈ ['|', '(', ')', '"', '\'', '-', '/'], ¬(d.isAlphanum ∨ d = ' ') := by decide
    exact hnone c hmark (hwords c hc)
  have hcode : ['"', '\'', '-', '/'] ⊆ ['|', '(', ')', '"', '\'', '-', '/'] := by decide
  have hcuts : ['|', '(', ')', '"', '\''] ⊆ ['|', '(', ')', '"', '\'', '-', '/'] := by decide
  have hstrip : stripComments text = text := by
    have hall := stripFrom_append (fun c hc hmark => hmarks c hc (hcode hmark)) none []
    rwa [stripFrom, List.append_nil] at hall
  exact ⟨hne, clean_eq_iff.mpr ⟨hplaceholder, hstrip, htrim⟩,
    endOf?_plain (fun c hc hmark => hmarks c hc (hcuts hmark)) 0⟩

section Counts

variable (hne : cs ≠ []) (hdigits : ∀ c ∈ cs, c.isDigit)

include hne hdigits

/-- The placeholder has a capital letter, which neither the keyword nor the digits have. -/
theorem isStage_limit : IsStage ("limit".toList ++ ' ' :: cs) := by
  have hword : ∀ c ∈ "limit".toList, c.isAlphanum ∧ c ≠ 'W' := by decide
  have hchars : ∀ c ∈ "limit".toList ++ ' ' :: cs, (c.isAlphanum ∨ c = ' ') ∧ c ≠ 'W' := by
    intro c hc
    rcases List.mem_append.mp hc with hc | hc
    · exact ⟨.inl (hword c hc).1, (hword c hc).2⟩
    rcases List.mem_cons.mp hc with rfl | hc
    · decide
    · refine ⟨.inl (by simp [Char.isAlphanum, hdigits c hc]), ?_⟩
      rintro rfl
      exact absurd (hdigits 'W' hc) (by decide)
  refine isStage_of_words (by simp) (fun c hc => (hchars c hc).1) ?_ (trim_eq ?_ fun c hc => ?_)
  · rw [← Bool.not_eq_true, occurs_iff_isInfix]
    exact fun h => (hchars 'W' (h.subset (by decide))).2 rfl
  · simp [isBlank]
  · rw [List.getLast?_append_of_ne_nil _ (by simp), List.getLast?_cons_of_ne_nil hne] at hc
    exact isBlank_of_isDigit (hdigits c (List.mem_of_getLast? hc))

theorem split_limit :
    split ("T | limit ".toList ++ cs) = .ok (.stages [['T'], "limit".toList ++ ' ' :: cs]) := by
  have hstages : ∀ stage ∈ [['T'], "limit".toList ++ ' ' :: cs], IsStage stage := by
    rintro stage (_ | ⟨_, _ | ⟨_, ⟨⟩⟩⟩)
    · decide
    · exact isStage_limit hne hdigits
  have hquery : "T | limit ".toList ++ cs =
      bar.intercalate [['T'], "limit".toList ++ ' ' :: cs] := by
    simp [bar, List.intercalate]
  have hclean := clean_intercalate (List.cons_ne_nil _ _) hstages
  have hpieces := map_trim_pieces (List.cons_ne_nil _ _) hstages
  have hsql : isSql ("T | limit ".toList ++ cs) = false := rfl
  rw [← hquery] at hclean hpieces
  rw [split]
  simp only [hclean, hsql, hpieces]
  rfl

end Counts

theorem parsePipeline_limit (arguments : List Char) :
    parsePipeline [['T'], "limit".toList ++ ' ' :: arguments] =
      (parseRowCount (' ' :: arguments) ("limit".toList ++ ' ' :: arguments)).map
        fun n => [.source "T", .limit n] := by
  have hsource : parseSource ['T'] = .ok (.source "T") := by
    have htable : tableName? ['T'] = some "T" := by decide
    rw [parseSource, htable]
  simp only [parsePipeline, hsource, List.mapM_cons, List.mapM_nil, parseStage_limit]
  cases parseRowCount (' ' :: arguments) ("limit".toList ++ ' ' :: arguments) <;> rfl

/-- The plan of a table with a limit. -/
def limitedPlan (n : Nat) : Plan :=
  { Plan.ofTable "T" with limit := some n }

theorem select_limitedPlan (dialect : Sql.Dialect) (n : Nat) :
    Sql.select dialect (limitedPlan n) = .ok ("SELECT * FROM \"T\" LIMIT " ++ toString n) := by
  have hplain : Sql.selectText dialect (Plan.ofTable "T") = "SELECT * FROM \"T\"" := by
    cases dialect <;> decide
  have hwritten : Sql.selectText dialect (limitedPlan n) =
      "SELECT * FROM \"T\"" ++ Sql.limitText n := by
    rw [Sql.selectText_eq_append, ← hplain]
    rfl
  have hselect :
      Sql.select dialect (limitedPlan n) = .ok (Sql.selectText dialect (limitedPlan n)) :=
    rfl
  rw [hselect, hwritten, Sql.limitText, ← String.append_assoc]
  rfl

/-- The row count is the last clause of the SQL. -/
theorem compile_limit (hne : cs ≠ []) (hdigits : ∀ c ∈ cs, c.isDigit) (dialect : Sql.Dialect) :
    compile ⟨none, none, dialect⟩ (String.ofList ("T | limit ".toList ++ cs)) =
      (parseRowCount (' ' :: cs) ("limit".toList ++ ' ' :: cs)).map
        fun n => "SELECT * FROM \"T\" LIMIT " ++ toString n := by
  have hsplit : split (String.ofList ("T | limit ".toList ++ cs)).toList =
      .ok (.stages [['T'], "limit".toList ++ ' ' :: cs]) := by
    rw [String.toList_ofList]
    exact split_limit hne hdigits
  have hread := parsePipeline_limit cs
  cases hcount : parseRowCount (' ' :: cs) ("limit".toList ++ ' ' :: cs) with
  | error error =>
    rw [hcount] at hread
    simp only [compile, Request.ofText, hsplit, hread, bind, Except.bind, Except.map]
  | ok n =>
    rw [hcount] at hread
    rw [compile_of_pipeline? (pipeline?_eq_some.mpr ⟨_, hsplit, hread⟩)]
    exact select_limitedPlan dialect n

/-- Row counts are exact. Digits, of any length and with any zeros in front, are a row count of
`limit`, `take` and `top` if and only if the number that they spell is positive and below 2⁶⁴; this
number is then the count, in the SQL as well. Other digits are refused with the stage. -/
theorem rowCounts_exact {digits key : String} (hne : digits ≠ "")
    (hdigits : ∀ c ∈ digits.toList, c.isDigit) (hkey : Spells (.ident key) key)
    (dialect : Sql.Dialect) {v : Nat} (hvalue : Nat.ofDigitChars 10 digits.toList 0 = v) :
    (0 < v ∧ v < 2 ^ 64 →
      parseStage ("limit " ++ digits).toList = .ok (.limit v) ∧
      parseStage ("take " ++ digits).toList = .ok (.take v) ∧
      parseStage ("top " ++ digits ++ " by " ++ key).toList =
        .ok (.top v ⟨.ofPath key, .descending⟩) ∧
      compile ⟨none, none, dialect⟩ ("T | limit " ++ digits) =
        .ok ("SELECT * FROM \"T\" LIMIT " ++ toString v)) ∧
    (¬(0 < v ∧ v < 2 ^ 64) →
      parseStage ("limit " ++ digits).toList = .error (.badRowCount ("limit " ++ digits)) ∧
      parseStage ("take " ++ digits).toList = .error (.badRowCount ("take " ++ digits)) ∧
      parseStage ("top " ++ digits ++ " by " ++ key).toList =
        .error (.badRowCount ("top " ++ digits ++ " by " ++ key)) ∧
      compile ⟨none, none, dialect⟩ ("T | limit " ++ digits) =
        .error (.badRowCount ("limit " ++ digits))) := by
  have hcs : digits.toList ≠ [] := by simpa using hne
  have hlimitText : "limit".toList ++ ' ' :: digits.toList = ("limit " ++ digits).toList := by simp
  have htakeText : "take".toList ++ ' ' :: digits.toList = ("take " ++ digits).toList := by simp
  have htopText : "top".toList ++ ' ' :: (digits.toList ++ " by ".toList ++ key.toList) =
      ("top " ++ digits ++ " by " ++ key).toList := by simp
  have hqueryText : String.ofList ("T | limit ".toList ++ digits.toList) =
      "T | limit " ++ digits := by
    rw [← String.toList_inj]
    simp
  have hlimit := parseStage_limit digits.toList
  have htake := parseStage_take digits.toList
  have htop := parseStage_top (digits.toList ++ " by ".toList ++ key.toList)
  have hcompile := compile_limit hcs hdigits dialect
  rw [parseTop_digits hcs hdigits hkey] at htop
  simp only [parseRowCount_digits hcs hdigits, hvalue, hlimitText, htakeText, htopText, hqueryText,
    String.ofList_toList] at hlimit htake htop hcompile
  constructor
  · intro hfits
    simp only [if_pos hfits] at hlimit htake htop hcompile
    exact ⟨hlimit, htake, htop, hcompile⟩
  · intro hmisfits
    simp only [if_neg hmisfits] at hlimit htake htop hcompile
    exact ⟨hlimit, htake, htop, hcompile⟩

/-- Zeros in front do not count, and the largest count is the last one in front of 2⁶⁴. -/
theorem rowCounts_exact_largest :
    (Spells (.ident "t.a") "t.a" ∧
      parseStage "top 007 by t.a".toList = .ok (.top 7 ⟨.of "t" "a", .descending⟩)) ∧
    compile ⟨none, none, .sqlite⟩ "T | limit 18446744073709551615" =
      .ok "SELECT * FROM \"T\" LIMIT 18446744073709551615" ∧
    parseStage "take 18446744073709551616".toList =
      .error (.badRowCount "take 18446744073709551616") := by
  have hkey : Spells (.ident "t.a") "t.a" := ⟨0, 3, by cbv⟩
  have hcolumn : Column.ofPath "t.a" = .of "t" "a" := by decide
  have hseven : Nat.ofDigitChars 10 "007".toList 0 = 7 := by decide
  have hlargest : Nat.ofDigitChars 10 "18446744073709551615".toList 0 = 18446744073709551615 := by
    decide
  have hlarger : Nat.ofDigitChars 10 "18446744073709551616".toList 0 = 18446744073709551616 := by
    decide
  have hshort := (rowCounts_exact (by decide) (by decide) hkey .sqlite hseven).1 (by decide)
  have hlong := (rowCounts_exact (by decide) (by decide) hkey .sqlite hlargest).1 (by decide)
  have hnone := (rowCounts_exact (by decide) (by decide) hkey .sqlite hlarger).2 (by decide)
  refine ⟨⟨hkey, ?_⟩, ?_, ?_⟩
  · rw [← hcolumn]
    exact hshort.2.2.1
  · exact hlong.2.2.2
  · exact hnone.2.1

end PipeSql
