import PipeSql.Proofs.Query.Expr.Completeness
import PipeSql.Sql.Expr
import Mathlib

/-! # Searches match literally

What a pattern matches: it is read part by part, and the parts are laid along the text. Main
statement: the comparison that a search is read as, with the escape clause that is written behind
it, lets those texts pass in which the needle is found. -/

namespace PipeSql

open Query

/-! ## Patterns -/

namespace Sql

/-- A part of a pattern: any run of characters, any character, or a character itself. -/
inductive PatternPart where
  | run | one
  | itself (c : Char)
  deriving DecidableEq, Repr

/-- The part that an unescaped character stands for. -/
def PatternPart.of (c : Char) : PatternPart :=
  if c = '%' then .run else if c = '_' then .one else .itself c

/-- The parts of a pattern. The escape character has to stand in front of another one, which is
taken for itself. -/
def patternParts (escape? : Option Char) : List Char → Option (List PatternPart)
  | [] => some []
  | c :: rest =>
    if escape? == some c then
      match rest with
      | [] => none
      | d :: rest => (patternParts escape? rest).map (.itself d :: ·)
    else (patternParts escape? rest).map (.of c :: ·)

section Matching

variable (same : Char → Char → Bool)

/-- Whether parts of a pattern cover a text. What the characters have to have in common is left
open, as it depends on the case of letters. -/
def covers : List PatternPart → List Char → Bool
  | [], text => text.isEmpty
  | .run :: parts, text => text.tails.any fun behind => covers parts behind
  | .one :: parts, _ :: text => covers parts text
  | .itself c :: parts, d :: text => same c d && covers parts text
  | _, _ => false

/-- Whether a text is like a pattern. -/
def likes (escape? : Option Char) (pattern text : List Char) : Bool :=
  (patternParts escape? pattern).any fun parts => covers same parts text

/-- Whether a text passes a comparison with a pattern. -/
def passes (escape? : Option Char) (op : Comparison) (pattern text : List Char) : Bool :=
  match op with
  | .like => likes same escape? pattern text
  | .unlike => !likes same escape? pattern text
  | _ => false

end Matching

/-- The clause that declares an escape character. -/
def escapeClause : Option Char → String
  | none => ""
  | some c => " ESCAPE '" ++ String.singleton c ++ "'"

variable {same : Char → Char → Bool} {escape? : Option Char} {needle pattern text : List Char}
  {parts : List PatternPart}

theorem covers_run :
    covers same (.run :: parts) text ↔ ∃ behind, behind <:+ text ∧ covers same parts behind := by
  rw [covers, List.any_eq_true]
  simp only [List.mem_tails]

theorem covers_itself :
    covers same (needle.map .itself ++ parts) text ↔
      ∃ found behind, text = found ++ behind ∧
        List.Forall₂ (fun c d => same c d) needle found ∧ covers same parts behind := by
  induction needle generalizing text with
  | nil => simp
  | cons c needle ih =>
    cases text with
    | nil => simp [covers]
    | cons d text =>
      rw [List.map_cons, List.cons_append, covers, Bool.and_eq_true, ih]
      constructor
      · rintro ⟨hsame, found, behind, rfl, hfound, hbehind⟩
        exact ⟨d :: found, behind, rfl, .cons hsame hfound, hbehind⟩
      · rintro ⟨found, behind, htext, hfound, hbehind⟩
        obtain ⟨e, found, hsame, hrest, rfl⟩ := List.forall₂_cons_left_iff.mp hfound
        obtain ⟨rfl, rfl⟩ := List.cons_eq_cons.mp htext
        exact ⟨hsame, found, behind, rfl, hrest, hbehind⟩

theorem patternParts_cons {c : Char} (h : escape? ≠ some c) (rest : List Char) :
    patternParts escape? (c :: rest) = (patternParts escape? rest).map (.of c :: ·) := by
  rw [patternParts.eq_def]
  simp [h]

theorem patternParts_escape (c d : Char) (rest : List Char) :
    patternParts (some c) (c :: d :: rest) =
      (patternParts (some c) rest).map (.itself d :: ·) := by
  rw [patternParts.eq_def]
  simp

/-- An escaped text stands for itself, if the backslash is declared where it occurs. -/
theorem patternParts_escapedPattern
    (h : escape? = some '\\' ∨ escape? = none ∧ ∀ c ∈ needle, isWildcard c = false) :
    patternParts escape? (escapedPattern needle ++ pattern) =
      (patternParts escape? pattern).map (needle.map .itself ++ ·) := by
  induction needle with
  | nil => simp [escapedPattern]
  | cons c needle ih =>
    have hmore := ih (h.imp_right fun ⟨hnone, hneedle⟩ =>
      ⟨hnone, fun d hd => hneedle d (List.mem_cons_of_mem c hd)⟩)
    by_cases hc : isWildcard c
    · obtain rfl : escape? = some '\\' :=
        h.resolve_right fun ⟨_, hneedle⟩ => by simp [hneedle c List.mem_cons_self] at hc
      rw [escapedPattern, if_pos hc, List.cons_append, List.cons_append, patternParts_escape, hmore]
      simp [Function.comp_def]
    · have hplain : c ≠ '%' ∧ c ≠ '_' ∧ c ≠ '\\' := by simpa [isWildcard, and_assoc] using hc
      have hescape : escape? ≠ some c := by
        rcases h with h | ⟨h, -⟩ <;> simp [h, hplain.2.2.symm]
      rw [escapedPattern, if_neg hc, List.cons_append, patternParts_cons hescape, hmore]
      simp [PatternPart.of, hplain, Function.comp_def]

/-- The escape character that the pattern of a search is written with. -/
def escapeFor (needle : String) : Option Char :=
  if needle.toList.any isWildcard then some '\\' else none

theorem escapeFor_ne_percent (needle : String) : escapeFor needle ≠ some '%' := by
  unfold escapeFor
  split <;> simp

theorem escapeFor_declares (needle : String) :
    escapeFor needle = some '\\' ∨
      escapeFor needle = none ∧ ∀ c ∈ needle.toList, isWildcard c = false := by
  by_cases h : needle.toList.any isWildcard
  · exact .inl (if_pos h)
  · exact .inr ⟨if_neg h, by simpa using h⟩

theorem mem_escapedPattern : '\\' ∈ escapedPattern needle ↔ needle.any isWildcard := by
  induction needle with
  | nil => simp [escapedPattern]
  | cons c needle ih =>
    by_cases hc : isWildcard c
    · simp [escapedPattern, hc]
    · have hne : '\\' ≠ c := by
        rintro rfl
        exact hc rfl
      simp [escapedPattern, hc, ih, hne]

theorem escapeText_pattern {op : Comparison} (hop : op = .like ∨ op = .unlike) (search : Search)
    (needle : String) :
    escapeText (.compare op) (.text (search.pattern needle)) = escapeClause (escapeFor needle) := by
  have hmem : '\\' ∈ (search.pattern needle).toList ↔ needle.toList.any isWildcard := by
    rw [← mem_escapedPattern]
    cases search <;> simp [Search.pattern]
  rcases hop with rfl | rfl <;>
    simp only [escapeText, escapeFor, List.contains_iff_mem, hmem] <;> split <;> rfl

end Sql

/-! ## Searches -/

/-- A search finds the needle in a text: somewhere, at its start or at its end. -/
def Query.Search.Finds (same : Char → Char → Bool) (needle text : List Char) : Search → Prop
  | .contains => ∃ found, found <:+: text ∧ List.Forall₂ (fun c d => same c d) needle found
  | .startsWith => ∃ found, found <+: text ∧ List.Forall₂ (fun c d => same c d) needle found
  | .endsWith => ∃ found, found <:+ text ∧ List.Forall₂ (fun c d => same c d) needle found

namespace Sql

section Searches

variable {same : Char → Char → Bool} {needle : String} {text : List Char}

/-- The parts of the pattern of a search. -/
theorem patternParts_pattern (search : Search) (needle : String) :
    patternParts (escapeFor needle) (search.pattern needle).toList =
      some (match search with
        | .contains => .run :: (needle.toList.map .itself ++ [.run])
        | .startsWith => needle.toList.map .itself ++ [.run]
        | .endsWith => .run :: needle.toList.map .itself) := by
  have hrun : ∀ rest, patternParts (escapeFor needle) ('%' :: rest) =
      (patternParts (escapeFor needle) rest).map (.run :: ·) :=
    patternParts_cons (escapeFor_ne_percent needle)
  have hneedle : ∀ rest, patternParts (escapeFor needle) (escapedPattern needle.toList ++ rest) =
      (patternParts (escapeFor needle) rest).map (needle.toList.map .itself ++ ·) :=
    fun rest => patternParts_escapedPattern (escapeFor_declares needle)
  have hend : patternParts (escapeFor needle) [] = some [] := rfl
  have hlone := hneedle []
  rw [List.append_nil] at hlone
  cases search <;> simp [Search.pattern, hrun, hneedle, hlone, hend]

/-- The pattern of a search is that of the texts in which the needle is found. -/
theorem likes_pattern (search : Search) :
    likes same (escapeFor needle) (search.pattern needle).toList text ↔
      search.Finds same needle.toList text := by
  rw [likes, patternParts_pattern, Option.any_some]
  cases search with
  | contains =>
    simp only [covers_run, covers_itself, Search.Finds]
    constructor
    · rintro ⟨_, hsuffix, found, behind, rfl, hfound, -⟩
      exact ⟨found, (List.prefix_append found behind).isInfix.trans hsuffix.isInfix, hfound⟩
    · rintro ⟨found, ⟨front, behind, rfl⟩, hfound⟩
      exact ⟨found ++ behind, ⟨front, by simp⟩, found, behind, rfl, hfound, [],
        List.nil_suffix, rfl⟩
  | startsWith =>
    simp only [covers_run, covers_itself, Search.Finds]
    constructor
    · rintro ⟨found, behind, rfl, hfound, -⟩
      exact ⟨found, List.prefix_append found behind, hfound⟩
    · rintro ⟨found, ⟨behind, rfl⟩, hfound⟩
      exact ⟨found, behind, rfl, hfound, [], List.nil_suffix, rfl⟩
  | endsWith =>
    have hlone : ∀ behind, covers same (needle.toList.map .itself) behind ↔
        List.Forall₂ (fun c d => same c d) needle.toList behind := by
      intro behind
      rw [← List.append_nil (needle.toList.map _), covers_itself]
      simp [covers]
    simp only [covers_run, hlone, Search.Finds]

/-- A search is read as a comparison with a pattern that lets exactly those texts pass in which
the needle is found, or is not found, when the pattern is taken with the escape clause that is
written behind it. -/
theorem passes_of_seeks {tokens behind rest : List Query.Token} {left : Expr} {op : Comparison}
    {search : Search} (hleft : readAt (.chain .sum) tokens = .ok (left, behind))
    (hseeks : Seeks search needle rest op behind) :
    ∃ pattern escape?,
      readAt .comparison tokens = .ok (.binary (.compare op) left (.text pattern), rest) ∧
      (∀ dialect least, exprText dialect least (.binary (.compare op) left (.text pattern)) =
        parenthesized (3 < least) (exprText dialect 4 left ++ " " ++ symbol (.compare op) ++ " " ++
          quoteText pattern ++ escapeClause escape?)) ∧
      ∀ (same : Char → Char → Bool) (text : String),
        passes same escape? op pattern.toList text.toList ↔
          if op = .unlike then ¬ search.Finds same needle.toList text.toList
          else search.Finds same needle.toList text.toList := by
  have hop : op = .like ∨ op = .unlike := by
    cases hseeks with
    | plain => exact .inl rfl
    | negated => exact .inr rfl
  refine ⟨search.pattern needle, escapeFor needle, ?_, fun dialect least => ?_, fun same text => ?_⟩
  · rw [readAt_comparison, hleft]
    exact readCompared_seeks hseeks
  · rw [exprText, escapeText_pattern hop]
    rfl
  · rcases hop with rfl | rfl <;> simp [passes, ← likes_pattern]

end Searches

/-- An underscore is found only where it stands. -/
theorem passes_of_seeks_underscore :
    ∃ pattern escape?,
      readAt .comparison
          [⟨.ident "name", 0, 4⟩, ⟨.ident "contains", 5, 13⟩, ⟨.text "a_n", 14, 19⟩] =
        .ok (.binary (.compare .like) (.column (.bare "name")) (.text pattern), []) ∧
      passes (· == ·) escape? .like pattern.toList "ana_na".toList ∧
      ¬ passes (· == ·) escape? .like pattern.toList "ann".toList := by
  have hleft : readAt (.chain .sum)
      [⟨.ident "name", 0, 4⟩, ⟨.ident "contains", 5, 13⟩, ⟨.text "a_n", 14, 19⟩] =
        .ok (.column (.bare "name"), [⟨.ident "contains", 5, 13⟩, ⟨.text "a_n", 14, 19⟩]) := by
    cbv
  have hsearch : search? ⟨.ident "contains", 5, 13⟩ = some .contains := by cbv
  obtain ⟨pattern, escape?, hread, -, hpasses⟩ := passes_of_seeks hleft (.plain hsearch rfl)
  refine ⟨pattern, escape?, hread, (hpasses _ _).mpr ?_, fun hann => ?_⟩
  · exact ⟨"a_n".toList, by decide, by simp⟩
  · obtain ⟨found, hinfix, hfound⟩ := (hpasses _ _).mp hann
    obtain rfl : "a_n".toList = found := by simpa using hfound
    exact absurd hinfix (by decide)

end Sql

end PipeSql
