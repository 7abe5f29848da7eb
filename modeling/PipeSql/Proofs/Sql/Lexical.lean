import PipeSql.Proofs.Query.Scan
import PipeSql.Proofs.Text
import PipeSql.Sql.Dialect
import PipeSql.Sql.Token
import Mathlib.Data.List.Chain
import Mathlib.Data.List.Infix

/-! # The tokens of a text, piece by piece

A quoted name or text is one token wherever it stands, and what stands in front of it, or of a
blank, a parenthesis or a comma, gives the same tokens as on its own. -/

namespace PipeSql.Sql

open Text
open Query (isQuote isQuote_iff isBreak)

/-! ## What stands behind a token -/

theorem suffix_of_undoubled? {quote : Char} {cs value behind : List Char}
    (h : undoubled? quote cs = some (value, behind)) : behind <:+ cs := by
  fun_induction undoubled? quote cs generalizing value with
  | case1 => cases h
  | case2 c rest hc ih =>
    obtain ⟨⟨inner, stop⟩, hinner, heq⟩ := Option.map_eq_some_iff.mp h
    cases heq
    exact (ih hinner).trans (List.suffix_cons c rest)
  | case3 c =>
    cases h
    exact List.nil_suffix
  | case4 c _ more ih =>
    obtain ⟨⟨inner, stop⟩, hinner, heq⟩ := Option.map_eq_some_iff.mp h
    cases heq
    exact (ih hinner).trans ((List.suffix_cons _ more).trans (List.suffix_cons _ _))
  | case5 c _ d more =>
    cases h
    exact List.suffix_cons c (d :: more)

theorem behindComment_suffix (cs : List Char) : behindComment cs <:+ cs := by
  fun_induction behindComment cs with
  | case1 => exact List.suffix_refl []
  | case2 rest => exact (List.suffix_cons _ rest).trans (List.suffix_cons _ _)
  | case3 c rest _ ih => exact ih.trans (List.suffix_cons c rest)

theorem suffix_of_gap? {c : Char} {rest behind : List Char} (h : gap? c rest = some behind) :
    behind <:+ rest := by
  unfold gap? at h
  split at h
  · cases h
    exact List.suffix_refl rest
  · split at h
    · cases h
      exact (List.dropWhile_suffix _).trans (List.suffix_cons _ _)
    · cases h
      exact (behindComment_suffix _).trans (List.suffix_cons _ _)
    · cases h

theorem fraction_suffix (cs : List Char) : (fraction cs).2 <:+ cs := by
  unfold fraction
  split
  · exact (List.dropWhile_suffix _).trans (List.suffix_cons _ _)
  · exact List.suffix_refl cs

theorem sign_suffix (cs : List Char) : (sign cs).2 <:+ cs := by
  unfold sign
  split
  · exact List.suffix_cons _ _
  · exact List.suffix_cons _ _
  · exact List.suffix_refl cs

theorem exponent_suffix (cs : List Char) : (exponent cs).2 <:+ cs := by
  cases cs with
  | nil => exact List.suffix_refl []
  | cons e more =>
    simp only [exponent]
    split
    · exact (List.dropWhile_suffix _).trans ((sign_suffix more).trans (List.suffix_cons e more))
    · exact List.suffix_refl _

theorem numeral_suffix {c : Char} (rest : List Char) (h : c.isDigit || c == '.') :
    (numeral (c :: rest)).2 <:+ rest := by
  have hfraction : (fraction ((c :: rest).dropWhile Char.isDigit)).2 <:+ rest := by
    by_cases hc : c.isDigit
    · rw [List.dropWhile_cons_of_pos hc]
      exact (fraction_suffix _).trans (List.dropWhile_suffix _)
    · obtain rfl : c = '.' := by simpa [hc] using h
      exact List.dropWhile_suffix _
  exact (exponent_suffix _).trans hfraction

theorem suffix_of_tokenAt? {c : Char} {rest behind : List Char} {kind : TokenKind}
    (h : tokenAt? c rest = some (kind, behind)) : behind <:+ rest := by
  unfold tokenAt? at h
  split at h
  · obtain ⟨⟨value, stop⟩, hvalue, heq⟩ := Option.map_eq_some_iff.mp h
    cases heq
    exact suffix_of_undoubled? hvalue
  split at h
  · obtain ⟨⟨value, stop⟩, hvalue, heq⟩ := Option.map_eq_some_iff.mp h
    cases heq
    exact suffix_of_undoubled? hvalue
  split at h
  · simp only at h
    split at h
    · rename_i stop hstop
      split at h
      · cases h
        have hclosed : '\'' :: behind <:+ rest.tail := hstop ▸ List.dropWhile_suffix _
        exact (List.suffix_cons _ _).trans (hclosed.trans (List.tail_suffix rest))
      · cases h
    · cases h
  split at h
  · rename_i hdigit
    have hsuffix := numeral_suffix (c := c) rest (by
      simp only [Bool.or_eq_true, Bool.and_eq_true] at hdigit ⊢
      exact hdigit.imp_right And.left)
    simp only at h
    split at h
    · cases h
    · cases h
      exact hsuffix
  split at h
  · cases h
    exact List.dropWhile_suffix _
  split at h
  · cases h
    exact List.suffix_refl rest
  · cases h

/-! ## All of a text -/

/-- The tokens of a text. A character that starts none is a mark of its own. -/
def kinds : List Char → List TokenKind
  | [] => []
  | c :: rest =>
    match _h : gap? c rest with
    | some behind => kinds behind
    | none =>
      match _h : tokenAt? c rest with
      | some (kind, behind) => kind :: kinds behind
      | none => .mark c :: kinds rest
  termination_by cs => cs.length
  decreasing_by
    · exact Nat.lt_succ_of_le (suffix_of_gap? ‹_›).length_le
    · exact Nat.lt_succ_of_le (suffix_of_tokenAt? ‹_›).length_le
    · exact Nat.lt_succ_self _

section Equations

variable {c : Char} {rest behind : List Char} {kind : TokenKind}

theorem kinds_of_gap? (h : gap? c rest = some behind) : kinds (c :: rest) = kinds behind := by
  rw [kinds]
  split <;> simp_all

theorem kinds_of_tokenAt? (hgap : gap? c rest = none) (h : tokenAt? c rest = some (kind, behind)) :
    kinds (c :: rest) = kind :: kinds behind := by
  rw [kinds]
  split
  · simp_all
  · split <;> simp_all

theorem kinds_of_none (hgap : gap? c rest = none) (h : tokenAt? c rest = none) :
    kinds (c :: rest) = .mark c :: kinds rest := by
  rw [kinds]
  split
  · simp_all
  · split <;> simp_all

end Equations

/-! ## A quote or a break behind a run

The token in front of a quote or a break is found without looking at it. -/

/-- Characters that go on no word and no number. -/
def separates (c : Char) : Bool :=
  isQuote c || isBreak c

theorem separates_iff {c : Char} :
    separates c ↔ c = '"' ∨ c = '\'' ∨ c = ' ' ∨ c = '(' ∨ c = ')' ∨ c = ',' := by
  simp [separates, isQuote, isBreak, or_assoc]

theorem separates_of_isQuote {c : Char} (h : isQuote c) : separates c := by
  simp [separates, h]

theorem separates_of_isBreak {c : Char} (h : isBreak c) : separates c := by
  simp [separates, h]

section Separators

variable {q : Char} {rest : List Char}

theorem takeWhile_append_of_head {p : Char → Bool} (hq : p q = false) (cs : List Char) :
    (cs ++ q :: rest).takeWhile p = cs.takeWhile p := by
  induction cs with
  | nil => simp [hq]
  | cons c cs ih => simp only [List.cons_append, List.takeWhile_cons, ih]

theorem dropWhile_append_of_head {p : Char → Bool} (hq : p q = false) (cs : List Char) :
    (cs ++ q :: rest).dropWhile p = cs.dropWhile p ++ q :: rest := by
  induction cs with
  | nil => simp [hq]
  | cons c cs ih =>
    simp only [List.cons_append, List.dropWhile_cons, ih]
    split <;> rfl

theorem isDigit_of_separates (hq : separates q) : q.isDigit = false := by
  rcases separates_iff.mp hq with rfl | rfl | rfl | rfl | rfl | rfl <;> rfl

theorem continuesWord_of_separates (hq : separates q) : continuesWord q = false := by
  rcases separates_iff.mp hq with rfl | rfl | rfl | rfl | rfl | rfl <;> decide

theorem fraction_append (hq : separates q) (cs : List Char) :
    fraction (cs ++ q :: rest) = ((fraction cs).1, (fraction cs).2 ++ q :: rest) := by
  have hdigit := isDigit_of_separates hq
  cases cs with
  | nil =>
    rcases separates_iff.mp hq with rfl | rfl | rfl | rfl | rfl | rfl <;> rfl
  | cons c cs =>
    by_cases hc : c = '.'
    · subst hc
      simp [fraction, takeWhile_append_of_head hdigit, dropWhile_append_of_head hdigit]
    · simp [fraction, hc]

theorem sign_append (hq : separates q) (cs : List Char) :
    sign (cs ++ q :: rest) = ((sign cs).1, (sign cs).2 ++ q :: rest) := by
  cases cs with
  | nil =>
    rcases separates_iff.mp hq with rfl | rfl | rfl | rfl | rfl | rfl <;> rfl
  | cons c cs =>
    by_cases hplus : c = '+'
    · subst hplus
      simp [sign]
    · by_cases hminus : c = '-'
      · subst hminus
        simp [sign]
      · simp [sign, hplus, hminus]

theorem exponent_append (hq : separates q) (cs : List Char) :
    exponent (cs ++ q :: rest) = ((exponent cs).1, (exponent cs).2 ++ q :: rest) := by
  have hdigit := isDigit_of_separates hq
  cases cs with
  | nil =>
    rcases separates_iff.mp hq with rfl | rfl | rfl | rfl | rfl | rfl <;> rfl
  | cons e more =>
    simp only [List.cons_append, exponent, sign_append hq, takeWhile_append_of_head hdigit,
      dropWhile_append_of_head hdigit]
    split <;> rfl

theorem numeral_append (hq : separates q) (cs : List Char) :
    numeral (cs ++ q :: rest) = ((numeral cs).1, (numeral cs).2 ++ q :: rest) := by
  have hdigit := isDigit_of_separates hq
  simp only [numeral, takeWhile_append_of_head hdigit, dropWhile_append_of_head hdigit,
    fraction_append hq, exponent_append hq]

theorem head?_append_any {p : Char → Bool} (hp : p q = false) (cs : List Char) :
    (cs ++ q :: rest).head?.any p = cs.head?.any p := by
  cases cs <;> simp [hp]

theorem tokenAt?_append (hq : separates q) {c : Char} {cs : List Char} (hc : isQuote c = false)
    (hblob : (c == 'x' || c == 'X') → ∀ d ∈ (cs ++ [q]).head?, isQuote d = false) :
    tokenAt? c (cs ++ q :: rest) =
      (tokenAt? c cs).map fun (kind, behind) => (kind, behind ++ q :: rest) := by
  have hdigit := isDigit_of_separates hq
  have hword := continuesWord_of_separates hq
  have hquotes : c ≠ '"' ∧ c ≠ '\'' := by simpa [isQuote] using hc
  have hno : ∀ more : List Char, ((c == 'x' || c == 'X') && (cs ++ q :: more).head? = some '\'') =
      false ∧ ((c == 'x' || c == 'X') && cs.head? = some '\'') = false := by
    intro more
    cases hx : (c == 'x' || c == 'X') with
    | false => simp
    | true =>
      have hne : ∀ d ∈ (cs ++ [q]).head?, d ≠ '\'' := by
        rintro d hd rfl
        cases hblob hx _ hd
      cases cs <;> simp_all
  unfold tokenAt?
  rw [if_neg hquotes.1, if_neg hquotes.2, if_neg hquotes.1, if_neg hquotes.2, (hno rest).1,
    (hno rest).2, head?_append_any hdigit, ← List.cons_append, numeral_append hq,
    takeWhile_append_of_head hword, dropWhile_append_of_head hword]
  simp only [Bool.false_eq_true, if_false, head?_append_any hword]
  split
  · split <;> rfl
  split
  · rfl
  split <;> rfl

end Separators

/-! ## Runs -/

/-- The characters of a run outside quotes: no quote, no backslash and no semicolon. -/
def isBare (c : Char) : Bool :=
  !(isQuote c || c == '\\' || c == ';')

/-- Two characters that open a comment, in SQL or in a query. -/
def opensComment (a b : Char) : Bool :=
  (a == '-' && b == '-') || (a == '/' && (b == '/' || b == '*'))

theorem opensComment_of_separates {q : Char} (hq : separates q) (c : Char) :
    opensComment c q = false := by
  rcases separates_iff.mp hq with rfl | rfl | rfl | rfl | rfl | rfl <;> simp [opensComment]

/-- The characters that may stand in front of a quote. -/
def frontsQuote (c : Char) : Bool :=
  c == ' ' || c == '(' || c == '.'

/-- Characters that stand for themselves, without quotes and without comments. -/
structure Unquoted (cs : List Char) : Prop where
  bare : ∀ c ∈ cs, isBare c
  chain : cs.IsChain fun a b => opensComment a b = false

instance (cs : List Char) : Decidable (Unquoted cs) :=
  decidable_of_iff ((∀ c ∈ cs, isBare c) ∧ cs.IsChain fun a b => opensComment a b = false)
    ⟨fun h => ⟨h.1, h.2⟩, fun h => ⟨h.1, h.2⟩⟩

/-- A run of such characters in front of one that separates, which may be a quote only behind
certain others. -/
structure Run (q : Char) (cs : List Char) : Prop extends Unquoted cs where
  fronts : isQuote q → ∀ c ∈ cs.getLast?, frontsQuote c

theorem Run.suffix {q : Char} {cs behind : List Char} (h : Run q cs) (hsuffix : behind <:+ cs) :
    Run q behind where
  bare c hc := h.bare c (hsuffix.subset hc)
  chain := h.chain.suffix hsuffix
  fronts hq c hc := by
    obtain ⟨front, rfl⟩ := hsuffix
    refine h.fronts hq c ?_
    rw [List.getLast?_append, hc]
    rfl

theorem gap?_of_not_opensComment {c : Char} {rest : List Char}
    (h : ∀ d ∈ rest.head?, opensComment c d = false) :
    gap? c rest = if isBlank c then some rest else none := by
  unfold gap?
  split
  · rfl
  split
  · cases h _ rfl
  · cases h _ rfl
  · rfl

theorem isQuote_of_isBare {c : Char} (h : isBare c) : isQuote c = false := by
  simp only [isBare, Bool.not_eq_true', Bool.or_eq_false_iff] at h
  exact h.1.1

section Start

variable {q c : Char} {cs : List Char}

theorem Run.gap?_eq (h : Run q (c :: cs)) : gap? c cs = if isBlank c then some cs else none := by
  refine gap?_of_not_opensComment fun d hd => ?_
  obtain ⟨tail, rfl⟩ := List.head?_eq_some_iff.mp hd
  exact (List.isChain_cons_cons.mp h.chain).1

theorem Run.gap?_append (hq : separates q) (rest : List Char) (h : Run q (c :: cs)) :
    gap? c (cs ++ q :: rest) = if isBlank c then some (cs ++ q :: rest) else none := by
  refine gap?_of_not_opensComment fun d hd => ?_
  cases cs with
  | nil =>
    obtain rfl : q = d := by simpa using hd
    exact opensComment_of_separates hq c
  | cons e cs =>
    obtain rfl : e = d := by simpa using hd
    exact (List.isChain_cons_cons.mp h.chain).1

/-- No blob starts at the end of a run. -/
theorem Run.tokenAt?_append (hq : separates q) (rest : List Char) (h : Run q (c :: cs)) :
    tokenAt? c (cs ++ q :: rest) =
      (tokenAt? c cs).map fun (kind, behind) => (kind, behind ++ q :: rest) := by
  refine Sql.tokenAt?_append hq (isQuote_of_isBare (h.bare c List.mem_cons_self)) ?_
  intro hx d hd
  cases cs with
  | nil =>
    obtain rfl : q = d := by simpa using hd
    rw [← Bool.not_eq_true]
    intro hquote
    have hfront := h.fronts hquote c rfl
    rcases Bool.or_eq_true_iff.mp hx with hx | hx <;>
    · rw [beq_iff_eq.mp hx] at hfront
      cases hfront
  | cons e cs =>
    obtain rfl : e = d := by simpa using hd
    exact isQuote_of_isBare (h.bare e (by simp))

/-- A run gives the same tokens as on its own. -/
theorem kinds_append (hq : separates q) (rest : List Char) (h : Run q cs) :
    kinds (cs ++ q :: rest) = kinds cs ++ kinds (q :: rest) := by
  induction hn : cs.length using Nat.strongRecOn generalizing cs with
  | ind n ih =>
    cases cs with
    | nil => rw [List.nil_append, kinds, List.nil_append]
    | cons c cs =>
      -- what a token leaves of the run is a run again
      have hbehind : ∀ behind, behind <:+ cs →
          kinds (behind ++ q :: rest) = kinds behind ++ kinds (q :: rest) := by
        intro behind hsuffix
        have hlength : behind.length < n := by
          rw [← hn, List.length_cons]
          exact Nat.lt_succ_of_le hsuffix.length_le
        exact ih _ hlength (h.suffix (hsuffix.trans (List.suffix_cons c cs))) rfl
      have hgap := h.gap?_eq
      have hgap' := h.gap?_append hq rest
      have htoken := h.tokenAt?_append hq rest
      rw [List.cons_append]
      by_cases hblank : isBlank c
      · rw [if_pos hblank] at hgap hgap'
        rw [kinds_of_gap? hgap', kinds_of_gap? hgap, hbehind cs (List.suffix_refl cs)]
      · rw [if_neg hblank] at hgap hgap'
        cases hfound : tokenAt? c cs with
        | none =>
          rw [hfound] at htoken
          rw [kinds_of_none hgap' htoken, kinds_of_none hgap hfound,
            hbehind cs (List.suffix_refl cs), List.cons_append]
        | some found =>
          obtain ⟨kind, behind⟩ := found
          rw [hfound] at htoken
          rw [kinds_of_tokenAt? hgap' htoken, kinds_of_tokenAt? hgap hfound,
            hbehind behind (suffix_of_tokenAt? hfound), List.cons_append]

end Start

/-! ## Quoted tokens -/

theorem kinds_quoteName (name : String) {rest : List Char} (h : rest.head? ≠ some '"') :
    kinds ((quoteName name).toList ++ rest) = .name name :: kinds rest := by
  have htoken : tokenAt? '"' (doubled '"' name.toList ++ '"' :: rest) =
      some (.name name, rest) := by
    rw [tokenAt?, if_pos rfl, undoubled?_doubled _ _ _ h]
    simp
  have htext : (quoteName name).toList ++ rest =
      '"' :: (doubled '"' name.toList ++ '"' :: rest) := by
    simp [quoteName, enclosed]
  rw [htext, kinds_of_tokenAt? (by simp [gap?, isBlank]) htoken]

theorem kinds_quoteText (value : String) {rest : List Char} (h : rest.head? ≠ some '\'') :
    kinds ((quoteText value).toList ++ rest) = .text value :: kinds rest := by
  have htoken : tokenAt? '\'' (doubled '\'' value.toList ++ '\'' :: rest) =
      some (.text value, rest) := by
    rw [tokenAt?, if_neg (by decide), if_pos rfl, undoubled?_doubled _ _ _ h]
    simp
  have htext : (quoteText value).toList ++ rest =
      '\'' :: (doubled '\'' value.toList ++ '\'' :: rest) := by
    simp [quoteText, enclosed]
  rw [htext, kinds_of_tokenAt? (by simp [gap?, isBlank]) htoken]

end PipeSql.Sql
