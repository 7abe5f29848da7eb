import PipeSql.Proofs.Text
import PipeSql.Query.Clean
import Mathlib.Data.List.DropRight
import Mathlib.Data.List.Flatten
import Mathlib.Data.List.Infix

/-! # What cleaning leaves as it is

A text without the placeholder keeps its lines, and one without blanks at its ends keeps its
ends. Cleaning leaves a text as it is only when there is nothing to clean in it. -/

namespace PipeSql.Query

open PipeSql.Text

variable {part cs text rest : List Char}

/-! ## The placeholder -/

theorem occurs_iff_isInfix : occurs part cs ↔ part <:+: cs := by
  induction cs with
  | nil => simp [occurs]
  | cons c cs ih =>
    rw [occurs, Bool.or_eq_true, ih, List.isPrefixOf_iff_prefix, List.infix_cons_iff]

theorem lines_flatten (cs : List Char) : (lines cs).flatten = cs := by
  induction cs with
  | nil => rfl
  | cons c cs ih =>
    rw [lines]
    split
    · rw [List.flatten_cons, ih]
      rfl
    · cases hrest : lines cs with
      | nil =>
        rw [hrest] at ih
        rw [← ih]
        rfl
      | cons line more =>
        rw [hrest] at ih
        rw [← ih]
        rfl

theorem infix_of_mem_lines {line : List Char} (h : line ∈ lines cs) : line <:+: cs := by
  obtain ⟨front, behind, hlines⟩ := List.append_of_mem h
  refine ⟨front.flatten, behind.flatten, ?_⟩
  rw [← lines_flatten cs, hlines]
  simp

/-- A text without the placeholder has no line with it. -/
theorem dropPlaceholder_eq (h : occurs placeholder cs = false) : dropPlaceholder cs = cs := by
  have hkept : (lines cs).filter (fun line => !occurs placeholder line) = lines cs := by
    refine List.filter_eq_self.mpr fun line hline => ?_
    by_contra hoccurs
    have hline' : placeholder <:+: line := occurs_iff_isInfix.mp (by simpa using hoccurs)
    have hall := occurs_iff_isInfix.mpr (hline'.trans (infix_of_mem_lines hline))
    simp [h] at hall
  rw [dropPlaceholder, hkept, lines_flatten]

theorem exists_line_of_prefix (hpart : part ≠ []) (hbreak : '\n' ∉ part) (h : part <+: cs) :
    ∃ line more, lines cs = line :: more ∧ part <+: line := by
  induction cs generalizing part with
  | nil => exact absurd (List.prefix_nil.mp h) hpart
  | cons c cs ih =>
    cases part with
    | nil => exact absurd rfl hpart
    | cons d part =>
      obtain ⟨rfl, hrest⟩ := List.cons_prefix_cons.mp h
      have hc : d ≠ '\n' := fun hd => hbreak (hd ▸ List.mem_cons_self)
      rw [lines, if_neg hc]
      by_cases hnil : part = []
      · subst hnil
        cases lines cs with
        | nil => exact ⟨[d], [], rfl, List.prefix_refl _⟩
        | cons line more => exact ⟨d :: line, more, rfl, by simp⟩
      · obtain ⟨line, more, hlines, hline⟩ :=
          ih hnil (fun hd => hbreak (List.mem_cons_of_mem d hd)) hrest
        rw [hlines]
        exact ⟨d :: line, more, rfl, List.cons_prefix_cons.mpr ⟨rfl, hline⟩⟩

/-- What occurs in a text and has no line break occurs in one of its lines. -/
theorem exists_line_of_infix (hpart : part ≠ []) (hbreak : '\n' ∉ part) (h : part <:+: cs) :
    ∃ line ∈ lines cs, part <:+: line := by
  induction cs with
  | nil => exact absurd (List.infix_nil.mp h) hpart
  | cons c cs ih =>
    rcases List.infix_cons_iff.mp h with hprefix | hinfix
    · obtain ⟨line, more, hlines, hline⟩ := exists_line_of_prefix hpart hbreak hprefix
      exact ⟨line, by simp [hlines], hline.isInfix⟩
    · obtain ⟨line, hmem, hline⟩ := ih hinfix
      rw [lines]
      split
      · exact ⟨line, List.mem_cons_of_mem _ hmem, hline⟩
      · cases hlines : lines cs with
        | nil => simp [hlines] at hmem
        | cons first more =>
          rw [hlines] at hmem
          rcases List.mem_cons.mp hmem with rfl | hmem
          · exact ⟨c :: line, List.mem_cons_self, hline.trans (List.infix_cons (List.infix_refl _))⟩
          · exact ⟨line, List.mem_cons_of_mem _ hmem, hline⟩

theorem dropPlaceholder_sublist (cs : List Char) : (dropPlaceholder cs).Sublist cs := by
  have h : ((lines cs).filter fun line => !occurs placeholder line).flatten.Sublist
      (lines cs).flatten := List.Sublist.flatten List.filter_sublist
  rwa [lines_flatten] at h

/-- Only a text without the placeholder is left as it is. -/
theorem dropPlaceholder_eq_iff : dropPlaceholder cs = cs ↔ occurs placeholder cs = false := by
  refine ⟨fun h => ?_, dropPlaceholder_eq⟩
  by_contra hoccurs
  have hinfix : placeholder <:+: cs := occurs_iff_isInfix.mp (by simpa using hoccurs)
  obtain ⟨line, hmem, hline⟩ := exists_line_of_infix (by decide) (by decide) hinfix
  have hdropped : (!occurs placeholder line) = false := by
    rw [occurs_iff_isInfix.mpr hline]
    rfl
  obtain ⟨front, behind, hlines⟩ := List.append_of_mem hmem
  have hkept : ((lines cs).filter fun line => !occurs placeholder line).Sublist
      (front ++ behind) := by
    rw [hlines, List.filter_append, List.filter_cons_of_neg (by simp [hdropped])]
    exact List.filter_sublist.append List.filter_sublist
  have hle : cs.length ≤ (front ++ behind).flatten.length := by
    have hlength := hkept.flatten.length_le
    rwa [← dropPlaceholder, h] at hlength
  have hlt : (front ++ behind).flatten.length < cs.length := by
    have hpos : 0 < line.length := (List.length_pos_iff.mpr (by decide)).trans_le hline.length_le
    rw [← lines_flatten cs, hlines]
    simp only [List.flatten_append, List.flatten_cons, List.length_append]
    omega
  omega

/-! ## Comments -/

/-- Outside literals a character stays that opens neither a literal nor a comment. -/
theorem stripFrom_code {c : Char} (previous : Option Char)
    (hquote : c ≠ '"' ∧ c ≠ '\'') (hdashes : c = '-' → rest.head? ≠ some '-')
    (hslashes : c = '/' → rest.head? ≠ some '/' ∧ rest.head? ≠ some '*') :
    stripFrom (.code previous) (c :: rest) = c :: stripFrom (.code (some c)) rest := by
  rw [stripFrom.eq_def]
  split <;> simp_all

theorem stripFrom_append {front : List Char} (h : ∀ c ∈ front, c ∉ ['"', '\'', '-', '/'])
    (previous : Option Char) (rest : List Char) :
    stripFrom (.code previous) (front ++ rest) =
      front ++ stripFrom (.code (front.getLast?.or previous)) rest := by
  induction front generalizing previous with
  | nil => rfl
  | cons c front ih =>
    have hc := h c List.mem_cons_self
    simp only [List.mem_cons, List.not_mem_nil, or_false, not_or] at hc
    have hrest := ih (fun d hd => h d (List.mem_cons_of_mem c hd)) (some c)
    rw [List.cons_append, stripFrom_code previous ⟨hc.1, hc.2.1⟩ (fun h => absurd h hc.2.2.1)
      (fun h => absurd h hc.2.2.2), hrest, List.getLast?_cons]
    cases front.getLast? <;> rfl

/-- Whether `c` opens a comment outside literals, together with the character behind it. -/
def startsComment (previous : Option Char) (c : Char) (next? : Option Char) : Bool :=
  (c == '-' && next? == some '-' && opensComment previous) ||
    (c == '/' && (next? == some '/' || next? == some '*'))

/-- The place in a literal, where one is open, or else outside. -/
def placeIn (previous : Option Char) : Option Char → Place
  | none => .code previous
  | some quote => .literal quote

/-- Two hyphens that open no comment are read one by one. -/
theorem stripFrom_hyphen {previous : Option Char} (h : opensComment previous = false)
    (rest : List Char) :
    stripFrom (.code previous) ('-' :: rest) = '-' :: stripFrom (.code (some '-')) rest := by
  induction hn : rest.length using Nat.strongRecOn generalizing previous rest with
  | ind n ih =>
    cases rest with
    | nil => simp [stripFrom]
    | cons c rest =>
      by_cases hc : c = '-'
      · subst hc
        have hopens : opensComment (some '-') = false := rfl
        have hrest := ih rest.length (by simp [← hn]) hopens rest rfl
        rw [hrest, stripFrom.eq_def]
        simp [h]
      · rw [stripFrom_code previous (by decide) (by simpa using hc) (by simp)]

theorem stripFrom_cons {previous : Option Char} {c : Char}
    (h : startsComment previous c rest.head? = false) :
    stripFrom (.code previous) (c :: rest) =
      c :: stripFrom (placeIn (some c) (if c = '"' || c = '\'' then some c else none)) rest := by
  by_cases hquote : c = '"' ∨ c = '\''
  · rcases hquote with rfl | rfl <;> simp [stripFrom, placeIn]
  have hquotes := not_or.mp hquote
  have hplace : placeIn (some c) (if c = '"' || c = '\'' then some c else none) =
      .code (some c) := by
    simp [hquotes, placeIn]
  rw [hplace]
  by_cases hc : c = '-'
  · subst hc
    cases hopens : opensComment previous with
    | false => exact stripFrom_hyphen hopens rest
    | true =>
      have hnext : rest.head? ≠ some '-' := by simpa [startsComment, hopens] using h
      exact stripFrom_code previous (by decide) (fun _ => hnext) (by simp)
  · refine stripFrom_code previous hquotes (fun h => absurd h hc) ?_
    rintro rfl
    simpa [startsComment] using h

/-- Comments take characters away. -/
theorem length_stripFrom_le (place : Place) (cs : List Char) :
    (stripFrom place cs).length ≤ cs.length := by
  fun_induction stripFrom place cs with
  | case1 | case2 => simp
  | _ => simp only [List.length_cons] at *; omega

theorem stripFrom_ne_of_startsComment {previous : Option Char} {c : Char}
    (h : startsComment previous c rest.head?) :
    stripFrom (.code previous) (c :: rest) ≠ c :: rest := by
  cases rest with
  | nil => simp [startsComment] at h
  | cons d rest =>
    have hline := length_stripFrom_le .lineComment rest
    intro heq
    have hlength : (stripFrom (.code previous) (c :: d :: rest)).length = rest.length + 2 := by
      rw [heq, List.length_cons, List.length_cons]
    simp only [startsComment, List.head?_cons, Option.some_beq_some, Bool.or_eq_true,
      Bool.and_eq_true, beq_iff_eq] at h
    rcases h with ⟨⟨rfl, rfl⟩, hopens⟩ | ⟨rfl, rfl | rfl⟩
    · rw [stripFrom, if_pos hopens] at hlength
      omega
    · rw [stripFrom] at hlength
      omega
    · simp [stripFrom] at heq

/-- Of the character in front, it matters only whether a comment may open behind it. -/
theorem stripFrom_previous {previous previous' : Option Char}
    (h : opensComment previous = opensComment previous') (cs : List Char) :
    stripFrom (.code previous) cs = stripFrom (.code previous') cs := by
  cases cs with
  | nil => rfl
  | cons c rest =>
    rw [stripFrom.eq_def, stripFrom.eq_def (.code previous')]
    split <;> simp_all

theorem stripFrom_literal {quote c : Char} (hc : c ≠ '\\') (rest : List Char) :
    stripFrom (.literal quote) (c :: rest) =
      c :: stripFrom (placeIn (some c) (if c = quote then none else some quote)) rest := by
  have hstep : stripFrom (.literal quote) (c :: rest) =
      c :: stripFrom (if c = quote then .code (some c) else .literal quote) rest := by
    rw [stripFrom]
    · exact fun h _ => hc h
    · exact fun d more h => absurd h hc
  rw [hstep]
  split <;> rfl

/-- A character outside literals that is read without opening a comment, and so is whatever
follows the text behind it. -/
theorem stripFrom_step {previous : Option Char} {c : Char}
    (hclean : stripFrom (.code previous) (c :: text) = c :: text)
    (hrest : ∀ d ∈ rest.head?, d ∉ ['-', '/', '*']) :
    let place := placeIn (some c) (if c = '"' || c = '\'' then some c else none)
    stripFrom place text = text ∧
      stripFrom (.code previous) (c :: text ++ rest) = c :: stripFrom place (text ++ rest) := by
  have hstart : startsComment previous c text.head? = false := by
    by_contra h
    exact stripFrom_ne_of_startsComment (by simpa using h) hclean
  have hstart' : startsComment previous c (text ++ rest).head? = false := by
    cases text with
    | cons d text => exact hstart
    | nil =>
      cases rest with
      | nil => exact hstart
      | cons d rest =>
        have hd := hrest d rfl
        simp only [List.mem_cons, List.not_mem_nil, or_false, not_or] at hd
        simp [startsComment, hd]
  refine ⟨?_, stripFrom_cons hstart'⟩
  rw [stripFrom_cons hstart] at hclean
  exact (List.cons_eq_cons.mp hclean).2

/-! ## The ends -/

theorem trimEnd_eq (h : ∀ c ∈ cs.getLast?, isBlank c = false) : trimEnd cs = cs := by
  have hreverse : cs.reverse.dropWhile isBlank = cs.reverse := by
    cases hlast : cs.reverse with
    | nil => rfl
    | cons c rest =>
      have hc : isBlank c = false := h c (by rw [List.getLast?_eq_head?_reverse, hlast]; rfl)
      rw [List.dropWhile_cons_of_neg (by simp [hc])]
  rw [trimEnd, hreverse, List.reverse_reverse]

theorem trimEnd_append {front : List Char} (hfront : ∃ c ∈ front.getLast?, isBlank c = false)
    (behind : List Char) : trimEnd (front ++ behind) = front ++ trimEnd behind := by
  have hkept : front.reverse.dropWhile isBlank = front.reverse := by
    obtain ⟨c, hc, hblank⟩ := hfront
    obtain ⟨rest, hrest⟩ := List.head?_eq_some_iff.mp (List.getLast?_eq_head?_reverse ▸ hc)
    rw [hrest, List.dropWhile_cons_of_neg (by simp [hblank])]
  rw [trimEnd, trimEnd, List.reverse_append, List.dropWhile_append, hkept]
  split
  · rename_i hempty
    rw [List.isEmpty_iff.mp hempty]
    simp
  · simp

theorem trimEnd_isPrefix (cs : List Char) : trimEnd cs <+: cs := by
  rw [trimEnd, ← List.reverse_suffix, List.reverse_reverse]
  exact List.dropWhile_suffix _

/-- A text without blanks at its ends has nothing to lose there. -/
theorem trim_eq (hfirst : ∀ c ∈ cs.head?, isBlank c = false)
    (hlast : ∀ c ∈ cs.getLast?, isBlank c = false) : trim cs = cs := by
  have hfront : cs.dropWhile isBlank = cs := by
    cases cs with
    | nil => rfl
    | cons c rest => rw [List.dropWhile_cons_of_neg (by simp [hfirst c rfl])]
  rw [trim, hfront, trimEnd_eq hlast]

theorem trim_isInfix (cs : List Char) : trim cs <:+: cs :=
  ((trimEnd_isPrefix _).isInfix).trans (List.dropWhile_suffix _).isInfix

theorem trim_cons {c : Char} (hc : isBlank c) (cs : List Char) : trim (c :: cs) = trim cs := by
  rw [trim, List.dropWhile_cons_of_pos hc, trim]

theorem trim_concat {c : Char} (hc : isBlank c) (cs : List Char) : trim (cs ++ [c]) = trim cs := by
  rw [trim, trim, List.dropWhile_append]
  split
  · rename_i hempty
    rw [List.isEmpty_iff.mp hempty]
    simp [trimEnd, hc]
  · simp [trimEnd, hc]

theorem not_isBlank_of_trim_eq {cs : List Char} (h : trim cs = cs) :
    (∀ c ∈ cs.head?, isBlank c = false) ∧ ∀ c ∈ cs.getLast?, isBlank c = false := by
  have hfront : cs.dropWhile isBlank = cs := by
    refine (List.dropWhile_suffix isBlank).eq_of_length_le ?_
    have hlength := (trimEnd_isPrefix (cs.dropWhile isBlank)).length_le
    rwa [← trim, h] at hlength
  have hend : cs.rdropWhile isBlank = cs := by
    rwa [trim, hfront] at h
  refine ⟨fun c hc => ?_, fun c hc => ?_⟩
  · obtain ⟨rest, rfl⟩ := List.head?_eq_some_iff.mp hc
    exact eq_false_of_ne_true (List.dropWhile_eq_self_iff.mp hfront (by simp))
  · obtain ⟨hne, rfl⟩ := List.mem_getLast?_eq_getLast hc
    exact eq_false_of_ne_true (List.rdropWhile_eq_self_iff.mp hend hne)

/-! ## Clean texts -/

/-- A clean text has no placeholder, no comments and no blanks at its ends. -/
theorem clean_eq_iff {cs : List Char} :
    clean cs = cs ↔ occurs placeholder cs = false ∧ stripComments cs = cs ∧ trim cs = cs := by
  constructor
  · intro h
    -- each step takes characters away, and none is missing in the end
    have htrim := (trim_isInfix (stripComments (dropPlaceholder cs))).length_le
    have hstrip := length_stripFrom_le (.code none) (dropPlaceholder cs)
    have hdrop : dropPlaceholder cs = cs := by
      refine (dropPlaceholder_sublist cs).eq_of_length_le ?_
      rw [← clean, h] at htrim
      exact htrim.trans hstrip
    have hstripped : trim (stripComments cs) = stripComments cs := by
      rw [hdrop] at hstrip
      refine (trim_isInfix _).eq_of_length_le ?_
      rw [clean, hdrop] at h
      rwa [h]
    rw [clean, hdrop, hstripped] at h
    exact ⟨dropPlaceholder_eq_iff.mp hdrop, h, h ▸ hstripped⟩
  · rintro ⟨hdrop, hstrip, htrim⟩
    rw [clean, dropPlaceholder_eq hdrop, hstrip, htrim]

end PipeSql.Query
