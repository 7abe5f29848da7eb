import PipeSql.Proofs.Query.Literal

/-! # Cleaning a second time

What a text loses is found before anything is taken away: the placeholder in the lines of the text,
the comments in the lines that are left. A block comment leaves a space, and what that space does to
the characters around it is seen in the next cleaning only. Main statement: which texts are clean
after one cleaning. -/

namespace PipeSql.Query

open PipeSql.Text

/-! ## Comments and the characters between them -/

/-- What cleaning finds in a text: a character that stays, or a comment. -/
inductive Segment where
  | kept (c : Char)
  | lineComment
  | blockComment
  deriving DecidableEq, Repr

/-- What is left of a segment. A block comment leaves a space. -/
def Segment.left? : Segment → Option Char
  | .kept c => some c
  | .lineComment => none
  | .blockComment => some ' '

/-- The segments behind a place. A comment that is open there is not among them. -/
def segmentsFrom : Place → List Char → List Segment
  | _, [] => []
  | .literal quote, '\\' :: c :: rest => .kept '\\' :: .kept c :: segmentsFrom (.literal quote) rest
  | .literal quote, c :: rest =>
    .kept c :: segmentsFrom (placeIn (some c) (if c = quote then none else some quote)) rest
  | .lineComment, c :: rest =>
    if c = '\n' then .kept c :: segmentsFrom (.code (some c)) rest
    else segmentsFrom .lineComment rest
  | .blockComment, '*' :: '/' :: rest => segmentsFrom (.code (some '/')) rest
  | .blockComment, _ :: rest => segmentsFrom .blockComment rest
  | .code _, [c] => [.kept c]
  | .code previous, c :: d :: rest =>
    if startsComment previous c (some d) then
      if d = '*' then .blockComment :: segmentsFrom .blockComment rest
      else .lineComment :: segmentsFrom .lineComment rest
    else
      .kept c :: segmentsFrom (placeIn (some c) (if c = '"' || c = '\'' then some c else none))
        (d :: rest)

/-- The segments of a text. -/
def segments (cs : List Char) : List Segment :=
  segmentsFrom (.code none) cs

section Steps

variable {previous : Option Char} {quote c : Char} {rest : List Char}

theorem segmentsFrom_escaped (quote c : Char) (rest : List Char) :
    segmentsFrom (.literal quote) ('\\' :: c :: rest) =
      .kept '\\' :: .kept c :: segmentsFrom (.literal quote) rest := by
  rw [segmentsFrom]

theorem segmentsFrom_literal (hc : c ≠ '\\') :
    segmentsFrom (.literal quote) (c :: rest) =
      .kept c :: segmentsFrom (placeIn (some c) (if c = quote then none else some quote)) rest := by
  rw [segmentsFrom]
  exact fun _ _ h => absurd h hc

theorem segmentsFrom_block (h : ∀ more, c = '*' → rest ≠ '/' :: more) :
    segmentsFrom .blockComment (c :: rest) = segmentsFrom .blockComment rest := by
  rw [segmentsFrom]
  exact h

theorem segmentsFrom_hyphens (hopens : opensComment previous) :
    segmentsFrom (.code previous) ('-' :: '-' :: rest) =
      .lineComment :: segmentsFrom .lineComment rest := by
  simp [segmentsFrom, startsComment, hopens]

theorem segmentsFrom_slashes :
    segmentsFrom (.code previous) ('/' :: '/' :: rest) =
      .lineComment :: segmentsFrom .lineComment rest :=
  rfl

theorem segmentsFrom_slashStar :
    segmentsFrom (.code previous) ('/' :: '*' :: rest) =
      .blockComment :: segmentsFrom .blockComment rest :=
  rfl

theorem segmentsFrom_cons (h : startsComment previous c rest.head? = false) :
    segmentsFrom (.code previous) (c :: rest) =
      .kept c :: segmentsFrom (placeIn (some c) (if c = '"' || c = '\'' then some c else none))
        rest := by
  cases rest with
  | nil => simp [segmentsFrom]
  | cons d rest =>
    have hstart : startsComment previous c (some d) = false := h
    rw [segmentsFrom]
    simp only [hstart, Bool.false_eq_true, if_false]

theorem stripFrom_block (h : ∀ more, c = '*' → rest ≠ '/' :: more) :
    stripFrom .blockComment (c :: rest) = stripFrom .blockComment rest := by
  rw [stripFrom]
  exact h

/-- Induction along the stripping of a text. -/
@[elab_as_elim]
theorem stripping_induction {motive : Place → List Char → Prop}
    (nil : ∀ place, motive place [])
    (lone : ∀ quote, motive (.literal quote) ['\\'])
    (escaped : ∀ quote c rest, motive (.literal quote) rest →
      motive (.literal quote) ('\\' :: c :: rest))
    (literal : ∀ quote c rest, c ≠ '\\' →
      motive (placeIn (some c) (if c = quote then none else some quote)) rest →
      motive (.literal quote) (c :: rest))
    (lineEnd : ∀ rest, motive (.code (some '\n')) rest → motive .lineComment ('\n' :: rest))
    (line : ∀ c rest, c ≠ '\n' → motive .lineComment rest → motive .lineComment (c :: rest))
    (blockEnd : ∀ rest, motive (.code (some '/')) rest → motive .blockComment ('*' :: '/' :: rest))
    (block : ∀ c rest, (∀ more, c = '*' → rest ≠ '/' :: more) → motive .blockComment rest →
      motive .blockComment (c :: rest))
    (hyphens : ∀ previous rest, opensComment previous → motive .lineComment rest →
      motive (.code previous) ('-' :: '-' :: rest))
    (slashes : ∀ previous rest, motive .lineComment rest →
      motive (.code previous) ('/' :: '/' :: rest))
    (slashStar : ∀ previous rest, motive .blockComment rest →
      motive (.code previous) ('/' :: '*' :: rest))
    (code : ∀ previous c rest, startsComment previous c rest.head? = false →
      motive (placeIn (some c) (if c = '"' || c = '\'' then some c else none)) rest →
      motive (.code previous) (c :: rest)) :
    ∀ place cs, motive place cs := by
  intro place cs
  induction place, cs using stripFrom.induct with
  | case1 place => exact nil place
  | case2 quote => exact lone quote
  | case3 quote c rest ih => exact escaped quote c rest ih
  | case4 quote c rest hlone hpair ih =>
    have hc : c ≠ '\\' := by
      rintro rfl
      cases rest with
      | nil => exact hlone rfl rfl
      | cons d rest => exact hpair d rest rfl rfl
    refine literal quote c rest hc ?_
    split at ih <;> simp_all [placeIn]
  | case5 rest ih => exact lineEnd rest ih
  | case6 c rest hc ih => exact line c rest hc ih
  | case7 rest ih => exact blockEnd rest ih
  | case8 c rest hclose ih => exact block c rest hclose ih
  | case9 previous rest hopens ih => exact hyphens previous rest hopens ih
  | case10 previous rest hopens ih =>
    -- the second hyphen stands behind the first, which is no blank
    have hsecond : motive (.code (some '-')) ('-' :: rest) :=
      code (some '-') '-' rest (by simp [startsComment, opensComment, isBlank]) ih
    exact code previous '-' ('-' :: rest) (by simpa [startsComment] using hopens) hsecond
  | case11 previous rest ih => exact slashes previous rest ih
  | case12 previous rest ih => exact slashStar previous rest ih
  | case13 previous c rest hhyphens hslashes hstar ih =>
    refine code previous c rest ?_ ?_
    · cases rest with
      | nil => simp [startsComment]
      | cons d rest => simp [startsComment]; grind
    · split at ih <;> simp_all [placeIn]

end Steps

/-- Stripping leaves what the segments leave. -/
theorem stripFrom_eq_filterMap (place : Place) (cs : List Char) :
    stripFrom place cs = (segmentsFrom place cs).filterMap Segment.left? := by
  induction place, cs using stripping_induction with
  | nil place => simp [stripFrom, segmentsFrom]
  | lone quote => simp [stripFrom, segmentsFrom, Segment.left?]
  | escaped quote c rest ih => simp [stripFrom, segmentsFrom, Segment.left?, ih]
  | literal quote c rest hc ih =>
    rw [stripFrom_literal hc, segmentsFrom_literal hc, ih]
    rfl
  | lineEnd rest ih => simp [stripFrom, segmentsFrom, Segment.left?, ih]
  | line c rest hc ih => simp [stripFrom, segmentsFrom, hc, ih]
  | blockEnd rest ih => simp [stripFrom, segmentsFrom, ih]
  | block c rest hc ih => rw [stripFrom_block hc, segmentsFrom_block hc, ih]
  | hyphens previous rest hopens ih =>
    rw [segmentsFrom_hyphens hopens, stripFrom, if_pos hopens, ih]
    rfl
  | slashes previous rest ih =>
    rw [segmentsFrom_slashes, stripFrom, ih]
    rfl
  | slashStar previous rest ih =>
    rw [segmentsFrom_slashStar, stripFrom, ih]
    rfl
  | code previous c rest hstart ih =>
    rw [stripFrom_cons hstart, segmentsFrom_cons hstart, ih]
    rfl

/-! ## Comments that are found late

The second stripping reads what the first has left. The two are side by side in the same place,
but behind a block comment: there the second has a space in front of it. -/

/-- Two hyphens right behind a block comment. -/
def lateComment : List Segment :=
  [.blockComment, .kept '-', .kept '-']

/-- The place in which the second stripping is where the first is in the given one. -/
def resumed (previous : Option Char) : Place → Place
  | .code previous' => .code previous'
  | .literal quote => .literal quote
  | .lineComment => .code previous
  | .blockComment => .code (some ' ')

/-- The comment in which a place stands, if it leaves a space. -/
def opening : Place → List Segment
  | .blockComment => [.blockComment]
  | _ => []

section Late

variable {previous previous' : Option Char} {c : Char} {cs rest out : List Char}
  {found : List Segment}

theorem exists_of_startsComment (h : startsComment previous c rest.head?) :
    (∃ more, c = '-' ∧ rest = '-' :: more ∧ opensComment previous) ∨
      ∃ d more, c = '/' ∧ rest = d :: more ∧ (d = '/' ∨ d = '*') := by
  cases rest with
  | nil => simp [startsComment] at h
  | cons d more =>
    simp only [startsComment, List.head?_cons, Option.some_beq_some, Bool.or_eq_true,
      Bool.and_eq_true, beq_iff_eq] at h
    rcases h with ⟨⟨rfl, rfl⟩, hopens⟩ | ⟨rfl, hd⟩
    · exact .inl ⟨more, rfl, rfl, hopens⟩
    · exact .inr ⟨d, more, rfl, rfl, hd⟩

/-- A comment to the end of the line leaves nothing in front of the end. -/
theorem eq_of_stripFrom_line (h : stripFrom .lineComment cs = c :: out) : c = '\n' := by
  induction cs with
  | nil => simp [stripFrom] at h
  | cons d cs ih =>
    rw [stripFrom] at h
    split at h
    · rename_i hd
      exact (List.cons.inj h).1.symm.trans hd
    · exact ih h

/-- A character in front of what is left that no comment has left stands in front of the text. -/
theorem eq_cons_of_stripFrom (h : stripFrom (.code previous) cs = c :: out) (hspace : c ≠ ' ')
    (hbreak : c ≠ '\n') : ∃ rest, cs = c :: rest ∧ startsComment previous c rest.head? = false := by
  cases cs with
  | nil => simp [stripFrom] at h
  | cons d rest =>
    cases hstart : startsComment previous d rest.head? with
    | false =>
      rw [stripFrom_cons hstart] at h
      obtain ⟨rfl, -⟩ := List.cons.inj h
      exact ⟨rest, rfl, hstart⟩
    | true =>
      rcases exists_of_startsComment hstart with ⟨more, rfl, rfl, hopens⟩ |
        ⟨e, more, rfl, rfl, rfl | rfl⟩
      · rw [stripFrom, if_pos hopens] at h
        exact absurd (eq_of_stripFrom_line h) hbreak
      · rw [stripFrom] at h
        exact absurd (eq_of_stripFrom_line h) hbreak
      · rw [stripFrom] at h
        exact absurd (List.cons.inj h).1.symm hspace

/-- What follows a character that opens no comment is stripped to something behind which it opens
none either. -/
theorem startsComment_stripFrom (h : startsComment previous c rest.head? = false) :
    startsComment previous c
      (stripFrom (placeIn (some c) (if c = '"' || c = '\'' then some c else none)) rest).head? =
        false := by
  by_contra hstart
  rcases exists_of_startsComment (eq_true_of_ne_false hstart) with ⟨more, rfl, hout, hopens⟩ |
    ⟨d, more, rfl, hout, hd⟩
  · obtain ⟨behind, rfl, -⟩ := eq_cons_of_stripFrom hout (by decide) (by decide)
    simp [startsComment, hopens] at h
  · have hplain : d ≠ ' ' ∧ d ≠ '\n' := by rcases hd with rfl | rfl <;> decide
    obtain ⟨behind, rfl, -⟩ := eq_cons_of_stripFrom hout hplain.1 hplain.2
    simp [startsComment] at h
    simp [h] at hd

theorem hyphens_prefix_iff :
    [.kept '-', .kept '-'] <+: segmentsFrom (.code previous) cs ↔
      ['-', '-'] <+: stripFrom (.code previous) cs := by
  constructor
  · rintro ⟨found, hfound⟩
    rw [stripFrom_eq_filterMap, ← hfound]
    exact ⟨found.filterMap Segment.left?, rfl⟩
  · rintro ⟨out, hout⟩
    obtain ⟨rest, rfl, hstart⟩ := eq_cons_of_stripFrom hout.symm (by decide) (by decide)
    rw [stripFrom_cons hstart] at hout
    have hnext : stripFrom (.code (some '-')) rest = '-' :: out := (List.cons.inj hout).2.symm
    obtain ⟨rest, rfl, hstart'⟩ := eq_cons_of_stripFrom hnext (by decide) (by decide)
    refine ⟨segmentsFrom (.code (some '-')) rest, ?_⟩
    rw [segmentsFrom_cons hstart]
    exact congrArg (_ :: ·) (segmentsFrom_cons hstart').symm

/-- Only two hyphens are read by the character in front of them. -/
theorem stripFrom_previous_of_not_hyphens (h : ¬['-', '-'] <+: cs) :
    stripFrom (.code previous) cs = stripFrom (.code previous') cs := by
  rw [stripFrom.eq_def, stripFrom.eq_def (.code previous')]
  split <;> simp_all

theorem lateComment_infix_kept :
    lateComment <:+: .kept c :: found ↔ lateComment <:+: found := by
  rw [List.infix_cons_iff, lateComment]
  simp

theorem lateComment_infix_line :
    lateComment <:+: .lineComment :: found ↔ lateComment <:+: found := by
  rw [List.infix_cons_iff, lateComment]
  simp

theorem stripFrom_ne_of_hyphens (hopens : opensComment previous) (h : ['-', '-'] <+: cs) :
    stripFrom (.code previous) cs ≠ cs := by
  obtain ⟨rest, rfl⟩ := h
  exact stripFrom_ne_of_startsComment (by simp [startsComment, hopens])

@[simp] theorem resumed_placeIn (quote? : Option Char) :
    resumed previous' (placeIn previous quote?) = placeIn previous quote? := by
  cases quote? <;> rfl

@[simp] theorem opening_placeIn (quote? : Option Char) :
    opening (placeIn previous quote?) = [] := by
  cases quote? <;> rfl

/-- What is left is left once more unless a comment is found late. -/
theorem stripFrom_resumed_iff (previous : Option Char) (place : Place) (cs : List Char) :
    stripFrom (resumed previous place) (stripFrom place cs) = stripFrom place cs ↔
      ¬lateComment <:+: opening place ++ segmentsFrom place cs := by
  induction place, cs using stripping_induction generalizing previous with
  | nil place =>
    have hlate : ¬lateComment <:+: opening place := by
      intro h
      have hlength := h.length_le
      cases place <;> simp [lateComment, opening] at hlength
    simpa [stripFrom, segmentsFrom] using hlate
  | lone quote =>
    have hlate : ¬lateComment <:+: [.kept '\\'] := by decide
    simpa [stripFrom, segmentsFrom, opening, resumed] using hlate
  | escaped quote c rest ih =>
    simp only [resumed, opening, List.nil_append] at ih ⊢
    simpa [stripFrom, segmentsFrom, lateComment_infix_kept] using ih none
  | literal quote c rest hc ih =>
    have hrest := ih none
    rw [resumed_placeIn, opening_placeIn, List.nil_append] at hrest
    simp only [resumed, opening, List.nil_append]
    rw [stripFrom_literal hc, stripFrom_literal hc, segmentsFrom_literal hc,
      lateComment_infix_kept, List.cons_inj_right]
    exact hrest
  | lineEnd rest ih =>
    have hbreak : ∀ out, stripFrom (.code previous) ('\n' :: out) =
        '\n' :: stripFrom (.code (some '\n')) out :=
      fun out => stripFrom_cons (by simp [startsComment])
    simp only [resumed, opening, List.nil_append] at ih ⊢
    simpa [stripFrom, segmentsFrom, lateComment_infix_kept, hbreak] using ih none
  | line c rest hc ih =>
    simp only [resumed, opening, List.nil_append] at ih ⊢
    simpa [stripFrom, segmentsFrom, hc] using ih previous
  | blockEnd rest ih =>
    have hrest := ih none
    simp only [resumed, opening, List.nil_append] at hrest ⊢
    rw [stripFrom, segmentsFrom, List.singleton_append, List.infix_cons_iff, lateComment,
      List.cons_prefix_cons, hyphens_prefix_iff]
    by_cases hhyphens : ['-', '-'] <+: stripFrom (.code (some '/')) rest
    · have hopens : opensComment (some ' ') := rfl
      have hne := stripFrom_ne_of_hyphens hopens hhyphens
      simp [hne, hhyphens]
    · rw [stripFrom_previous_of_not_hyphens hhyphens, hrest]
      simp [hhyphens, lateComment]
  | block c rest hc ih =>
    rw [stripFrom_block hc, segmentsFrom_block hc]
    exact ih previous
  | hyphens previous' rest hopens ih =>
    have hrest := ih previous'
    simp only [resumed, opening, List.nil_append] at hrest ⊢
    rw [segmentsFrom_hyphens hopens, stripFrom, if_pos hopens, lateComment_infix_line]
    exact hrest
  | slashes previous' rest ih =>
    have hrest := ih previous'
    simp only [resumed, opening, List.nil_append] at hrest ⊢
    rw [segmentsFrom_slashes, stripFrom, lateComment_infix_line]
    exact hrest
  | slashStar previous' rest ih =>
    have hspace : ∀ out, stripFrom (.code previous') (' ' :: out) =
        ' ' :: stripFrom (.code (some ' ')) out :=
      fun out => stripFrom_cons (by simp [startsComment])
    rw [segmentsFrom_slashStar, stripFrom, resumed, hspace, List.cons_inj_right]
    exact ih previous
  | code previous' c rest hstart ih =>
    have hrest := ih none
    rw [resumed_placeIn, opening_placeIn, List.nil_append] at hrest
    simp only [resumed, opening, List.nil_append]
    rw [stripFrom_cons hstart, segmentsFrom_cons hstart, lateComment_infix_kept,
      stripFrom_cons (startsComment_stripFrom hstart), List.cons_inj_right]
    exact hrest

end Late

/-! ## Blanks at the ends

Blanks at the ends of what is left open no comment and belong to no placeholder, so that it does not
matter that they go. -/

section Ends

variable {c : Char} {cs blanks part : List Char}

theorem not_mem_of_isBlank (h : isBlank c) : c ∉ ['-', '/', '*', '\\'] := by
  intro hmem
  simp only [List.mem_cons, List.not_mem_nil, or_false] at hmem
  rcases hmem with rfl | rfl | rfl | rfl <;> cases h

theorem startsComment_append_blanks (hblanks : ∀ b ∈ blanks, isBlank b) (previous : Option Char) :
    startsComment previous c (cs ++ blanks).head? = startsComment previous c cs.head? := by
  cases cs with
  | cons d cs => rfl
  | nil =>
    cases blanks with
    | nil => rfl
    | cons b blanks =>
      have hb := not_mem_of_isBlank (hblanks b List.mem_cons_self)
      simp only [List.mem_cons, List.not_mem_nil, or_false, not_or] at hb
      simp [startsComment, hb]

theorem stripFrom_blanks (hblanks : ∀ b ∈ blanks, isBlank b) (previous quote? : Option Char) :
    stripFrom (placeIn previous quote?) blanks = blanks := by
  induction blanks generalizing previous quote? with
  | nil => simp [stripFrom]
  | cons b blanks ih =>
    have hb := not_mem_of_isBlank (hblanks b List.mem_cons_self)
    simp only [List.mem_cons, List.not_mem_nil, or_false, not_or] at hb
    have hrest := ih fun b' hb' => hblanks b' (List.mem_cons_of_mem b hb')
    cases quote? with
    | none => rw [placeIn, stripFrom_cons (by simp [startsComment, hb]), hrest]
    | some quote => rw [placeIn, stripFrom_literal hb.2.2.2, hrest]

/-- Nothing is left out of a text exactly if nothing is of the text with blanks behind it. -/
theorem stripFrom_append_blanks_iff (hblanks : ∀ b ∈ blanks, isBlank b) (place : Place)
    (hplace : ∃ previous quote?, place = placeIn previous quote?) :
    stripFrom place (cs ++ blanks) = cs ++ blanks ↔ stripFrom place cs = cs := by
  induction place, cs using stripping_induction with
  | nil place =>
    obtain ⟨previous, quote?, rfl⟩ := hplace
    simp [stripFrom, stripFrom_blanks hblanks]
  | lone quote =>
    cases blanks with
    | nil => simp
    | cons b blanks =>
      have hrest := stripFrom_blanks (fun b' hb' => hblanks b' (List.mem_cons_of_mem b hb')) none
        (some quote)
      rw [placeIn] at hrest
      simp [stripFrom, hrest]
  | escaped quote c rest ih => simpa [stripFrom] using ih hplace
  | literal quote c rest hc ih =>
    rw [List.cons_append, stripFrom_literal hc, stripFrom_literal hc, List.cons_inj_right,
      List.cons_inj_right]
    exact ih ⟨_, _, rfl⟩
  | lineEnd | line | blockEnd | block =>
    obtain ⟨previous, - | quote, hplace⟩ := hplace <;> cases hplace
  | hyphens previous rest hopens ih =>
    have hne : ∀ rest, stripFrom (.code previous) ('-' :: '-' :: rest) ≠ '-' :: '-' :: rest :=
      fun rest => stripFrom_ne_of_startsComment (by simp [startsComment, hopens])
    exact iff_of_false (hne _) (hne _)
  | slashes previous rest ih =>
    have hne : ∀ rest, stripFrom (.code previous) ('/' :: '/' :: rest) ≠ '/' :: '/' :: rest :=
      fun rest => stripFrom_ne_of_startsComment (by simp [startsComment])
    exact iff_of_false (hne _) (hne _)
  | slashStar previous rest ih =>
    have hne : ∀ rest, stripFrom (.code previous) ('/' :: '*' :: rest) ≠ '/' :: '*' :: rest :=
      fun rest => stripFrom_ne_of_startsComment (by simp [startsComment])
    exact iff_of_false (hne _) (hne _)
  | code previous c rest hstart ih =>
    have hstart' := (startsComment_append_blanks hblanks previous).trans hstart
    rw [List.cons_append, stripFrom_cons hstart, stripFrom_cons hstart', List.cons_inj_right,
      List.cons_inj_right]
    exact ih ⟨_, _, rfl⟩

theorem stripComments_dropWhile_iff :
    stripComments (cs.dropWhile isBlank) = cs.dropWhile isBlank ↔ stripComments cs = cs := by
  induction cs with
  | nil => rfl
  | cons c cs ih =>
    by_cases hc : isBlank c
    · have hb := not_mem_of_isBlank hc
      simp only [List.mem_cons, List.not_mem_nil, or_false, not_or] at hb
      have hquotes : c ≠ '"' ∧ c ≠ '\'' := by
        constructor <;> rintro rfl <;> cases hc
      have hstrip : stripComments (c :: cs) = c :: stripComments cs := by
        rw [stripComments, stripFrom_code none hquotes (fun h => absurd h hb.1)
          (fun h => absurd h hb.2.1), stripComments]
        exact congrArg (c :: ·) (stripFrom_previous (by simp [opensComment, hc]) cs)
      rw [List.dropWhile_cons_of_pos hc, ih, hstrip, List.cons_inj_right]
    · rw [List.dropWhile_cons_of_neg hc]

theorem exists_trimEnd_append (cs : List Char) :
    ∃ blanks, cs = trimEnd cs ++ blanks ∧ ∀ b ∈ blanks, isBlank b := by
  refine ⟨(cs.reverse.takeWhile isBlank).reverse, ?_, fun b hb => ?_⟩
  · rw [trimEnd, ← List.reverse_append, List.takeWhile_append_dropWhile, List.reverse_reverse]
  · exact List.mem_takeWhile_imp (List.mem_reverse.mp hb)

/-- Trimming neither hides a comment nor makes one. -/
theorem stripComments_trim_iff : stripComments (trim cs) = trim cs ↔ stripComments cs = cs := by
  obtain ⟨blanks, hsplit, hblanks⟩ := exists_trimEnd_append (cs.dropWhile isBlank)
  have hend : stripComments (trim cs ++ blanks) = trim cs ++ blanks ↔
      stripComments (trim cs) = trim cs :=
    stripFrom_append_blanks_iff hblanks (.code none) ⟨none, none, rfl⟩
  rw [trim, ← hsplit] at hend
  exact hend.symm.trans stripComments_dropWhile_iff

theorem infix_dropWhile_iff (hhead : ∃ c ∈ part.head?, isBlank c = false) :
    part <:+: cs.dropWhile isBlank ↔ part <:+: cs := by
  induction cs with
  | nil => rfl
  | cons c cs ih =>
    by_cases hc : isBlank c
    · rw [List.dropWhile_cons_of_pos hc, ih, List.infix_cons_iff]
      refine (or_iff_right ?_).symm
      obtain ⟨d, hd, hblank⟩ := hhead
      obtain ⟨rest, rfl⟩ := List.head?_eq_some_iff.mp hd
      intro hbegins
      obtain ⟨rfl, -⟩ := List.cons_prefix_cons.mp hbegins
      simp [hc] at hblank
    · rw [List.dropWhile_cons_of_neg hc]

theorem occurs_trim (cs : List Char) : occurs placeholder (trim cs) = occurs placeholder cs := by
  have hlast : ∃ c ∈ placeholder.reverse.head?, isBlank c = false := ⟨'e', by decide, by decide⟩
  rw [Bool.eq_iff_iff, occurs_iff_isInfix, occurs_iff_isInfix, trim, trimEnd, ← List.reverse_infix,
    List.reverse_reverse, infix_dropWhile_iff hlast, List.reverse_infix]
  exact infix_dropWhile_iff ⟨'W', by decide, by decide⟩

theorem trim_trim (cs : List Char) : trim (trim cs) = trim cs := by
  refine trim_eq (fun c hc => ?_) (fun c hc => ?_)
  · obtain ⟨rest, hrest⟩ := List.head?_eq_some_iff.mp hc
    obtain ⟨behind, hbehind⟩ := trimEnd_isPrefix (cs.dropWhile isBlank)
    have hfirst := List.head?_dropWhile_not isBlank cs
    rw [← hbehind, ← trim, hrest] at hfirst
    exact hfirst
  · obtain ⟨hne, rfl⟩ := List.mem_getLast?_eq_getLast hc
    exact eq_false_of_ne_true (List.rdropWhile_last_not isBlank _ hne)

end Ends

/-! ## The placeholder

Dropping the lines with the placeholder brings no new one about. Where comments go, the text in
front of one and the text behind it may make one, with the space of a block comment in it. -/

section Placeholder

variable {part cs text : List Char} {run : List Segment} {place : Place}

/-- Only the last line has no line feed at its end. -/
theorem pairwise_lines (cs : List Char) :
    (lines cs).Pairwise fun line _ => line.getLast? = some '\n' := by
  induction cs with
  | nil => exact .nil
  | cons c cs ih =>
    rw [lines]
    split
    · rename_i hc
      exact .cons (fun _ _ => by simp [hc]) ih
    · cases hlines : lines cs with
      | nil => exact List.pairwise_singleton _ _
      | cons line more =>
        rw [hlines] at ih
        obtain ⟨hline, hmore⟩ := List.pairwise_cons.mp ih
        refine .cons (fun next hnext => ?_) hmore
        rw [List.getLast?_cons, hline next hnext, Option.getD_some]

theorem exists_line_of_infix_flatten {texts : List (List Char)}
    (htexts : texts.Pairwise fun line _ => line.getLast? = some '\n') (hpart : part ≠ [])
    (hbreak : '\n' ∉ part) (h : part <:+: texts.flatten) : ∃ line ∈ texts, part <:+: line := by
  induction texts with
  | nil => exact absurd (List.infix_nil.mp h) hpart
  | cons line more ih =>
    obtain ⟨hline, hmore⟩ := List.pairwise_cons.mp htexts
    cases more with
    | nil => exact ⟨line, List.mem_cons_self, by simpa using h⟩
    | cons next more =>
      obtain ⟨front, hfront⟩ := List.getLast?_eq_some_iff.mp (hline next List.mem_cons_self)
      rw [List.flatten_cons, hfront, List.append_assoc, List.singleton_append] at h
      rcases infix_or_infix hbreak h with hinfix | hinfix
      · refine ⟨line, List.mem_cons_self, hinfix.trans ?_⟩
        exact hfront ▸ (List.prefix_append front ['\n']).isInfix
      · obtain ⟨found, hfound, hinfix⟩ := ih hmore hinfix
        exact ⟨found, List.mem_cons_of_mem line hfound, hinfix⟩

theorem occurs_dropPlaceholder (cs : List Char) :
    occurs placeholder (dropPlaceholder cs) = false := by
  by_contra hoccurs
  have hinfix : placeholder <:+: dropPlaceholder cs :=
    occurs_iff_isInfix.mp (by simpa using hoccurs)
  have hlines := (pairwise_lines cs).filter fun line => !occurs placeholder line
  obtain ⟨line, hmem, hline⟩ :=
    exists_line_of_infix_flatten hlines (by decide) (by decide) hinfix
  have hkept := (List.mem_filter.mp hmem).2
  rw [occurs_iff_isInfix.mpr hline] at hkept
  cases hkept

/-- How a text stands in what follows a place, if it is left of a run that starts there and has no
block comment. -/
def StandsIn : Place → List Char → List Char → Prop
  | .code _, text, cs | .literal _, text, cs => text <+: cs
  | .lineComment, text, _ => text = []
  | .blockComment, text, cs => text <:+: cs

theorem StandsIn.isInfix (h : StandsIn place text cs) : text <:+: cs := by
  cases place with
  | code | literal => exact List.IsPrefix.isInfix h
  | lineComment =>
    obtain rfl : text = [] := h
    exact List.nil_infix
  | blockComment => exact h

theorem standsIn_nil (place : Place) (cs : List Char) : StandsIn place [] cs := by
  cases place with
  | code | literal => exact List.nil_prefix
  | lineComment => rfl
  | blockComment => exact List.nil_infix

theorem StandsIn.cons {c : Char} {previous quote? : Option Char}
    (h : StandsIn (placeIn previous quote?) text cs) : c :: text <+: c :: cs := by
  refine List.cons_prefix_cons.mpr ⟨rfl, ?_⟩
  cases quote? <;> exact h

/-- The segments have no block comment, and leave no line feed. -/
structure Inline (run : List Segment) : Prop where
  unblocked : .blockComment ∉ run
  unbroken : '\n' ∉ run.filterMap Segment.left?

theorem Inline.tail {segment : Segment} (h : Inline (segment :: run)) : Inline run := by
  refine ⟨fun hmem => h.unblocked (List.mem_cons_of_mem segment hmem), fun hmem => h.unbroken ?_⟩
  rw [List.filterMap_cons]
  split
  · exact hmem
  · exact List.mem_cons_of_mem _ hmem

/-- A run at the start of segments is empty or takes the first of them. -/
theorem Inline.prefix_cons {segment : Segment} {found : List Segment} (h : Inline run)
    (hbegins : run <+: segment :: found) :
    run = [] ∨ ∃ rest, run = segment :: rest ∧ rest <+: found ∧ Inline rest := by
  rcases List.prefix_cons_iff.mp hbegins with rfl | ⟨rest, rfl, hrest⟩
  · exact .inl rfl
  · exact .inr ⟨rest, rfl, hrest, h.tail⟩

/-- What a run leaves is a part of the text, if it has no block comment and leaves no line feed. -/
theorem standsIn_of_isPrefix (hrun : Inline run) (h : run <+: segmentsFrom place cs) :
    StandsIn place (run.filterMap Segment.left?) cs := by
  induction place, cs using stripping_induction generalizing run with
  | nil place =>
    obtain rfl : run = [] := List.prefix_nil.mp (by simpa [segmentsFrom] using h)
    exact standsIn_nil place []
  | lone quote =>
    rcases hrun.prefix_cons h with rfl | ⟨rest, rfl, hrest, -⟩
    · exact standsIn_nil _ _
    · obtain rfl : rest = [] := List.prefix_nil.mp (by simpa [placeIn, segmentsFrom] using hrest)
      exact List.prefix_refl _
  | escaped quote c rest ih =>
    rw [segmentsFrom] at h
    rcases hrun.prefix_cons h with rfl | ⟨run, rfl, h, hrun⟩
    · exact standsIn_nil _ _
    rcases hrun.prefix_cons h with rfl | ⟨run, rfl, h, hrun⟩
    · exact List.cons_prefix_cons.mpr ⟨rfl, List.nil_prefix⟩
    · have hrest : _ <+: rest := ih hrun h
      exact List.cons_prefix_cons.mpr ⟨rfl, List.cons_prefix_cons.mpr ⟨rfl, hrest⟩⟩
  | literal quote c rest hc ih =>
    rw [segmentsFrom_literal hc] at h
    rcases hrun.prefix_cons h with rfl | ⟨run, rfl, h, hrun⟩
    · exact standsIn_nil _ _
    · exact (ih hrun h).cons
  | lineEnd rest ih =>
    rw [segmentsFrom, if_pos rfl] at h
    rcases hrun.prefix_cons h with rfl | ⟨run, rfl, -, -⟩
    · rfl
    · exact absurd (by simp [Segment.left?]) hrun.unbroken
  | line c rest hc ih =>
    rw [segmentsFrom, if_neg hc] at h
    exact ih hrun h
  | blockEnd rest ih =>
    have hrest : _ <+: rest := ih hrun h
    exact hrest.isInfix.trans (List.suffix_append ['*', '/'] rest).isInfix
  | block c rest hc ih =>
    rw [segmentsFrom_block hc] at h
    exact List.infix_cons (ih hrun h)
  | hyphens previous rest hopens ih =>
    rw [segmentsFrom_hyphens hopens] at h
    rcases hrun.prefix_cons h with rfl | ⟨run, rfl, h, hrun⟩
    · exact standsIn_nil _ _
    · have hrest : run.filterMap Segment.left? = [] := ih hrun h
      exact hrest ▸ List.nil_prefix
  | slashes previous rest ih =>
    rcases hrun.prefix_cons h with rfl | ⟨run, rfl, h, hrun⟩
    · exact standsIn_nil _ _
    · have hrest : run.filterMap Segment.left? = [] := ih hrun h
      exact hrest ▸ List.nil_prefix
  | slashStar previous rest ih =>
    rcases hrun.prefix_cons h with rfl | ⟨run, rfl, -, -⟩
    · exact standsIn_nil _ _
    · exact absurd List.mem_cons_self hrun.unblocked
  | code previous c rest hstart ih =>
    rw [segmentsFrom_cons hstart] at h
    rcases hrun.prefix_cons h with rfl | ⟨run, rfl, h, hrun⟩
    · exact standsIn_nil _ _
    · exact (ih hrun h).cons

theorem infix_of_infix_cons {segment : Segment} {found : List Segment} {rest : List Char}
    (hrun : Inline run) (hfound : segmentsFrom place cs = segment :: found)
    (h : run <:+: segmentsFrom place cs) (hrest : rest <:+ cs)
    (htail : run <:+: found → run.filterMap Segment.left? <:+: rest) :
    run.filterMap Segment.left? <:+: cs := by
  rcases List.infix_cons_iff.mp (hfound ▸ h) with hbegins | hinfix
  · exact (standsIn_of_isPrefix hrun (hfound ▸ hbegins)).isInfix
  · exact (htail hinfix).trans hrest.isInfix

/-- The same for a run anywhere among the segments. -/
theorem infix_of_inline (hrun : Inline run) (h : run <:+: segmentsFrom place cs) :
    run.filterMap Segment.left? <:+: cs := by
  have hnil : run <:+: [] → run.filterMap Segment.left? <:+: [] := by
    rintro hempty
    obtain rfl : run = [] := List.infix_nil.mp hempty
    exact List.nil_infix
  induction place, cs using stripping_induction with
  | nil place => exact hnil (by simpa [segmentsFrom] using h)
  | lone quote =>
    exact infix_of_infix_cons hrun rfl h List.nil_suffix hnil
  | escaped quote c rest ih =>
    refine infix_of_infix_cons hrun (segmentsFrom_escaped quote c rest) h
      (List.suffix_cons '\\' (c :: rest)) fun h => ?_
    rcases List.infix_cons_iff.mp h with hbegins | h
    · rcases hrun.prefix_cons hbegins with rfl | ⟨run, rfl, hbegins, hrun⟩
      · exact List.nil_infix
      · have hstands : StandsIn (placeIn none (some quote)) _ _ := standsIn_of_isPrefix hrun hbegins
        exact hstands.cons.isInfix
    · exact List.infix_cons (ih h)
  | literal quote c rest hc ih =>
    exact infix_of_infix_cons hrun (segmentsFrom_literal hc) h (List.suffix_cons c rest) ih
  | lineEnd rest ih =>
    exact infix_of_infix_cons hrun rfl h (List.suffix_cons '\n' rest) ih
  | line c rest hc ih =>
    rw [segmentsFrom, if_neg hc] at h
    exact List.infix_cons (ih h)
  | blockEnd rest ih => exact (ih h).trans (List.suffix_append ['*', '/'] rest).isInfix
  | block c rest hc ih =>
    rw [segmentsFrom_block hc] at h
    exact List.infix_cons (ih h)
  | hyphens previous rest hopens ih =>
    exact infix_of_infix_cons hrun (segmentsFrom_hyphens hopens) h
      (List.suffix_append ['-', '-'] rest) ih
  | slashes previous rest ih =>
    exact infix_of_infix_cons hrun rfl h (List.suffix_append ['/', '/'] rest) ih
  | slashStar previous rest ih =>
    exact infix_of_infix_cons hrun rfl h (List.suffix_append ['/', '*'] rest) ih
  | code previous c rest hstart ih =>
    exact infix_of_infix_cons hrun (segmentsFrom_cons hstart) h (List.suffix_cons c rest) ih

/-- Segments that leave the placeholder, with a block comment among them. -/
def VeilsPlaceholder (found : List Segment) : Prop :=
  ∃ run, run <:+: found ∧ .blockComment ∈ run ∧ run.filterMap Segment.left? = placeholder

/-- Where no placeholder is, stripping makes one only around a block comment. -/
theorem occurs_stripComments_iff (h : occurs placeholder cs = false) :
    occurs placeholder (stripComments cs) ↔ VeilsPlaceholder (segments cs) := by
  rw [occurs_iff_isInfix, stripComments, stripFrom_eq_filterMap]
  constructor
  · rintro ⟨front, behind, hsplit⟩
    obtain ⟨before, after, hbefore, hmiddle, -⟩ := List.filterMap_eq_append_iff.mp hsplit.symm
    obtain ⟨start, run, hrun, -, hleft⟩ := List.filterMap_eq_append_iff.mp hmiddle
    have hinfix : run <:+: segments cs := ⟨start, after, by rw [segments, hbefore, hrun]⟩
    refine ⟨run, hinfix, ?_, hleft⟩
    by_contra hblock
    have hbreak : '\n' ∉ run.filterMap Segment.left? := hleft ▸ by decide
    have hplaceholder := infix_of_inline ⟨hblock, hbreak⟩ hinfix
    rw [hleft] at hplaceholder
    simp [occurs_iff_isInfix.mpr hplaceholder] at h
  · rintro ⟨run, hinfix, -, hleft⟩
    have hplaceholder := hinfix.filterMap Segment.left?
    rwa [hleft] at hplaceholder

end Placeholder

/-! ## Two cleanings -/

/-- A cleaned text is clean exactly if, in the lines without the placeholder, no two hyphens stand
right behind a block comment and no block comment stands in a placeholder. -/
theorem clean_clean_iff (text : List Char) :
    clean (clean text) = clean text ↔
      ¬lateComment <:+: segments (dropPlaceholder text) ∧
        ¬VeilsPlaceholder (segments (dropPlaceholder text)) := by
  have hlate := stripFrom_resumed_iff none (.code none) (dropPlaceholder text)
  have hveils := occurs_stripComments_iff (occurs_dropPlaceholder text)
  rw [clean_eq_iff, clean, occurs_trim, stripComments_trim_iff, ← hveils, Bool.not_eq_true]
  simp only [trim_trim, and_true]
  rw [and_comm, and_congr_left_iff]
  exact fun _ => hlate

/-- A block comment leaves a space in front of hyphens, or in the middle of a placeholder. -/
theorem not_clean_clean_behindBlocks :
    clean (clean "T /* a */-- b".toList) ≠ clean "T /* a */-- b".toList ∧
      clean (clean "Write your/**/KQL query here".toList) ≠
        clean "Write your/**/KQL query here".toList := by
  decide

end PipeSql.Query
