import PipeSql.Proofs.Query.Clean
import PipeSql.Proofs.Query.Scan
import PipeSql.Query.Split

/-! # Escaped literals

A text between quotes, with a backslash in front of each quote and each backslash in it. Whatever
it holds, it passes the cleaning and the splitting of a query as it is, and is scanned as one
token. -/

namespace PipeSql.Query

open PipeSql.Text

/-- A text with a backslash in front of each quote and each backslash. -/
def escaped (quote : Char) : List Char → List Char
  | [] => []
  | c :: rest =>
    if c = quote ∨ c = '\\' then '\\' :: c :: escaped quote rest else c :: escaped quote rest

/-- A literal that stands for a text. -/
def literal (quote : Char) (s : String) : String :=
  String.ofList (quote :: (escaped quote s.toList ++ [quote]))

variable {quote : Char}

/-! ## Three readings

Each induction follows the text, two characters at a time where one is escaped. -/

theorem unescaped_eq {c : Char} (hquote : isQuote quote) (h : c = quote ∨ c = '\\') :
    unescaped c = c := by
  rcases h with rfl | rfl
  · rcases isQuote_iff.mp hquote with rfl | rfl <;> rfl
  · rfl

theorem quoted?_escaped (hquote : isQuote quote) (cs rest : List Char) :
    quoted? quote (escaped quote cs ++ quote :: rest) =
      some (cs, (escaped quote cs).length + 1) := by
  have hslash : quote ≠ '\\' := by
    rintro rfl
    cases hquote
  induction cs with
  | nil => simp [escaped, quoted?, hslash]
  | cons c cs ih =>
    by_cases hc : c = quote ∨ c = '\\'
    · simp [escaped, hc, quoted?, ih, unescaped_eq hquote hc]
    · have hne := not_or.mp hc
      rw [escaped, if_neg hc, List.cons_append, quoted?]
      · simp [hne, ih]
      · exact fun h _ => hne.2 h
      · exact fun d more h => absurd h hne.2

theorem stripFrom_escaped (hquote : isQuote quote) (cs rest : List Char) :
    stripFrom (.literal quote) (escaped quote cs ++ quote :: rest) =
      escaped quote cs ++ quote :: stripFrom (.code (some quote)) rest := by
  have hslash : quote ≠ '\\' := by
    rintro rfl
    cases hquote
  induction cs with
  | nil => simp [escaped, stripFrom, hslash]
  | cons c cs ih =>
    by_cases hc : c = quote ∨ c = '\\'
    · simp [escaped, hc, stripFrom, ih]
    · have hne := not_or.mp hc
      simp [escaped, stripFrom, hne, ih]

theorem prepend_prepend (front cs : List Char) (pieces : List (List Char)) :
    prepend front (prepend cs pieces) = prepend (front ++ cs) pieces := by
  cases pieces <;> simp [prepend]

theorem piecesFrom_escaped (hquote : isQuote quote) (depth : Nat) (cs rest : List Char) :
    piecesFrom (some quote) depth (escaped quote cs ++ quote :: rest) =
      prepend (escaped quote cs ++ [quote]) (piecesFrom none depth rest) := by
  have hslash : quote ≠ '\\' := by
    rintro rfl
    cases hquote
  induction cs with
  | nil => simp [escaped, piecesFrom, hslash]
  | cons c cs ih =>
    by_cases hc : c = quote ∨ c = '\\'
    · simp [escaped, hc, piecesFrom, ih, prepend_prepend]
    · have hne := not_or.mp hc
      simp [escaped, piecesFrom, hne, ih, prepend_prepend]

theorem scans_literal (hquote : isQuote quote) (cs : List Char) :
    Scans Anything (quote :: (escaped quote cs ++ [quote])) [.text (String.ofList cs)] := by
  refine .of_lexeme ?_ fun start rest _ => ?_
  · rcases isQuote_iff.mp hquote with rfl | rfl <;> rfl
  · have hread : quoted? quote (escaped quote cs ++ [quote] ++ rest) =
        some (cs, (escaped quote cs).length + 1) := by
      rw [List.append_assoc, List.singleton_append]
      exact quoted?_escaped hquote cs rest
    unfold lexeme
    rw [if_pos hquote, hread]
    simp

theorem scans_bracketed (hquote : isQuote quote) (cs : List Char) :
    Scans Anything ('[' :: quote :: (escaped quote cs ++ [quote, ']']))
      [.quotedIdent (String.ofList cs)] := by
  refine .of_lexeme rfl fun start rest _ => ?_
  have hread : quoted? quote (escaped quote cs ++ quote :: ']' :: rest) =
      some (cs, (escaped quote cs).length + 1) :=
    quoted?_escaped hquote cs _
  have hbehind : (escaped quote cs ++ quote :: ']' :: rest).drop
      ((escaped quote cs).length + 1) = ']' :: rest := by
    rw [List.drop_append]
    simp
  have htext : quote :: (escaped quote cs ++ [quote, ']']) ++ rest =
      quote :: (escaped quote cs ++ quote :: ']' :: rest) := by
    simp
  rw [htext, lexeme, if_neg (by decide), if_pos rfl, bracketed]
  simp only [hquote, if_true, hread, hbehind]
  simp

/-! ## What occurs in an escaped text

A part without quotes and backslashes stands between the escaped characters. -/

section Parts

variable {part cs : List Char} (hquote : quote ∉ part) (hslash : '\\' ∉ part)

include hquote hslash

theorem eq_nil_of_isPrefix_cons {c : Char} {rest : List Char} (hc : c = quote ∨ c = '\\')
    (h : part <+: c :: rest) : part = [] := by
  cases part with
  | nil => rfl
  | cons d part =>
    obtain ⟨rfl, -⟩ := List.cons_prefix_cons.mp h
    rcases hc with rfl | rfl
    · exact absurd List.mem_cons_self hquote
    · exact absurd List.mem_cons_self hslash

theorem isPrefix_of_escaped (h : part <+: escaped quote cs) : part <+: cs := by
  induction cs generalizing part with
  | nil => exact h
  | cons c cs ih =>
    rw [escaped] at h
    split at h
    · rw [eq_nil_of_isPrefix_cons hquote hslash (.inr rfl) h]
      exact List.nil_prefix
    · cases part with
      | nil => exact List.nil_prefix
      | cons d part =>
        obtain ⟨rfl, hrest⟩ := List.cons_prefix_cons.mp h
        refine List.cons_prefix_cons.mpr ⟨rfl, ih ?_ ?_ hrest⟩
        · exact fun hmem => hquote (List.mem_cons_of_mem _ hmem)
        · exact fun hmem => hslash (List.mem_cons_of_mem _ hmem)

theorem isInfix_of_escaped (h : part <:+: escaped quote cs) : part <:+: cs := by
  induction cs with
  | nil => exact h
  | cons c cs ih =>
    rw [escaped] at h
    split at h
    · rename_i hc
      rcases List.infix_cons_iff.mp h with hprefix | h
      · rw [eq_nil_of_isPrefix_cons hquote hslash (.inr rfl) hprefix]
        exact List.nil_infix
      rcases List.infix_cons_iff.mp h with hprefix | h
      · rw [eq_nil_of_isPrefix_cons hquote hslash hc hprefix]
        exact List.nil_infix
      · exact (ih h).trans (List.infix_cons (List.infix_refl cs))
    · rename_i hc
      rcases List.infix_cons_iff.mp h with hprefix | h
      · have hescaped : part <+: escaped quote (c :: cs) := by
          rwa [escaped, if_neg hc]
        exact (isPrefix_of_escaped hquote hslash hescaped).isInfix
      · exact (ih h).trans (List.infix_cons (List.infix_refl cs))

omit hslash in
theorem infix_or_infix {front behind : List Char} (h : part <:+: front ++ quote :: behind) :
    part <:+: front ∨ part <:+: behind := by
  induction front with
  | nil =>
    rcases List.infix_cons_iff.mp h with hprefix | h
    · cases part with
      | nil => exact .inl List.nil_infix
      | cons d part =>
        obtain ⟨rfl, -⟩ := List.cons_prefix_cons.mp hprefix
        exact absurd List.mem_cons_self hquote
    · exact .inr h
  | cons c front ih =>
    rcases List.infix_cons_iff.mp h with hprefix | h
    · -- the part ends in front of the quote
      rcases List.prefix_or_prefix_of_prefix hprefix (List.prefix_append (c :: front) _) with
        hfront | ⟨more, rfl⟩
      · exact .inl hfront.isInfix
      · cases more with
        | nil => simp
        | cons d more =>
          have hmore := (List.prefix_append_right_inj _).mp hprefix
          obtain ⟨rfl, -⟩ := List.cons_prefix_cons.mp hmore
          simp at hquote
    · exact (ih h).imp_left fun h => h.trans (List.infix_cons (List.infix_refl front))

end Parts

/-- Where the placeholder occurs around a literal or in it, it occurs in the text that the literal
stands for. -/
theorem occurs_literal (hquote : isQuote quote) {front behind : List Char} {s : String}
    (hfront : occurs placeholder front = false) (hbehind : occurs placeholder behind = false)
    (hs : occurs placeholder s.toList = false) :
    occurs placeholder (front ++ quote :: (escaped quote s.toList ++ quote :: behind)) = false := by
  have hplaceholder : quote ∉ placeholder ∧ '\\' ∉ placeholder := by
    rcases isQuote_iff.mp hquote with rfl | rfl <;> decide
  rw [← Bool.not_eq_true, occurs_iff_isInfix] at hfront hbehind hs ⊢
  intro h
  rcases infix_or_infix hplaceholder.1 h with h | h
  · exact hfront h
  rcases infix_or_infix hplaceholder.1 h with h | h
  · exact hs (isInfix_of_escaped hplaceholder.1 hplaceholder.2 h)
  · exact hbehind h

/-! ## Queries around a literal -/

theorem prepend_ne_nil (front : List Char) (pieces : List (List Char)) :
    prepend front pieces ≠ [] := by
  cases pieces <;> simp [prepend]

theorem piecesFrom_ne_nil (quote? : Option Char) (depth : Nat) (cs : List Char) :
    piecesFrom quote? depth cs ≠ [] := by
  rw [piecesFrom.eq_def]
  split
  · simp
  · split
    case h_4 => split <;> simp [prepend_ne_nil]
    all_goals exact prepend_ne_nil _ _

theorem prepend_nil {pieces : List (List Char)} (h : pieces ≠ []) : prepend [] pieces = pieces := by
  cases pieces with
  | nil => exact absurd rfl h
  | cons piece pieces => rfl

theorem piecesFrom_append {front : List Char} (h : ∀ c ∈ front, c ∉ ['|', '(', ')', '"', '\''])
    (depth : Nat) (rest : List Char) :
    piecesFrom none depth (front ++ rest) = prepend front (piecesFrom none depth rest) := by
  induction front with
  | nil => exact (prepend_nil (piecesFrom_ne_nil _ _ _)).symm
  | cons c front ih =>
    have hc := h c List.mem_cons_self
    simp only [List.mem_cons, List.not_mem_nil, or_false, not_or] at hc
    have hfront := ih fun d hd => h d (List.mem_cons_of_mem c hd)
    have hstep : piecesFrom none depth (c :: (front ++ rest)) =
        prepend [c] (piecesFrom none depth (front ++ rest)) := by
      rw [piecesFrom.eq_def]
      simp [hc]
    rw [List.cons_append, hstep, hfront, prepend_prepend]
    rfl

theorem piecesFrom_quote (hquote : isQuote quote) (depth : Nat) (rest : List Char) :
    piecesFrom none depth (quote :: rest) =
      prepend [quote] (piecesFrom (some quote) depth rest) := by
  rcases isQuote_iff.mp hquote with rfl | rfl <;> simp [piecesFrom]

theorem stripFrom_quote (hquote : isQuote quote) (previous : Option Char) (rest : List Char) :
    stripFrom (.code previous) (quote :: rest) = quote :: stripFrom (.literal quote) rest := by
  rcases isQuote_iff.mp hquote with rfl | rfl <;> simp [stripFrom]

/-- A query around a literal is clean where the text in front of the literal and behind it is. -/
theorem clean_literal (hquote : isQuote quote) {front behind : List Char} {s : String}
    (hs : occurs placeholder s.toList = false)
    (hfront : occurs placeholder front = false ∧ (∀ c ∈ front, c ∉ ['"', '\'', '-', '/']) ∧
      ∃ c ∈ front.head?, isBlank c = false)
    (hbehind : occurs placeholder behind = false ∧ (∀ c ∈ behind, c ∉ ['"', '\'', '-', '/']) ∧
      ∀ c ∈ behind.getLast?, isBlank c = false) :
    clean (front ++ quote :: (escaped quote s.toList ++ quote :: behind)) =
      front ++ quote :: (escaped quote s.toList ++ quote :: behind) := by
  have hbehind' : stripFrom (.code (some quote)) behind = behind := by
    have hall := stripFrom_append hbehind.2.1 (some quote) []
    rwa [stripFrom, List.append_nil] at hall
  have hstrip : stripComments (front ++ quote :: (escaped quote s.toList ++ quote :: behind)) =
      front ++ quote :: (escaped quote s.toList ++ quote :: behind) := by
    rw [stripComments, stripFrom_append hfront.2.1, stripFrom_quote hquote,
      stripFrom_escaped hquote, hbehind']
  rw [clean, dropPlaceholder_eq (occurs_literal hquote hfront.1 hbehind.1 hs), hstrip]
  refine trim_eq ?_ ?_
  · obtain ⟨c, hc, hblank⟩ := hfront.2.2
    obtain ⟨rest, rfl⟩ := List.head?_eq_some_iff.mp hc
    intro d hd
    obtain rfl : c = d := by simpa using hd
    exact hblank
  · intro c hc
    have hlast : (quote :: behind).getLast? = some c := by
      simpa [List.getLast?_append, List.getLast?_cons] using hc
    cases behind with
    | nil =>
      obtain rfl : quote = c := by simpa using hlast
      simp only [isQuote, Bool.or_eq_true, beq_iff_eq] at hquote
      rcases hquote with rfl | rfl <;> rfl
    | cons d behind =>
      rw [List.getLast?_cons_cons] at hlast
      exact hbehind.2.2 c hlast

end PipeSql.Query
