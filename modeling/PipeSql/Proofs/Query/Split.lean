import PipeSql.Proofs.Query.Literal

/-! # Stages that are joined and cut again

Nothing of one stage reaches into the next: behind a stage that ends outside literals and
parentheses, cleaning and cutting start afresh. Main statement: clean stages with ` | ` between them
are cut into just these stages. -/

namespace PipeSql.Query

open PipeSql.Text

/-! ## Where a stage ends -/

/-- Where a text ends that starts in the literal opened by `quote?`, if any, and inside `depth`
parentheses: in which literal, and inside how many parentheses. A closing parenthesis that none
opened counts for nothing. A text with a bar that cuts it has no such end. -/
def endOf? (quote? : Option Char) (depth : Nat) : List Char → Option (Option Char × Nat)
  | [] => some (quote?, depth)
  | c :: rest =>
    match quote?, c, rest with
    | some quote, '\\', _ :: rest => endOf? (some quote) depth rest
    | some quote, c, rest => endOf? (if c = quote then none else some quote) depth rest
    | none, '|', '|' :: rest => endOf? none depth rest
    | none, '|', rest => if depth = 0 then none else endOf? none depth rest
    | none, '(', rest => endOf? none (depth + 1) rest
    | none, ')', rest => endOf? none (depth - 1) rest
    | none, c, rest => endOf? (if c = '"' || c = '\'' then some c else none) depth rest

/-- The text of a stage on its own: it is clean, no bar cuts it, and it ends outside literals and
parentheses. -/
structure IsStage (text : List Char) : Prop where
  ne_nil : text ≠ []
  clean_eq : clean text = text
  ends : endOf? none 0 text = some (none, 0)

instance (text : List Char) : Decidable (IsStage text) :=
  decidable_of_iff (text ≠ [] ∧ clean text = text ∧ endOf? none 0 text = some (none, 0))
    ⟨fun h => ⟨h.1, h.2.1, h.2.2⟩, fun h => ⟨h.ne_nil, h.clean_eq, h.ends⟩⟩

/-! ## Cutting -/

section Ends

variable {quote? : Option Char} {depth depth' : Nat} {text rest : List Char}

/-- A text that ends outside the literal it starts in has no lone backslash at its end. -/
theorem ne_backslash_of_ends {quote c : Char} (hquote : isQuote quote)
    (hpair : ∀ d more, c = '\\' → text = d :: more → False)
    (h : endOf? (if c = quote then none else some quote) depth text = some (none, depth')) :
    c ≠ '\\' := by
  rintro rfl
  have hslash : '\\' ≠ quote := by
    rintro rfl
    cases hquote
  cases text with
  | nil => simp [hslash, endOf?] at h
  | cons d more => exact hpair d more rfl rfl

theorem isQuote_of_mem_closed {c quote : Char} (hquote : isQuote quote) :
    ∀ q ∈ if c = quote then none else some quote, isQuote q := by
  split
  · simp
  · simpa using hquote

theorem isQuote_of_mem_opened {c : Char} :
    ∀ q ∈ if c = '"' || c = '\'' then some c else none, isQuote q := by
  split
  · rename_i hc
    simpa [isQuote] using hc
  · simp

theorem piecesFrom_literal {quote c : Char} (hc : c ≠ '\\') :
    piecesFrom (some quote) depth (c :: rest) =
      prepend [c] (piecesFrom (if c = quote then none else some quote) depth rest) := by
  rw [piecesFrom.eq_def]
  simp [hc]

theorem piecesFrom_code {c : Char} (hc : c ∉ ['|', '(', ')']) :
    piecesFrom none depth (c :: rest) =
      prepend [c] (piecesFrom (if c = '"' || c = '\'' then some c else none) depth rest) := by
  simp only [List.mem_cons, List.not_mem_nil, or_false, not_or] at hc
  rw [piecesFrom.eq_def]
  simp [hc]

theorem piecesFrom_bar (h : rest.head? ≠ some '|') :
    piecesFrom none depth ('|' :: rest) =
      if depth = 0 then [] :: piecesFrom none depth rest
      else prepend ['|'] (piecesFrom none depth rest) := by
  rw [piecesFrom.eq_def]
  cases rest with
  | nil => rfl
  | cons c rest =>
    have hc : c ≠ '|' := by simpa using h
    simp [hc]

theorem head?_append_ne {c : Char} (htext : ∀ more, text = c :: more → False)
    (hrest : rest.head? ≠ some c) : (text ++ rest).head? ≠ some c := by
  cases text with
  | nil => exact hrest
  | cons d more =>
    rintro h
    obtain rfl : d = c := by simpa using h
    exact htext more rfl

/-- Behind a text that ends outside literals, cutting goes on with what follows. -/
theorem piecesFrom_ends (hquote : ∀ quote ∈ quote?, isQuote quote)
    (h : endOf? quote? depth text = some (none, depth')) (hrest : rest.head? ≠ some '|') :
    piecesFrom quote? depth (text ++ rest) = prepend text (piecesFrom none depth' rest) := by
  fun_induction endOf? quote? depth text with
  | case1 quote? depth =>
    obtain ⟨rfl, rfl⟩ := Prod.mk.inj (Option.some.inj h)
    exact (prepend_nil (piecesFrom_ne_nil _ _ _)).symm
  | case2 depth quote c text ih => simp [piecesFrom, ih hquote h, prepend_prepend]
  | case3 depth quote c text hpair ih =>
    have hc := ne_backslash_of_ends (hquote quote rfl) hpair h
    rw [List.cons_append, piecesFrom_literal hc,
      ih (isQuote_of_mem_closed (hquote quote rfl)) h, prepend_prepend]
    rfl
  | case4 depth text ih => simp [piecesFrom, ih hquote h, prepend_prepend]
  | case5 text => cases h
  | case6 depth text hbar hdepth ih =>
    rw [List.cons_append, piecesFrom_bar (head?_append_ne hbar hrest), if_neg hdepth,
      ih hquote h, prepend_prepend]
    rfl
  | case7 depth text ih => simp [piecesFrom, ih hquote h, prepend_prepend]
  | case8 depth text ih => simp [piecesFrom, ih hquote h, prepend_prepend]
  | case9 depth c text _ hbar hopen hclose ih =>
    have hc : c ∉ ['|', '(', ')'] := by simpa using ⟨hbar, hopen, hclose⟩
    rw [List.cons_append, piecesFrom_code hc, ih isQuote_of_mem_opened h, prepend_prepend]
    rfl

/-! ## Comments -/

theorem getLast?_cons_or (c : Char) (cs : List Char) (previous : Option Char) :
    (c :: cs).getLast?.or previous = cs.getLast?.or (some c) := by
  rw [List.getLast?_cons]
  cases cs.getLast? <;> rfl

/-- Behind a text without comments that ends outside literals, comments are read with its last
character in front of them. -/
theorem stripFrom_ends (hquote : ∀ quote ∈ quote?, isQuote quote)
    (h : endOf? quote? depth text = some (none, depth')) {previous : Option Char}
    (hclean : stripFrom (placeIn previous quote?) text = text)
    (hrest : ∀ c ∈ rest.head?, c ∉ ['-', '/', '*']) :
    stripFrom (placeIn previous quote?) (text ++ rest) =
      text ++ stripFrom (.code (text.getLast?.or previous)) rest := by
  fun_induction endOf? quote? depth text generalizing previous with
  | case1 quote? depth =>
    obtain ⟨rfl, rfl⟩ := Prod.mk.inj (Option.some.inj h)
    rfl
  | case2 depth quote c text ih =>
    rw [placeIn, stripFrom] at hclean
    have hbehind : stripFrom (placeIn (some c) (some quote)) text = text := by
      simpa [placeIn] using hclean
    have hmore := ih hquote h hbehind
    rw [getLast?_cons_or, getLast?_cons_or]
    simpa [placeIn, stripFrom] using hmore
  | case3 depth quote c text hpair ih =>
    have hc := ne_backslash_of_ends (hquote quote rfl) hpair h
    rw [placeIn, stripFrom_literal hc] at hclean
    have hmore := ih (isQuote_of_mem_closed (hquote quote rfl)) h (List.cons_eq_cons.mp hclean).2
    rw [placeIn, List.cons_append, stripFrom_literal hc, hmore, getLast?_cons_or]
    rfl
  | case4 depth text ih =>
    obtain ⟨hbar, hstep⟩ := stripFrom_step hclean hrest
    obtain ⟨hmore, hstep'⟩ := stripFrom_step hbar hrest
    rw [placeIn, hstep, getLast?_cons_or, getLast?_cons_or]
    exact congrArg ('|' :: ·) (hstep'.trans (congrArg ('|' :: ·) (ih hquote h hmore)))
  | case5 text => cases h
  | case6 depth text _ _ ih | case7 depth text ih | case8 depth text ih =>
    obtain ⟨hmore, hstep⟩ := stripFrom_step hclean hrest
    rw [placeIn, hstep, getLast?_cons_or]
    exact congrArg (_ :: ·) (ih hquote h hmore)
  | case9 depth c text _ _ _ _ ih =>
    obtain ⟨hmore, hstep⟩ := stripFrom_step hclean hrest
    rw [placeIn, hstep, ih isQuote_of_mem_opened h hmore, getLast?_cons_or]
    rfl

end Ends

/-! ## Stages with bars between them -/

/-- What is put between two stages. -/
abbrev bar : List Char :=
  " | ".toList

theorem intercalate_bar (stage next : List Char) (more : List (List Char)) :
    bar.intercalate (stage :: next :: more) =
      stage ++ ' ' :: '|' :: ' ' :: bar.intercalate (next :: more) := by
  simp [bar, List.intercalate]

/-- The placeholder has no blank at its ends, and no bar. -/
theorem occurs_stage_bar {stage rest : List Char} (hstage : occurs placeholder stage = false)
    (hrest : occurs placeholder rest = false) :
    occurs placeholder (stage ++ ' ' :: '|' :: ' ' :: rest) = false := by
  rw [← Bool.not_eq_true, occurs_iff_isInfix] at hstage hrest ⊢
  intro h
  have hsplit : stage ++ ' ' :: '|' :: ' ' :: rest = (stage ++ [' ']) ++ '|' :: ' ' :: rest := by
    simp
  rw [hsplit] at h
  rcases infix_or_infix (by decide) h with hfront | hbehind
  · rcases List.infix_concat_iff.mp hfront with hsuffix | hinfix
    · obtain ⟨front, hfront⟩ := hsuffix
      have hlast := congrArg List.getLast? hfront
      have hquery : placeholder.getLast? = some 'e' := rfl
      rw [List.getLast?_append, List.getLast?_concat, hquery] at hlast
      simp at hlast
    · exact hstage hinfix
  · rcases List.infix_cons_iff.mp hbehind with hprefix | hinfix
    · exact absurd (List.cons_prefix_cons.mp hprefix).1 (by decide)
    · exact hrest hinfix

section Stages

variable {stages : List (List Char)}

theorem occurs_intercalate
    (h : ∀ stage ∈ stages, occurs placeholder stage = false) :
    occurs placeholder (bar.intercalate stages) = false := by
  induction stages with
  | nil => rfl
  | cons stage stages ih =>
    have hstage := h stage List.mem_cons_self
    cases stages with
    | nil => simpa [List.intercalate] using hstage
    | cons next more =>
      rw [intercalate_bar]
      exact occurs_stage_bar hstage (ih fun stage hmem => h stage (List.mem_cons_of_mem _ hmem))

theorem stripFrom_stage {stage : List Char} (h : IsStage stage) {previous : Option Char}
    (hprevious : opensComment previous) (rest : List Char)
    (hrest : ∀ c ∈ rest.head?, c ∉ ['-', '/', '*']) :
    stripFrom (.code previous) (stage ++ rest) =
      stage ++ stripFrom (.code (stage.getLast?.or previous)) rest := by
  have hclean : stripFrom (placeIn previous none) stage = stage := by
    rw [placeIn, stripFrom_previous (hprevious.trans rfl : _ = opensComment none)]
    exact (clean_eq_iff.mp h.clean_eq).2.1
  exact stripFrom_ends (by simp) h.ends hclean hrest

theorem stripFrom_intercalate (h : ∀ stage ∈ stages, IsStage stage)
    {previous : Option Char} (hprevious : opensComment previous) :
    stripFrom (.code previous) (bar.intercalate stages) = bar.intercalate stages := by
  induction stages generalizing previous with
  | nil => rfl
  | cons stage stages ih =>
    have hstage := h stage List.mem_cons_self
    cases stages with
    | nil =>
      have hlone := stripFrom_stage hstage hprevious [] (by simp)
      simpa [List.intercalate, stripFrom] using hlone
    | cons next more =>
      have hblank : opensComment (some ' ') := rfl
      have hmore := ih (fun stage hmem => h stage (List.mem_cons_of_mem _ hmem)) hblank
      rw [intercalate_bar, stripFrom_stage hstage hprevious _ (by simp),
        stripFrom_code _ (by decide) (by simp) (by simp),
        stripFrom_code _ (by decide) (by simp) (by simp),
        stripFrom_code _ (by decide) (by simp) (by simp), hmore]

theorem map_trim_prepend_blank {texts : List (List Char)} (h : texts ≠ []) :
    (prepend [' '] texts).map trim = texts.map trim := by
  cases texts with
  | nil => exact absurd rfl h
  | cons text texts => simp [prepend, trim_cons (c := ' ') rfl]

theorem map_trim_pieces (hne : stages ≠ [])
    (h : ∀ stage ∈ stages, IsStage stage) :
    (pieces (bar.intercalate stages)).map trim = stages := by
  induction stages with
  | nil => exact absurd rfl hne
  | cons stage stages ih =>
    have hstage := h stage List.mem_cons_self
    have htrim : trim stage = stage := (clean_eq_iff.mp hstage.clean_eq).2.2
    cases stages with
    | nil =>
      have hlone : piecesFrom none 0 (stage ++ []) = prepend stage (piecesFrom none 0 []) :=
        piecesFrom_ends (by simp) hstage.ends (by simp)
      have hpieces : pieces (bar.intercalate [stage]) = [stage] := by
        simpa [pieces, List.intercalate, piecesFrom, prepend] using hlone
      rw [hpieces, List.map_singleton, htrim]
    | cons next more =>
      have hmore := ih (by simp) fun stage hmem => h stage (List.mem_cons_of_mem _ hmem)
      have hcut : pieces (bar.intercalate (stage :: next :: more)) =
          (stage ++ [' ']) :: prepend [' '] (pieces (bar.intercalate (next :: more))) := by
        rw [pieces, intercalate_bar, piecesFrom_ends (by simp) hstage.ends (by simp),
          piecesFrom_code (by decide), if_neg (by decide), piecesFrom_bar (by simp), if_pos rfl,
          piecesFrom_code (by decide), if_neg (by decide), prepend_prepend]
        simp [prepend, pieces]
      have hne : pieces (bar.intercalate (next :: more)) ≠ [] := piecesFrom_ne_nil _ _ _
      rw [hcut, List.map_cons, trim_concat (c := ' ') rfl, htrim, map_trim_prepend_blank hne, hmore]

/-- Stages with bars between them start as the first does and end as the last does. -/
theorem ends_intercalate (hne : stages ≠ [])
    (h : ∀ stage ∈ stages, IsStage stage) :
    bar.intercalate stages ≠ [] ∧
      (∀ c ∈ (bar.intercalate stages).head?, isBlank c = false) ∧
        ∀ c ∈ (bar.intercalate stages).getLast?, isBlank c = false := by
  induction stages with
  | nil => exact absurd rfl hne
  | cons stage stages ih =>
    have hstage := h stage List.mem_cons_self
    obtain ⟨hfirst, hlast⟩ := not_isBlank_of_trim_eq (clean_eq_iff.mp hstage.clean_eq).2.2
    cases stages with
    | nil => simpa [List.intercalate] using ⟨hstage.ne_nil, hfirst, hlast⟩
    | cons next more =>
      obtain ⟨hnonempty, -, hend⟩ := ih (by simp) fun stage hmem =>
        h stage (List.mem_cons_of_mem _ hmem)
      rw [intercalate_bar]
      refine ⟨by simp, fun c hc => ?_, fun c hc => ?_⟩
      · rw [List.head?_append_of_ne_nil _ hstage.ne_nil] at hc
        exact hfirst c hc
      · refine hend c ?_
        rw [List.getLast?_append_of_ne_nil _ (by simp)] at hc
        simpa [List.getLast?_cons_of_ne_nil, hnonempty] using hc

theorem clean_intercalate (hne : stages ≠ [])
    (h : ∀ stage ∈ stages, IsStage stage) :
    clean (bar.intercalate stages) = bar.intercalate stages := by
  refine clean_eq_iff.mpr ⟨?_, stripFrom_intercalate h rfl, ?_⟩
  · exact occurs_intercalate fun stage hmem => (clean_eq_iff.mp (h stage hmem).clean_eq).1
  · obtain ⟨-, hfirst, hlast⟩ := ends_intercalate hne h
    exact trim_eq hfirst hlast

/-- Clean stages, each without a bar that cuts it and with its literals and parentheses closed, are
cut where the bars between them stand, unless the whole is taken for SQL. -/
theorem split_intercalate (hne : stages ≠ [])
    (h : ∀ stage ∈ stages, IsStage stage) (hsql : isSql (bar.intercalate stages) = false) :
    split (bar.intercalate stages) = .ok (.stages stages) := by
  have hclean := clean_intercalate hne h
  have hempty : (bar.intercalate stages).isEmpty = false :=
    List.isEmpty_eq_false_iff.mpr (ends_intercalate hne h).1
  have hkept : (stages.filter fun stage => !stage.isEmpty) = stages :=
    List.filter_eq_self.mpr fun stage hmem => by simpa using (h stage hmem).ne_nil
  rw [split]
  simp only [hclean, hempty, hsql, map_trim_pieces hne h, hkept, List.isEmpty_eq_false_iff.mpr hne,
    Bool.false_eq_true, if_false]

end Stages

/-- A query whose second stage has bars in a literal, in parentheses and in pairs. -/
theorem split_intercalate_bars :
    split "T | where a == 'x|y' || f((b | c) - 1, \"//\") | take 3".toList =
      .ok (.stages ["T".toList, "where a == 'x|y' || f((b | c) - 1, \"//\")".toList,
        "take 3".toList]) := by
  have hquery : "T | where a == 'x|y' || f((b | c) - 1, \"//\") | take 3".toList =
      bar.intercalate ["T".toList, "where a == 'x|y' || f((b | c) - 1, \"//\")".toList,
        "take 3".toList] := by decide
  rw [hquery]
  exact split_intercalate (by simp) (by decide) (by decide)

end PipeSql.Query
