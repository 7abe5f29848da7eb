import PipeSql.Proofs.Query.Split

/-! # Where a text is cut

Cutting a text loses nothing, and cutting a piece again leaves it whole. The bars that cut are told
by reading the text character by character, up to the bar and one character behind it: such a bar
stands outside literals and parentheses, and is none of two bars that are read together. -/

namespace PipeSql.Query

/-! ## Steps of the cutting -/

/-- The literal that a character outside literals opens. -/
def opened? (c : Char) : Option Char :=
  if isQuote c then some c else none

/-- The number of open parentheses behind a character. A closing one that none opened counts for
nothing. -/
def depthBehind (depth : Nat) (c : Char) : Nat :=
  if c = '(' then depth + 1 else if c = ')' then depth - 1 else depth

section Steps

variable {quote : Char} {depth : Nat} {c : Char} {rest : List Char}

theorem piecesFrom_plain (hc : c ≠ '|') :
    piecesFrom none depth (c :: rest) =
      prepend [c] (piecesFrom (opened? c) (depthBehind depth c) rest) := by
  by_cases hopen : c = '('
  · subst hopen
    simp [piecesFrom, opened?, depthBehind, isQuote]
  by_cases hclose : c = ')'
  · subst hclose
    simp [piecesFrom, opened?, depthBehind, isQuote]
  rw [piecesFrom_code (by simp [hc, hopen, hclose])]
  simp [opened?, depthBehind, isQuote, hopen, hclose]

/-- Induction along the cutting of a text. -/
@[elab_as_elim]
theorem cutting_induction {motive : Option Char → Nat → List Char → Prop}
    (nil : ∀ quote? depth, motive quote? depth [])
    (escaped : ∀ quote depth c rest, motive (some quote) depth rest →
      motive (some quote) depth ('\\' :: c :: rest))
    (lone : ∀ quote depth, motive (some quote) depth ['\\'])
    (literal : ∀ quote depth c rest, c ≠ '\\' →
      motive (if c = quote then none else some quote) depth rest →
      motive (some quote) depth (c :: rest))
    (pair : ∀ depth rest, motive none depth rest → motive none depth ('|' :: '|' :: rest))
    (bar : ∀ depth rest, rest.head? ≠ some '|' → motive none depth rest →
      motive none depth ('|' :: rest))
    (plain : ∀ depth c rest, c ≠ '|' → motive (opened? c) (depthBehind depth c) rest →
      motive none depth (c :: rest)) :
    ∀ quote? depth cs, motive quote? depth cs := by
  have hbar : ∀ {rest : List Char}, (∀ more, rest = '|' :: more → False) →
      rest.head? ≠ some '|' := by
    intro rest hrest hhead
    obtain ⟨more, hmore⟩ := List.head?_eq_some_iff.mp hhead
    exact hrest more hmore
  intro quote? depth cs
  induction quote?, depth, cs using piecesFrom.induct with
  | case1 quote? depth => exact nil quote? depth
  | case2 depth quote c rest ih => exact escaped quote depth c rest ih
  | case3 depth quote c rest hpair ih =>
    by_cases hc : c = '\\'
    · subst hc
      cases rest with
      | nil => exact lone quote depth
      | cons d rest => exact absurd rfl fun h => hpair d rest rfl h
    · exact literal quote depth c rest hc ih
  | case4 depth rest ih => exact pair depth rest ih
  | case5 rest hrest ih => exact bar 0 rest (hbar hrest) ih
  | case6 depth rest hrest _ ih => exact bar depth rest (hbar hrest) ih
  | case7 depth rest ih => exact plain depth '(' rest (by decide) ih
  | case8 depth rest ih => exact plain depth ')' rest (by decide) ih
  | case9 depth c rest _ hbar hopen hclose ih =>
    refine plain depth c rest hbar ?_
    have hdepth : depthBehind depth c = depth := by
      rw [depthBehind, if_neg hopen, if_neg hclose]
    rw [hdepth]
    simpa [opened?, isQuote] using ih

end Steps

/-! ## Pieces put together again -/

/-- The text that is cut into pieces. -/
def joined (texts : List (List Char)) : List Char :=
  ['|'].intercalate texts

section Joined

variable {texts left right : List (List Char)} {front text : List Char}

theorem joined_cons (h : texts ≠ []) : joined (text :: texts) = text ++ '|' :: joined texts := by
  rw [joined, List.intercalate_cons_of_ne_nil h, joined, List.append_assoc]
  rfl

theorem joined_prepend (h : texts ≠ []) : joined (prepend front texts) = front ++ joined texts := by
  obtain ⟨text, texts, rfl⟩ := List.exists_cons_of_ne_nil h
  cases texts with
  | nil => simp [prepend, joined, List.intercalate]
  | cons next more =>
    have hmore : next :: more ≠ [] := List.cons_ne_nil next more
    rw [prepend, joined_cons hmore, joined_cons hmore, List.append_assoc]

theorem joined_append (hleft : left ≠ []) (hright : right ≠ []) :
    joined (left ++ right) = joined left ++ '|' :: joined right := by
  induction left with
  | nil => exact absurd rfl hleft
  | cons text left ih =>
    cases left with
    | nil =>
      rw [List.singleton_append, joined_cons hright]
      simp [joined, List.intercalate]
    | cons next more =>
      have hmore : next :: more ≠ [] := List.cons_ne_nil next more
      have hall : next :: more ++ right ≠ [] := List.cons_ne_nil next (more ++ right)
      rw [List.cons_append, joined_cons hall, ih hmore, joined_cons hmore, List.append_assoc,
        List.cons_append]

/-- Cutting takes nothing away but the bars between the pieces. -/
theorem joined_piecesFrom (quote? : Option Char) (depth : Nat) (cs : List Char) :
    joined (piecesFrom quote? depth cs) = cs := by
  induction quote?, depth, cs using cutting_induction with
  | nil quote? depth => rfl
  | escaped quote depth c rest ih =>
    rw [piecesFrom, joined_prepend (piecesFrom_ne_nil _ _ _), ih]
    rfl
  | lone quote depth => simp [piecesFrom, prepend, joined]
  | literal quote depth c rest hc ih =>
    rw [piecesFrom_literal hc, joined_prepend (piecesFrom_ne_nil _ _ _), ih]
    rfl
  | pair depth rest ih =>
    rw [piecesFrom, joined_prepend (piecesFrom_ne_nil _ _ _), ih]
    rfl
  | bar depth rest hrest ih =>
    rw [piecesFrom_bar hrest]
    split
    · rw [joined_cons (piecesFrom_ne_nil _ _ _), ih]
      rfl
    · rw [joined_prepend (piecesFrom_ne_nil _ _ _), ih]
      rfl
  | plain depth c rest hc ih =>
    rw [piecesFrom_plain hc, joined_prepend (piecesFrom_ne_nil _ _ _), ih]
    rfl

end Joined

/-! ## Pieces cut again -/

theorem prefix_of_piecesFrom {quote? : Option Char} {depth : Nat} {cs first : List Char}
    {more : List (List Char)} (h : piecesFrom quote? depth cs = first :: more) : first <+: cs := by
  have hjoined := joined_piecesFrom quote? depth cs
  rw [h] at hjoined
  cases more with
  | nil => exact ⟨[], by simpa [joined] using hjoined⟩
  | cons next more =>
    rw [joined_cons (List.cons_ne_nil next more)] at hjoined
    exact ⟨_, hjoined⟩

theorem head?_ne_of_isPrefix {c : Char} {part text : List Char} (h : part <+: text)
    (htext : text.head? ≠ some c) : part.head? ≠ some c := by
  intro hpart
  obtain ⟨rest, rfl⟩ := List.head?_eq_some_iff.mp hpart
  obtain ⟨behind, rfl⟩ := h
  exact htext rfl

/-- The first piece stays whole where the text starts, and each other one on its own. -/
theorem exists_piecesFrom (quote? : Option Char) (depth : Nat) (cs : List Char) :
    ∃ first more, piecesFrom quote? depth cs = first :: more ∧
      piecesFrom quote? depth first = [first] ∧ ∀ piece ∈ more, pieces piece = [piece] := by
  induction quote?, depth, cs using cutting_induction with
  | nil quote? depth => exact ⟨[], [], rfl, rfl, by simp⟩
  | escaped quote depth c rest ih =>
    obtain ⟨first, more, hcut, hfirst, hmore⟩ := ih
    refine ⟨'\\' :: c :: first, more, ?_, ?_, hmore⟩
    · rw [piecesFrom, hcut]
      rfl
    · rw [piecesFrom, hfirst]
      rfl
  | lone quote depth =>
    refine ⟨['\\'], [], ?_, ?_, by simp⟩ <;> simp [piecesFrom, prepend]
  | literal quote depth c rest hc ih =>
    obtain ⟨first, more, hcut, hfirst, hmore⟩ := ih
    refine ⟨c :: first, more, ?_, ?_, hmore⟩
    · rw [piecesFrom_literal hc, hcut]
      rfl
    · rw [piecesFrom_literal hc, hfirst]
      rfl
  | pair depth rest ih =>
    obtain ⟨first, more, hcut, hfirst, hmore⟩ := ih
    refine ⟨'|' :: '|' :: first, more, ?_, ?_, hmore⟩
    · rw [piecesFrom, hcut]
      rfl
    · rw [piecesFrom, hfirst]
      rfl
  | bar depth rest hrest ih =>
    obtain ⟨first, more, hcut, hfirst, hmore⟩ := ih
    by_cases hdepth : depth = 0
    · subst hdepth
      refine ⟨[], first :: more, ?_, rfl, List.forall_mem_cons.mpr ⟨hfirst, hmore⟩⟩
      rw [piecesFrom_bar hrest, if_pos rfl, hcut]
    · refine ⟨'|' :: first, more, ?_, ?_, hmore⟩
      · rw [piecesFrom_bar hrest, if_neg hdepth, hcut]
        rfl
      · -- the piece has no second bar that the text does not have
        have hhead := head?_ne_of_isPrefix (prefix_of_piecesFrom hcut) hrest
        rw [piecesFrom_bar hhead, if_neg hdepth, hfirst]
        rfl
  | plain depth c rest hc ih =>
    obtain ⟨first, more, hcut, hfirst, hmore⟩ := ih
    refine ⟨c :: first, more, ?_, ?_, hmore⟩
    · rw [piecesFrom_plain hc, hcut]
      rfl
    · rw [piecesFrom_plain hc, hfirst]
      rfl

theorem pieces_of_mem_pieces {text piece : List Char} (h : piece ∈ pieces text) :
    pieces piece = [piece] := by
  obtain ⟨first, more, hcut, hfirst, hmore⟩ := exists_piecesFrom none 0 text
  rw [pieces, hcut] at h
  rcases List.mem_cons.mp h with rfl | h
  · exact hfirst
  · exact hmore piece h

/-! ## Reading up to a bar -/

/-- What is known of a place by the characters in front of it. -/
structure Reading where
  /-- The quote of the literal in which the place stands. -/
  quote? : Option Char
  /-- Whether a backslash of the literal stands right in front. -/
  escaped : Bool
  /-- Whether a bar stands right in front that is not the second of two. -/
  barred : Bool
  /-- The number of open parentheses. -/
  depth : Nat
  deriving DecidableEq, Repr

/-- What is known one character further. Bars are paired in the order in which they stand. -/
def Reading.next (reading : Reading) (c : Char) : Reading :=
  match reading.quote? with
  | some quote =>
    if reading.escaped then { reading with escaped := false }
    else if c = '\\' then { reading with escaped := true }
    else { reading with quote? := if c = quote then none else some quote }
  | none =>
    if c = '|' then { reading with barred := !reading.barred }
    else ⟨opened? c, false, false, depthBehind reading.depth c⟩

/-- What is known behind a text that starts in a literal, maybe, and in parentheses. -/
def readFrom (quote? : Option Char) (depth : Nat) (text : List Char) : Reading :=
  text.foldl Reading.next ⟨quote?, false, false, depth⟩

/-- The place stands outside literals and parentheses, and a bar there is not the second of two. -/
structure Reading.Free (reading : Reading) : Prop where
  code : reading.quote? = none
  top : reading.depth = 0
  unbarred : reading.barred = false

/-- A bar between these texts stands outside literals and parentheses, and is none of two that are
read together. -/
structure Cuts (front behind : List Char) : Prop where
  free : (readFrom none 0 front).Free
  alone : behind.head? ≠ some '|'

instance (reading : Reading) : Decidable reading.Free :=
  decidable_of_iff (reading.quote? = none ∧ reading.depth = 0 ∧ reading.barred = false)
    ⟨fun h => ⟨h.1, h.2.1, h.2.2⟩, fun h => ⟨h.code, h.top, h.unbarred⟩⟩

instance (front behind : List Char) : Decidable (Cuts front behind) :=
  decidable_of_iff ((readFrom none 0 front).Free ∧ behind.head? ≠ some '|')
    ⟨fun h => ⟨h.1, h.2⟩, fun h => ⟨h.free, h.alone⟩⟩

section Reading

variable {quote : Char} {depth : Nat} {c : Char} {rest : List Char}

theorem readFrom_escaped :
    readFrom (some quote) depth ('\\' :: c :: rest) = readFrom (some quote) depth rest := by
  simp [readFrom, Reading.next]

theorem readFrom_literal (hc : c ≠ '\\') :
    readFrom (some quote) depth (c :: rest) =
      readFrom (if c = quote then none else some quote) depth rest := by
  simp [readFrom, Reading.next, hc]

theorem readFrom_pair : readFrom none depth ('|' :: '|' :: rest) = readFrom none depth rest := by
  simp [readFrom, Reading.next]

theorem readFrom_plain (hc : c ≠ '|') :
    readFrom none depth (c :: rest) = readFrom (opened? c) (depthBehind depth c) rest := by
  simp [readFrom, Reading.next, hc]

/-- A bar is forgotten behind the next character, unless this is a bar too. -/
theorem readFrom_bar (hne : rest ≠ []) (h : rest.head? ≠ some '|') :
    readFrom none depth ('|' :: rest) = readFrom none depth rest := by
  obtain ⟨c, rest, rfl⟩ := List.exists_cons_of_ne_nil hne
  have hc : c ≠ '|' := by simpa using h
  simp [readFrom, Reading.next, hc]

end Reading

/-! ## The bars that cut -/

section Bars

variable {quote? : Option Char} {depth : Nat} {front behind cs : List Char}
  {left right texts : List (List Char)}

theorem prepend_append (h : texts ≠ []) :
    prepend front (texts ++ right) = prepend front texts ++ right := by
  obtain ⟨text, texts, rfl⟩ := List.exists_cons_of_ne_nil h
  rfl

/-- A bar cuts where the text in front of it leads to a free place. -/
theorem piecesFrom_cut (hfree : (readFrom quote? depth front).Free)
    (halone : behind.head? ≠ some '|') :
    piecesFrom quote? depth (front ++ '|' :: behind) =
      piecesFrom quote? depth front ++ pieces behind := by
  induction quote?, depth, front using cutting_induction with
  | nil quote? depth =>
    obtain ⟨rfl, rfl, -⟩ := hfree
    rw [List.nil_append, piecesFrom_bar halone, if_pos rfl]
    rfl
  | escaped quote depth c rest ih =>
    rw [readFrom_escaped] at hfree
    rw [List.cons_append, List.cons_append, piecesFrom, piecesFrom, ih hfree,
      prepend_append (piecesFrom_ne_nil _ _ _)]
  | lone quote depth => cases hfree.code
  | literal quote depth c rest hc ih =>
    rw [readFrom_literal hc] at hfree
    rw [List.cons_append, piecesFrom_literal hc, piecesFrom_literal hc, ih hfree,
      prepend_append (piecesFrom_ne_nil _ _ _)]
  | pair depth rest ih =>
    rw [readFrom_pair] at hfree
    rw [List.cons_append, List.cons_append, piecesFrom, piecesFrom, ih hfree,
      prepend_append (piecesFrom_ne_nil _ _ _)]
  | bar depth rest hrest ih =>
    cases rest with
    | nil => cases hfree.unbarred
    | cons c rest =>
      rw [readFrom_bar (List.cons_ne_nil c rest) hrest] at hfree
      have hmore : (c :: rest ++ '|' :: behind).head? ≠ some '|' := hrest
      rw [List.cons_append, piecesFrom_bar hmore, piecesFrom_bar hrest, ih hfree]
      split
      · rfl
      · rw [prepend_append (piecesFrom_ne_nil _ _ _)]
  | plain depth c rest hc ih =>
    rw [readFrom_plain hc] at hfree
    rw [List.cons_append, piecesFrom_plain hc, piecesFrom_plain hc, ih hfree,
      prepend_append (piecesFrom_ne_nil _ _ _)]

theorem prepend_eq_append (h : prepend front texts = left ++ right) (htexts : texts ≠ [])
    (hleft : left ≠ []) :
    ∃ left', left' ≠ [] ∧ left = prepend front left' ∧ texts = left' ++ right := by
  obtain ⟨text, texts, rfl⟩ := List.exists_cons_of_ne_nil htexts
  obtain ⟨first, left, rfl⟩ := List.exists_cons_of_ne_nil hleft
  obtain ⟨rfl, rfl⟩ := List.cons.inj h
  exact ⟨text :: left, by simp, rfl, rfl⟩

theorem singleton_ne_append {text : List Char} (hleft : left ≠ []) (hright : right ≠ []) :
    [text] ≠ left ++ right := by
  intro h
  rcases List.singleton_eq_append_iff.mp h with ⟨rfl, -⟩ | ⟨-, rfl⟩
  · exact hleft rfl
  · exact hright rfl

/-- In front of a later cut, a bar is followed by another character. -/
theorem readFrom_bar_joined {rest : List Char} (hrest : rest.head? ≠ some '|')
    (hcut : piecesFrom none depth rest = left ++ right) (hleft : left ≠ []) (hright : right ≠ []) :
    readFrom none depth ('|' :: joined left) = readFrom none depth (joined left) := by
  have hjoined := joined_piecesFrom none depth rest
  rw [hcut, joined_append hleft hright] at hjoined
  refine readFrom_bar ?_ (head?_ne_of_isPrefix ⟨_, hjoined⟩ hrest)
  intro hempty
  rw [hempty, List.nil_append] at hjoined
  exact hrest (by rw [← hjoined, List.head?_cons])

/-- A cut stands at a free place, and no bar stands behind it. -/
theorem free_of_piecesFrom_eq_append (h : piecesFrom quote? depth cs = left ++ right)
    (hleft : left ≠ []) (hright : right ≠ []) :
    (readFrom quote? depth (joined left)).Free ∧ (joined right).head? ≠ some '|' := by
  induction quote?, depth, cs using cutting_induction generalizing left with
  | nil quote? depth => exact absurd h (singleton_ne_append hleft hright)
  | escaped quote depth c rest ih =>
    rw [piecesFrom] at h
    obtain ⟨left, hne, rfl, hcut⟩ := prepend_eq_append h (piecesFrom_ne_nil _ _ _) hleft
    rw [joined_prepend hne, List.cons_append, List.cons_append, List.nil_append, readFrom_escaped]
    exact ih hcut hne
  | lone quote depth =>
    have hlone : piecesFrom (some quote) depth ['\\'] = [['\\']] := by simp [piecesFrom, prepend]
    exact absurd (hlone.symm.trans h) (singleton_ne_append hleft hright)
  | literal quote depth c rest hc ih =>
    rw [piecesFrom_literal hc] at h
    obtain ⟨left, hne, rfl, hcut⟩ := prepend_eq_append h (piecesFrom_ne_nil _ _ _) hleft
    rw [joined_prepend hne, List.singleton_append, readFrom_literal hc]
    exact ih hcut hne
  | pair depth rest ih =>
    rw [piecesFrom] at h
    obtain ⟨left, hne, rfl, hcut⟩ := prepend_eq_append h (piecesFrom_ne_nil _ _ _) hleft
    rw [joined_prepend hne, List.cons_append, List.cons_append, List.nil_append, readFrom_pair]
    exact ih hcut hne
  | bar depth rest hrest ih =>
    rw [piecesFrom_bar hrest] at h
    split at h
    · rename_i hdepth
      subst hdepth
      rcases List.cons_eq_append_iff.mp h with ⟨rfl, -⟩ | ⟨left, rfl, hcut⟩
      · exact absurd rfl hleft
      cases left with
      | nil =>
        -- the bar itself is the cut
        obtain rfl : piecesFrom none 0 rest = right := hcut
        rw [joined_piecesFrom]
        exact ⟨⟨rfl, rfl, rfl⟩, hrest⟩
      | cons text left =>
        have hne : text :: left ≠ [] := List.cons_ne_nil text left
        rw [joined_cons hne, List.nil_append, readFrom_bar_joined hrest hcut hne hright]
        exact ih hcut hne
    · obtain ⟨left, hne, rfl, hcut⟩ := prepend_eq_append h (piecesFrom_ne_nil _ _ _) hleft
      rw [joined_prepend hne, List.singleton_append, readFrom_bar_joined hrest hcut hne hright]
      exact ih hcut hne
  | plain depth c rest hc ih =>
    rw [piecesFrom_plain hc] at h
    obtain ⟨left, hne, rfl, hcut⟩ := prepend_eq_append h (piecesFrom_ne_nil _ _ _) hleft
    rw [joined_prepend hne, List.singleton_append, readFrom_plain hc]
    exact ih hcut hne

end Bars

/-- A text is its pieces with bars between them, each piece is one by itself, and the bars between
pieces are those that stand outside literals and parentheses and are none of two that are read
together. -/
theorem joined_pieces_stable (text : List Char) :
    joined (pieces text) = text ∧ (∀ piece ∈ pieces text, pieces piece = [piece]) ∧
      ∀ front behind, text = front ++ '|' :: behind →
        ((∃ left right, left ≠ [] ∧ right ≠ [] ∧ pieces text = left ++ right ∧
          joined left = front ∧ joined right = behind) ↔ Cuts front behind) := by
  refine ⟨joined_piecesFrom none 0 text, fun _ => pieces_of_mem_pieces, ?_⟩
  rintro front behind rfl
  constructor
  · rintro ⟨left, right, hleft, hright, hcut, rfl, rfl⟩
    obtain ⟨hfree, halone⟩ := free_of_piecesFrom_eq_append hcut hleft hright
    exact ⟨hfree, halone⟩
  · rintro ⟨hfree, halone⟩
    exact ⟨pieces front, pieces behind, piecesFrom_ne_nil _ _ _, piecesFrom_ne_nil _ _ _,
      piecesFrom_cut hfree halone, joined_piecesFrom none 0 front, joined_piecesFrom none 0 behind⟩

/-- Three bars, bars in parentheses and in a literal, and a parenthesis that closes nothing. -/
theorem joined_pieces_stable_threeBars :
    joined (pieces "T|||f((a|b)||'\\'|')))|c".toList) = "T|||f((a|b)||'\\'|')))|c".toList ∧
      pieces "f((a|b)||'\\'|')))".toList = ["f((a|b)||'\\'|')))".toList] ∧
      ∃ left right, left ≠ [] ∧ right ≠ [] ∧
        pieces "T|||f((a|b)||'\\'|')))|c".toList = left ++ right ∧
        joined left = "T||".toList ∧ joined right = "f((a|b)||'\\'|')))|c".toList := by
  obtain ⟨hjoined, hstable, hcuts⟩ := joined_pieces_stable "T|||f((a|b)||'\\'|')))|c".toList
  exact ⟨hjoined, hstable _ (by decide), (hcuts _ _ (by decide)).mpr (by decide)⟩

end PipeSql.Query
