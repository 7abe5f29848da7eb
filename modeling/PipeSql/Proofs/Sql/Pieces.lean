import PipeSql.Proofs.Sql.Templates

/-! # Pieces of SQL and their tokens

Names, literals and constants give the same tokens wherever they stand in front of a break. -/

namespace PipeSql.Sql

open Query (isBreak isQuote Ends Anything Spells)

/-- The piece `cs` gives the tokens `ks` in front of each rest of which `ok` holds. -/
def Lexes (ok : List Char → Prop) (cs : List Char) (ks : List TokenKind) : Prop :=
  ∀ rest, ok rest → kinds (cs ++ rest) = ks ++ kinds rest

variable {ok ok' : List Char → Prop} {cs cs' : List Char} {ks ks' : List TokenKind}

namespace Lexes

theorem imp (h : Lexes ok cs ks) (hok : ∀ rest, ok' rest → ok rest) : Lexes ok' cs ks :=
  fun rest hrest => h rest (hok rest hrest)

theorem append (h : Lexes ok cs ks) (h' : Lexes ok' cs' ks')
    (hok : ∀ rest, ok' rest → ok (cs' ++ rest)) : Lexes ok' (cs ++ cs') (ks ++ ks') := by
  intro rest hrest
  rw [List.append_assoc, h _ (hok rest hrest), h' rest hrest, List.append_assoc]

/-- A piece that starts with a break may follow anything. -/
theorem append_break {c : Char} (h : Lexes Ends cs ks) (h' : Lexes ok' (c :: cs') ks')
    (hc : isBreak c) : Lexes ok' (cs ++ c :: cs') (ks ++ ks') := by
  refine h.append h' fun rest _ => ?_
  simpa [Ends] using hc

/-- Any piece may follow one of which nothing is asked. -/
theorem append_any (h : Lexes Anything cs ks) (h' : Lexes ok' cs' ks') :
    Lexes ok' (cs ++ cs') (ks ++ ks') :=
  h.append h' fun _ _ => trivial

theorem kinds_eq (h : Lexes Ends cs ks) : kinds cs = ks := by
  have hall := h [] (by simp [Ends])
  rwa [List.append_nil, kinds, List.append_nil] at hall

end Lexes

/-! ## Constants -/

theorem lexes_run (h : Unquoted cs) : Lexes Ends cs (kinds cs) := by
  intro rest hrest
  cases rest with
  | nil => simp [kinds]
  | cons q rest =>
    have hbreak : isBreak q := by simpa [Ends] using hrest
    have hquote : isQuote q = false := by
      simp only [isBreak, Bool.or_eq_true, beq_iff_eq] at hbreak
      rcases hbreak with ((rfl | rfl) | rfl) | rfl <;> rfl
    exact kinds_append (separates_of_isBreak hbreak) rest ⟨h, by simp [hquote]⟩

theorem lexes_mark {c : Char} (hc : c = '(' ∨ c = ')' ∨ c = ',') :
    Lexes Anything [c] [.mark c] := by
  intro rest _
  refine kinds_of_tokenAt? ?_ ?_
  · rcases hc with rfl | rfl | rfl <;> simp [gap?, isBlank]
  · rcases hc with rfl | rfl | rfl <;> rfl

theorem lexes_blank : Lexes Anything [' '] [] :=
  fun _ _ => kinds_of_gap? rfl

/-- Nothing is asked of what stands behind a blank or an opening parenthesis. -/
theorem lexes_front (h : Unquoted cs) (hlast : cs.getLast? = some ' ' ∨ cs.getLast? = some '(') :
    Lexes Anything cs (kinds cs) := by
  have hall : ∀ {c : Char} {ks : List TokenKind} {front : List Char}, Unquoted (front ++ [c]) →
      Lexes Anything [c] ks → isBreak c → Lexes Anything (front ++ [c]) (kinds (front ++ [c])) := by
    intro c ks front h hc hbreak
    have hfront : Unquoted front :=
      ⟨fun d hd => h.bare d (List.mem_append_left _ hd), h.chain.left_of_append⟩
    have hpieces := (lexes_run hfront).append_break hc hbreak
    rwa [(hpieces.imp fun _ _ => trivial).kinds_eq]
  rcases hlast with hlast | hlast <;> obtain ⟨front, rfl⟩ := List.getLast?_eq_some_iff.mp hlast
  · exact hall h lexes_blank rfl
  · exact hall h (lexes_mark (.inl rfl)) rfl

/-! ## Words and numbers -/

/-- A word of SQL, from its first character to its last. -/
def isWord (s : String) : Bool :=
  match s.toList with
  | [] => false
  | c :: rest => startsWord c && rest.all continuesWord

theorem isSteady_of_continuesWord {c : Char} (h : continuesWord c) : isSteady c := by
  have hnot : ∀ d ∈ ['"', '\'', '\\', ';', '-', '/'], continuesWord d = false := by decide
  have hne : ∀ d ∈ ['"', '\'', '\\', ';', '-', '/'], c ≠ d := by
    rintro d hd rfl
    rw [hnot _ hd] at h
    cases h
  simp only [List.forall_mem_cons] at hne
  simp [isSteady, isBare, isQuote, hne]

theorem ne_of_startsWord {c : Char} (h : startsWord c) :
    ∀ d ∈ [' ', '\t', '\n', '\x0c', '\r', '"', '\'', '.', '-', '/'], c ≠ d := by
  have hnot : ∀ d ∈ [' ', '\t', '\n', '\x0c', '\r', '"', '\'', '.', '-', '/'],
      startsWord d = false := by decide
  rintro d hd rfl
  rw [hnot _ hd] at h
  cases h

theorem isDigit_of_startsWord {c : Char} (h : startsWord c) : c.isDigit = false := by
  have hv : c.toNat = c.val.toNat := rfl
  have h0 : '0'.val.toNat = 48 := rfl
  have h9 : '9'.val.toNat = 57 := rfl
  rw [← Bool.not_eq_true]
  intro hdigit
  simp only [Char.isDigit, Bool.and_eq_true, decide_eq_true_eq, ge_iff_le,
    UInt32.le_iff_toNat_le] at hdigit
  simp only [startsWord, Bool.or_eq_true, beq_iff_eq, decide_eq_true_eq] at h
  rcases h with (halpha | rfl) | hhigh
  · have hrange := toNat_of_isAlpha halpha
    omega
  · simp at hdigit
  · omega

theorem gap?_eq_none {c : Char} (hblank : isBlank c = false) (hne : c ≠ '-' ∧ c ≠ '/')
    (rest : List Char) : gap? c rest = none := by
  rw [gap?_of_not_opensComment fun d _ => by simp [opensComment, hne], if_neg (by simp [hblank])]

theorem lexes_word {s : String} (h : isWord s) : Lexes Ends s.toList [.word s] := by
  obtain ⟨c, rest, hs, hc, hrest⟩ : ∃ c rest, s.toList = c :: rest ∧ startsWord c ∧
      ∀ d ∈ rest, continuesWord d := by
    unfold isWord at h
    split at h
    · cases h
    · rename_i c rest hs
      simp only [Bool.and_eq_true, List.all_eq_true] at h
      exact ⟨c, rest, hs, h⟩
  have hsteady : ∀ d ∈ c :: rest, isSteady d := by
    refine fun d hd => isSteady_of_continuesWord ?_
    rcases List.mem_cons.mp hd with rfl | hd
    · simp [continuesWord, hc]
    · exact hrest d hd
  have hne := ne_of_startsWord hc
  simp only [List.forall_mem_cons] at hne
  have hgap : gap? c rest = none := gap?_eq_none (by simp [isBlank, hne]) (by simp [hne]) rest
  have hquote : rest.head? ≠ some '\'' := by
    intro hhead
    have hcontinues := hrest _ (List.mem_of_mem_head? hhead)
    exact absurd hcontinues (by decide)
  have htoken : tokenAt? c rest = some (.word s, []) := by
    unfold tokenAt?
    simp [hne, hquote, isDigit_of_startsWord hc, hc,
      List.takeWhile_eq_self_iff.mpr hrest, List.dropWhile_eq_nil_iff.mpr hrest, ← hs]
  rw [hs]
  have hkinds : kinds (c :: rest) = [.word s] := by
    rw [kinds_of_tokenAt? hgap htoken, kinds]
  exact hkinds ▸ lexes_run (unquoted_of_isSteady hsteady)

/-- An exponent of the query language is one of SQL. -/
theorem exponent_eq {cs : List Char}
    (h : (match cs with
      | [] => true
      | e :: digits => (e == 'e' || e == 'E') && digits != [] && digits.all Char.isDigit) = true) :
    exponent cs = (cs, []) := by
  cases cs with
  | nil => rfl
  | cons e digits =>
    simp only [Bool.and_eq_true, bne_iff_ne, List.all_eq_true] at h
    obtain ⟨⟨he, hne⟩, hdigits⟩ := h
    have hsign : sign digits = ([], digits) := by
      cases digits with
      | nil => rfl
      | cons d digits =>
        have hd := hdigits d List.mem_cons_self
        have hplain : d ≠ '+' ∧ d ≠ '-' := by constructor <;> rintro rfl <;> cases hd
        simp [sign, hplain]
    simp [exponent, hsign, he, hne, List.takeWhile_eq_self_iff.mpr hdigits,
      List.dropWhile_eq_nil_iff.mpr hdigits]

theorem fraction_eq (cs : List Char) :
    (fraction cs).1 ++ (fraction cs).2 = cs ∧
      (fraction cs).2 = if cs.head? = some '.' then cs.tail.dropWhile Char.isDigit else cs := by
  unfold fraction
  split
  · simp [List.takeWhile_append_dropWhile]
  · rename_i hdot
    refine ⟨rfl, (if_neg fun hhead => ?_).symm⟩
    obtain ⟨tail, rfl⟩ := List.head?_eq_some_iff.mp hhead
    exact hdot tail rfl

/-- A number of the query language is one of SQL, all of it. -/
theorem numeral_eq {cs : List Char} (h : Query.isNumeral cs) : numeral cs = (cs, []) := by
  obtain ⟨hjoined, hrest⟩ := fraction_eq (cs.dropWhile Char.isDigit)
  have hexponent : exponent (fraction (cs.dropWhile Char.isDigit)).2 =
      ((fraction (cs.dropWhile Char.isDigit)).2, []) := by
    refine exponent_eq ?_
    rw [hrest]
    simp only [Query.isNumeral, Bool.and_eq_true] at h
    exact h.2
  simp only [numeral, hexponent, List.append_assoc, hjoined, List.takeWhile_append_dropWhile]

theorem ne_of_isDigit_or_dot {c : Char} (h : c.isDigit || c == '.') :
    ∀ d ∈ [' ', '\t', '\n', '\x0c', '\r', '"', '\'', 'x', 'X', '-', '/'], c ≠ d := by
  have hnot : ∀ d ∈ [' ', '\t', '\n', '\x0c', '\r', '"', '\'', 'x', 'X', '-', '/'],
      (d.isDigit || d == '.') = false := by decide
  rintro d hd rfl
  rw [hnot _ hd] at h
  cases h

theorem lexes_number {digits : String} (h : Spells (.number digits) digits) :
    Lexes Ends digits.toList [.number digits] := by
  have hsteady : ∀ c ∈ digits.toList, isSteady c := fun c hc =>
    isSteady_of_isAlphanum ((steady_number h).2 c hc)
  obtain ⟨c, body, hlist, -, hdigit, hnumeral, -⟩ := h.exists_numeral
  rw [hlist] at hsteady ⊢
  have hne := ne_of_isDigit_or_dot (c := c) (by
    simp only [Bool.or_eq_true, Bool.and_eq_true] at hdigit ⊢
    exact hdigit.imp_right And.left)
  simp only [List.forall_mem_cons] at hne
  have hgap : gap? c body = none := gap?_eq_none (by simp [isBlank, hne]) (by simp [hne]) body
  have htoken : tokenAt? c body = some (.number digits, []) := by
    have htext : String.ofList (c :: body) = digits := by rw [← hlist, String.ofList_toList]
    unfold tokenAt?
    simp [hne, hdigit, numeral_eq hnumeral, htext]
  have hkinds : kinds (c :: body) = [.number digits] := by
    rw [kinds_of_tokenAt? hgap htoken, kinds]
  exact hkinds ▸ lexes_run (unquoted_of_isSteady hsteady)

/-- The sign of a number is a token of its own. -/
theorem lexes_negative {digits : String} (h : Spells (.number digits) digits) :
    Lexes Ends ("-" ++ digits).toList [.mark '-', .number digits] := by
  intro rest hrest
  obtain ⟨c, body, hlist, -, hdigit, -⟩ := h.exists_numeral
  have hhead : ∀ d ∈ (digits.toList ++ rest).head?, opensComment '-' d = false := by
    intro d hd
    obtain rfl : c = d := by simpa [hlist] using hd
    have hne : c ≠ '-' := by
      rintro rfl
      cases hdigit
    simp [opensComment, hne]
  have hgap : gap? '-' (digits.toList ++ rest) = none := by
    rw [gap?_of_not_opensComment hhead, if_neg (by decide)]
  have htoken : tokenAt? '-' (digits.toList ++ rest) = some (.mark '-', digits.toList ++ rest) :=
    rfl
  have htext : ("-" ++ digits).toList ++ rest = '-' :: (digits.toList ++ rest) := by simp
  rw [htext, kinds_of_tokenAt? hgap htoken, lexes_number h rest hrest]
  rfl

/-! ## Quoted names and texts -/

theorem lexes_quoteText (value : String) : Lexes Ends (quoteText value).toList [.text value] := by
  intro rest hrest
  refine kinds_quoteText value fun hhead => ?_
  have hbreak := hrest _ hhead
  cases hbreak

theorem lexes_quoteName (name : String) : Lexes Ends (quoteName name).toList [.name name] := by
  intro rest hrest
  refine kinds_quoteName name fun hhead => ?_
  have hbreak := hrest _ hhead
  cases hbreak

/-- The token of the name of a column. -/
def nameKind (name : String) : TokenKind :=
  if isPlain name && !reserved.contains name.toLower then .word name else .name name

theorem isWord_of_isPlain {name : String} (h : isPlain name) : isWord name := by
  cases hname : name.toList with
  | nil => simp [isPlain, hname] at h
  | cons c rest =>
    simp only [isPlain, hname, Bool.and_eq_true, List.all_eq_true] at h
    simp only [isWord, hname, Bool.and_eq_true, List.all_eq_true]
    refine ⟨by simp [startsWord, h.1], fun d hd => ?_⟩
    have hd := h.2 d hd
    simp only [Char.isAlphanum, Bool.or_eq_true] at hd
    simp only [continuesWord, startsWord, Bool.or_eq_true]
    tauto

/-- A point in front of a name is a token of its own. -/
theorem kinds_dot {rest : List Char} (h : ∀ c ∈ rest.head?, c.isDigit = false) :
    kinds ('.' :: rest) = .mark '.' :: kinds rest := by
  have hdigit : rest.head?.any Char.isDigit = false := by
    cases rest <;> simp_all
  have hpoint : startsWord '.' = false ∧ '.'.isDigit = false := by decide
  refine kinds_of_tokenAt? (gap?_eq_none (by decide) (by decide) rest) ?_
  simp [tokenAt?, hdigit, hpoint]

theorem head?_nameText (name : String) :
    ∃ c rest, (nameText name).toList = c :: rest ∧ c.isDigit = false := by
  unfold nameText
  split
  · rename_i hplain
    simp only [Bool.and_eq_true] at hplain
    have hword := isWord_of_isPlain hplain.1
    unfold isWord at hword
    split at hword
    · cases hword
    · rename_i c rest hname
      exact ⟨c, rest, hname, isDigit_of_startsWord (Bool.and_eq_true_iff.mp hword).1⟩
  · exact ⟨'"', Text.doubled '"' name.toList ++ ['"'], by simp [quoteName, Text.enclosed], rfl⟩

theorem lexes_nameText (name : String) : Lexes Ends (nameText name).toList [nameKind name] := by
  unfold nameText nameKind
  split
  · rename_i hplain
    simp only [Bool.and_eq_true] at hplain
    exact lexes_word (isWord_of_isPlain hplain.1)
  · exact lexes_quoteName name

/-- The tokens of a column. -/
def columnKinds (column : Query.Column) : List TokenKind :=
  match column.table with
  | some table => [.name table, .mark '.', nameKind column.name]
  | none => [nameKind column.name]

theorem lexes_columnText (column : Query.Column) :
    Lexes Ends (columnText column).toList (columnKinds column) := by
  obtain ⟨_ | table, name⟩ := column
  · exact lexes_nameText name
  · intro rest hrest
    obtain ⟨c, more, hname, hc⟩ := head?_nameText name
    have htext : (columnText ⟨some table, name⟩).toList ++ rest =
        (quoteName table).toList ++ '.' :: ((nameText name).toList ++ rest) := by
      simp [columnText]
    rw [htext, kinds_quoteName table (by simp), kinds_dot (by simpa [hname] using hc),
      lexes_nameText name rest hrest]
    rfl

end PipeSql.Sql
