import PipeSql.Proofs.Query.Clean
import PipeSql.Proofs.Sql.Fidelity
import PipeSql.Proofs.Sql.Structure

/-! # Compiled SQL that is compiled again

SQL that was compiled from a pipeline is recognized as SQL, and is cleaned as a query is. Cleaning
reads a backslash in a quoted name or text as an escape, which it is not in SQL. Main statement:
what was compiled is passed on unchanged where no backslash stands in front of a quote. -/

namespace PipeSql

open Query

/-! ## Quoted contents under the rules of queries -/

/-- The content of a quoted name or text, read in pairs behind each backslash, has a quote in no
pair, and no backslash at its end that the closing quote would be paired with. -/
def paired (quote : Char) : List Char → Bool
  | [] => true
  | ['\\'] => false
  | '\\' :: c :: rest => c != quote && paired quote rest
  | _ :: rest => paired quote rest

namespace Sql

/-- The content of a name or a text is paired. -/
def TokenKind.isPaired : TokenKind → Bool
  | .name content => paired '"' content.toList
  | .text content => paired '\'' content.toList
  | _ => true

theorem stripFrom_doubled {quote : Char} (hquote : Query.isQuote quote) {cs : List Char}
    (h : paired quote cs) (rest : List Char) :
    stripFrom (.literal quote) (Text.doubled quote cs ++ quote :: rest) =
      Text.doubled quote cs ++ quote :: stripFrom (.code (some quote)) rest := by
  have hslash : quote ≠ '\\' := by
    rintro rfl
    cases hquote
  fun_induction paired quote cs with
  | case1 => simp [Text.doubled, stripFrom, hslash]
  | case2 => cases h
  | case3 c cs ih =>
    simp only [Bool.and_eq_true, bne_iff_ne] at h
    simp [Text.doubled, hslash.symm, h.1, stripFrom, ih h.2]
  | case4 c cs hend hpair ih =>
    have hc : c ≠ '\\' := by
      rintro rfl
      cases cs with
      | nil => exact hend rfl rfl
      | cons d cs => exact hpair d cs rfl rfl
    by_cases heq : c = quote
    · subst heq
      simp [Text.doubled, stripFrom, hc, stripFrom_quote hquote, ih h]
    · simp [Text.doubled, heq, stripFrom, hc, ih h]

/-- A quoted piece whose content is paired stays under the rules of queries. -/
theorem stripFrom_quoted {g : Glyph} (hg : g.outline = none) (h : g.kind.isPaired)
    (previous : Option Char) (rest : List Char) :
    ∃ quote, stripFrom (.code previous) (g.written ++ rest) =
      g.written ++ stripFrom (.code (some quote)) rest := by
  have hstrip : ∀ {quote : Char} {cs : List Char}, Query.isQuote quote → paired quote cs →
      stripFrom (.code previous) (quote :: (Text.doubled quote cs ++ quote :: rest)) =
        quote :: (Text.doubled quote cs ++ quote :: stripFrom (.code (some quote)) rest) := by
    intro quote cs hquote hpaired
    rw [stripFrom_quote hquote, stripFrom_doubled hquote hpaired]
  cases g with
  | bare c => cases hg
  | name content =>
    refine ⟨'"', ?_⟩
    simpa [Glyph.written, quoteName, Text.enclosed] using @hstrip '"' content.toList rfl h
  | text content =>
    refine ⟨'\'', ?_⟩
    simpa [Glyph.written, quoteText, Text.enclosed] using @hstrip '\'' content.toList rfl h

/-- What follows a bare character opens no comment with it. -/
theorem not_opensComment_of_even {gs : List Glyph} {c d : Char}
    (heven : Even (some c :: gs.map Glyph.outline)) (hd : d ∈ (written gs).head?) :
    opensComment c d = false := by
  cases gs with
  | nil => cases hd
  | cons next gs =>
    have hmeets := (List.isChain_cons_cons.mp heven.chain).1
    cases hnext : next.outline with
    | some e =>
      obtain rfl := Glyph.eq_bare hnext
      obtain rfl : e = d := by simpa [written, Glyph.written] using hd
      simpa [meets, Glyph.outline] using hmeets
    | none =>
      obtain ⟨quote, hquote, ⟨more, hmore⟩, -⟩ := Glyph.kinds_quoted hnext
      obtain rfl : quote = d := by simpa [written, hmore] using hd
      exact opensComment_of_separates (separates_of_isQuote hquote) c

/-- Woven pieces have no comments, so that they stay when their contents do. -/
theorem stripFrom_written {gs : List Glyph} (heven : Even (gs.map Glyph.outline))
    (h : ∀ g ∈ gs, g.outline = none → g.kind.isPaired) (previous : Option Char) :
    stripFrom (.code previous) (written gs) = written gs := by
  induction gs generalizing previous with
  | nil => rfl
  | cons g gs ih =>
    have hwritten : written (g :: gs) = g.written ++ written gs := List.flatMap_cons
    have hrest := ih (heven.suffix (List.suffix_cons _ _)) fun k hk =>
      h k (List.mem_cons_of_mem g hk)
    rw [hwritten]
    cases hg : g.outline with
    | none =>
      obtain ⟨quote, hquoted⟩ :=
        stripFrom_quoted hg (h g List.mem_cons_self hg) previous (written gs)
      rw [hquoted, hrest]
    | some c =>
      obtain rfl := Glyph.eq_bare hg
      have hbare := isQuote_of_isBare (heven.bare c List.mem_cons_self)
      have hquotes : c ≠ '"' ∧ c ≠ '\'' := by simpa [Query.isQuote] using hbare
      have hnext : ∀ d ∈ (written gs).head?, opensComment c d = false :=
        fun d hd => not_opensComment_of_even heven hd
      rw [Glyph.written, List.singleton_append, stripFrom_code previous hquotes ?_ ?_, hrest]
      · rintro rfl hd
        simpa [opensComment] using hnext _ hd
      · rintro rfl
        refine ⟨fun hd => ?_, fun hd => ?_⟩
        · simpa [opensComment] using hnext _ hd
        · simpa [opensComment] using hnext _ hd

/-- A text in which nothing opens a comment stays, whatever the quotes in it are taken for. -/
theorem stripFrom_of_isChain {place : Place} {cs : List Char}
    (hplace : (∃ previous, place = .code previous) ∨ ∃ quote, place = .literal quote)
    (h : cs.IsChain fun a b => opensComment a b = false) : stripFrom place cs = cs := by
  fun_induction stripFrom place cs with
  | case1 => rfl
  | case2 => rfl
  | case3 quote c rest ih => rw [ih (.inr ⟨_, rfl⟩) h.tail.tail]
  | case4 quote c rest _ _ ih =>
    rw [ih ?_ h.tail]
    split
    · exact .inl ⟨_, rfl⟩
    · exact .inr ⟨_, rfl⟩
  | case5 | case6 | case7 | case8 => simp at hplace
  | case9 | case10 | case11 | case12 => cases (List.isChain_cons_cons.mp h).1
  | case13 previous c rest _ _ _ ih =>
    rw [ih ?_ h.tail]
    split
    · exact .inr ⟨_, rfl⟩
    · exact .inl ⟨_, rfl⟩

theorem getLast?_written {gs : List Glyph}
    (h : ∃ last ∈ (gs.map Glyph.outline).getLast?, closes last) :
    ∀ c ∈ (written gs).getLast?, Text.isBlank c = false := by
  obtain ⟨last, hlast, hcloses⟩ := h
  rcases List.eq_nil_or_concat gs with rfl | ⟨front, g, rfl⟩
  · cases hlast
  obtain rfl : g.outline = last := by simpa using hlast
  intro c hc
  cases g with
  | bare d =>
    obtain rfl : d = c := by simpa [written, Glyph.written] using hc
    simpa [closes, Glyph.outline] using hcloses
  | name content =>
    obtain rfl : '"' = c := by
      simpa [written, Glyph.written, quoteName, Text.enclosed, List.getLast?_append,
        List.getLast?_cons] using hc
    rfl
  | text content =>
    obtain rfl : '\'' = c := by
      simpa [written, Glyph.written, quoteText, Text.enclosed, List.getLast?_append,
        List.getLast?_cons] using hc
    rfl

end Sql

/-! ## Recognition -/

/-- A text that starts with the word `SELECT` and a space is recognized behind its cleaning. -/
theorem split_select {cs rest : List Char} (hcs : cs = "SELECT ".toList ++ rest)
    (h : occurs placeholder cs = false) : split cs = .ok (.sql (clean cs)) := by
  have hclean : ∃ more, clean cs = "SELECT".toList ++ Text.trimEnd (' ' :: more) := by
    refine ⟨stripFrom (.code (some ' ')) rest, ?_⟩
    have hstrip : stripComments cs =
        "SELECT".toList ++ ' ' :: stripFrom (.code (some ' ')) rest := by
      rw [stripComments, hcs, stripFrom_append (by simp)]
      rfl
    rw [clean, dropPlaceholder_eq h, hstrip, Text.trim]
    exact @trimEnd_append "SELECT".toList (by decide) _
  obtain ⟨more, hmore⟩ := hclean
  have hsql : isSql (clean cs) := by
    obtain ⟨tail, htail⟩ := trimEnd_isPrefix (' ' :: more)
    rw [hmore]
    generalize Text.trimEnd (' ' :: more) = behind at htail
    cases behind with
    | nil => decide
    | cons c behind =>
      obtain ⟨rfl, -⟩ := List.cons_eq_cons.mp htail
      rfl
  have hne : (clean cs).isEmpty = false := by
    rw [hmore]
    rfl
  rw [split]
  simp only [hne, hsql, Bool.false_eq_true, if_false, if_true]

theorem compile_of_split {again : CompileOptions} {text : String} {query : List Char}
    (h : split text.toList = .ok (.sql query)) :
    compile again text = .ok (String.ofList query) := by
  rw [compile, Request.ofText, h]
  rfl

/-- What a pipeline is compiled to is recognized as SQL by whatever compiles it again, and comes
back cleaned, unless the placeholder occurs in it. It comes back as it is if, in each quoted name
and text of it, each backslash stands in front of another character than the quote, or if no two
characters of it would open a comment. -/
theorem compile_compile {options : CompileOptions} {query sql : String} {plan : Plan}
    (hquery : Request.ofText options query = .ok (.plan plan))
    (hsql : compile options query = .ok sql) (hplaceholder : occurs placeholder sql.toList = false)
    (again : CompileOptions) :
    compile again sql = .ok (String.ofList (clean sql.toList)) ∧
      ((∀ kind ∈ Sql.kinds sql.toList, kind.isPaired) ∨
          (sql.toList.IsChain fun a b => Sql.opensComment a b = false) →
        compile again sql = .ok sql) := by
  have hselect : Sql.select options.dialect plan = .ok sql := by
    rw [compile, hquery] at hsql
    exact hsql
  obtain ⟨rest, hrest⟩ := Sql.exists_select hselect
  have hcleaned : compile again sql = .ok (String.ofList (clean sql.toList)) :=
    compile_of_split (split_select hrest hplaceholder)
  refine ⟨hcleaned, fun hcontents => ?_⟩
  obtain ⟨gs, hwritten, heven, last, hlast, hcloses⟩ :=
    Sql.exists_written_select (spelled_of_ofText hquery) hselect
  have hstrip : stripComments sql.toList = sql.toList := by
    rcases hcontents with hpaired | hchain
    · rw [hwritten] at hpaired ⊢
      exact Sql.stripFrom_written heven
        (fun g hg hquoted => hpaired _ (Sql.mem_kinds_written heven hg hquoted)) none
    · exact Sql.stripFrom_of_isChain (.inl ⟨none, rfl⟩) hchain
  have hclean : clean sql.toList = sql.toList := by
    rw [clean, dropPlaceholder_eq hplaceholder, hstrip]
    refine trim_eq (fun c hc => ?_) fun c hc => ?_
    · obtain rfl : 'S' = c := by simpa [hrest] using hc
      rfl
    · exact Sql.getLast?_written ⟨last, hlast, hcloses⟩ c (hwritten ▸ hc)
  rw [hcleaned, hclean, String.ofList_toList]

theorem compile_compile_comparison :
    compile {} "SELECT * FROM \"T\" WHERE a = 'x'" =
      .ok "SELECT * FROM \"T\" WHERE a = 'x'" := by
  have hquery := @ofText_comparison '"' "x" rfl (by decide)
  have hsql := @compile_comparison '"' "x" rfl (by decide)
  exact (compile_compile hquery hsql (by decide) {}).2 (.inl (by decide +kernel))

/-- A text of a backslash, a quote and what looks like a comment comes back without the comment. -/
theorem not_compile_compile_slashes :
    ¬ ∀ (query sql : String) (plan : Plan), Request.ofText {} query = .ok (.plan plan) →
      compile {} query = .ok sql → compile {} sql = .ok sql := by
  intro h
  have hquery := @ofText_comparison '"' "\\'//x" rfl (by decide)
  have hsql := @compile_comparison '"' "\\'//x" rfl (by decide)
  have hsame := h _ _ _ hquery hsql
  have hsplit := @split_select ("SELECT * FROM \"T\" WHERE a = " ++ Sql.quoteText "\\'//x").toList
    "* FROM \"T\" WHERE a = '\\''//x'".toList (by decide) (by decide)
  rw [compile_of_split hsplit] at hsame
  exact absurd (Except.ok.inj hsame) (by decide)

end PipeSql
