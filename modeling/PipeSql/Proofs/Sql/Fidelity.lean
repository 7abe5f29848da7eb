import PipeSql.Compile
import PipeSql.Proofs.Query.Literal
import PipeSql.Proofs.Sql.Lexical
import PipeSql.Proofs.Sql.Spelling

/-! # Literals and names arrive as they were written

Whatever text an escaped literal stands for, the SQL that its query is compiled to holds that text,
as a text or as a name. -/

namespace PipeSql

open Query

variable {quote : Char} {s : String}

/-- A literal as it stands in a query. -/
abbrev literalChars (quote : Char) (s : String) : List Char :=
  quote :: (escaped quote s.toList ++ [quote])

theorem trim_literal (hquote : isQuote quote) (front : List Char)
    (hfront : ∃ c ∈ front.head?, Text.isBlank c = false) :
    Text.trim (front ++ literalChars quote s) = front ++ literalChars quote s := by
  refine trim_eq ?_ ?_
  · obtain ⟨c, hc, hblank⟩ := hfront
    obtain ⟨rest, rfl⟩ := List.head?_eq_some_iff.mp hc
    intro d hd
    obtain rfl : c = d := by simpa using hd
    exact hblank
  · intro c hc
    obtain rfl : quote = c := by simpa [List.getLast?_append, List.getLast?_cons] using hc
    rcases isQuote_iff.mp hquote with rfl | rfl <;> rfl

/-! ## A comparison -/

theorem split_comparison (hquote : isQuote quote) (hs : occurs placeholder s.toList = false) :
    split ("T | where a == ".toList ++ literalChars quote s) =
      .ok (.stages [['T'], "where a == ".toList ++ literalChars quote s]) := by
  have hclean : clean ("T | where a == ".toList ++ literalChars quote s) =
      "T | where a == ".toList ++ literalChars quote s :=
    clean_literal hquote hs (by decide) (by decide)
  have hinner : piecesFrom (some quote) 0 (escaped quote s.toList ++ [quote]) =
      [escaped quote s.toList ++ [quote]] := by
    rw [piecesFrom_escaped hquote, piecesFrom]
    simp [prepend]
  have hpieces : pieces ("T | where a == ".toList ++ literalChars quote s) =
      [['T', ' '], " where a == ".toList ++ literalChars quote s] := by
    have hbar : "T | where a == ".toList ++ literalChars quote s =
        ['T', ' '] ++ '|' :: (" where a == ".toList ++ literalChars quote s) := rfl
    have hcut : piecesFrom none 0 ('|' :: (" where a == ".toList ++ literalChars quote s)) =
        [] :: piecesFrom none 0 (" where a == ".toList ++ literalChars quote s) := by
      rw [piecesFrom.eq_def]
      rfl
    rw [pieces, hbar, piecesFrom_append (by decide), hcut, piecesFrom_append (by decide),
      piecesFrom_quote hquote, hinner]
    simp [prepend]
  have htrim : Text.trim (" where a == ".toList ++ literalChars quote s) =
      "where a == ".toList ++ literalChars quote s :=
    trim_literal hquote "where a == ".toList (by decide)
  rw [split, hclean, hpieces]
  simp only [List.map_cons, List.map_nil, htrim]
  rfl

theorem scans_comparison (hquote : isQuote quote) :
    Scans Ends (" a == ".toList ++ literalChars quote s) [.ident "a", .equal, .text s] := by
  have hblank : Scans Anything [' '] [] := .blank (by decide)
  have hname : Scans Ends ['a'] [.ident "a"] := @Sql.scans_isPlain "a" (by decide)
  have hequal : Scans Anything [' ', '=', '=', ' '] [.equal] :=
    scans_spaced ((scans_pair (c := '=') (d := '=') (by decide) rfl).imp fun _ _ => trivial)
  have hliteral := scans_literal hquote s.toList
  rw [String.ofList_toList] at hliteral
  have hleft := (hblank.append hname fun _ _ => trivial).append_break hequal rfl
  exact hleft.append (hliteral.imp fun _ _ => trivial) fun _ _ => trivial

theorem derives_comparison : Derives (.chain .disjunction) [.ident "a", .equal, .text s]
    (.binary (.compare .equal) (.column (.bare "a")) (.text s)) := by
  have hcolumn : Derives .primary [.ident "a"] (.column (.bare "a")) := by
    rw [← @Sql.ofPath_of_isPlain "a" (by decide)]
    exact .column (fun h => absurd (Text.agree_iff.mp h) (by decide))
      fun h => absurd (Text.agree_iff.mp h) (by decide)
  have hleft : Derives (.chain .sum) [.ident "a"] (.column (.bare "a")) :=
    Derives.loosen (.primary hcolumn) (by decide)
  have hright : Derives (.chain .sum) [.text s] (.text s) :=
    Derives.loosen (.primary (.text s)) (by decide)
  exact Derives.loosen (.relate hleft .equal hright) (by decide)

theorem parseStage_comparison (hquote : isQuote quote) :
    parseStage ("where a == ".toList ++ literalChars quote s) =
      .ok (.filter (.binary (.compare .equal) (.column (.bare "a")) (.text s))) := by
  obtain ⟨ts, hts, hkinds⟩ := (scans_comparison (s := s) hquote).tokens_eq
  have hparse : Expr.ofTokens (" a == ".toList ++ literalChars quote s) ts =
      .ok (.binary (.compare .equal) (.column (.bare "a")) (.text s)) :=
    Expr.ofTokens_of_derives _ (hkinds ▸ derives_comparison)
  have hsome : someTokens (" a == ".toList ++ literalChars quote s) = .ok ts := by
    have hne : ts.isEmpty = false := by
      cases ts with
      | nil => cases hkinds
      | cons => rfl
    rw [someTokens, hts]
    simp only [bind, Except.bind, hne]
    rfl
  have hkeyword : String.ofList (("where".toList).map Char.toLower) = "where" := by decide
  have htake : ("where a == ".toList ++ literalChars quote s).takeWhile isKeywordChar =
      "where".toList := rfl
  have hdrop : ("where a == ".toList ++ literalChars quote s).dropWhile isKeywordChar =
      " a == ".toList ++ literalChars quote s := rfl
  unfold parseStage
  rw [htake, hdrop, hkeyword]
  simp only [hsome, hparse, bind, Except.bind]
  rfl

theorem nameText_a : Sql.nameText "a" = "a" := by
  have hlower : "a".toLower = "a" := by
    rw [Text.toLower_eq_map, ← String.toList_inj, String.toList_map]
    decide
  rw [Sql.nameText, hlower]
  decide

/-- The plan of a comparison of the column `a` with a text. -/
def comparisonPlan (s : String) : Plan :=
  { Plan.ofTable "T" with
    filters := [.binary (.compare .equal) (.column (.bare "a")) (.text s)] }

theorem ofText_comparison (hquote : isQuote quote) (hs : occurs placeholder s.toList = false) :
    Request.ofText {} ("T | where a == " ++ literal quote s) = .ok (.plan (comparisonPlan s)) := by
  have htext : ("T | where a == " ++ literal quote s).toList =
      "T | where a == ".toList ++ literalChars quote s := by
    simp [literal]
  have hsource : parseSource ['T'] = .ok (.source "T") := by
    have htable : tableName? ['T'] = some "T" := by decide
    rw [parseSource, htable]
  have hstages : parsePipeline [['T'], "where a == ".toList ++ literalChars quote s] =
      .ok [.source "T", .filter (.binary (.compare .equal) (.column (.bare "a")) (.text s))] := by
    simp only [parsePipeline, hsource, List.mapM_cons, List.mapM_nil,
      parseStage_comparison (s := s) hquote, bind, Except.bind, pure, Except.pure]
  rw [Request.ofText, htext, split_comparison hquote hs]
  simp only [bind, Except.bind, hstages]
  rfl

theorem select_comparisonPlan (s : String) :
    Sql.select .sqlite (comparisonPlan s) =
      .ok ("SELECT * FROM \"T\" WHERE a = " ++ Sql.quoteText s) := by
  have hwritten : Sql.select .sqlite (comparisonPlan s) =
      .ok ("SELECT " ++ "*" ++ " FROM " ++ Sql.quoteName "T" ++ String.join [] ++ (" WHERE " ++
        (Sql.nameText "a" ++ " " ++ "=" ++ " " ++ Sql.quoteText s ++ "")) ++ "" ++ "" ++ "") :=
    rfl
  have hfront : "SELECT " ++ "*" ++ " FROM " ++ Sql.quoteName "T" ++ String.join [] =
      "SELECT * FROM \"T\"" := by decide
  have hcomparison : " WHERE " ++ ("a" ++ " " ++ "=" ++ " " ++ Sql.quoteText s ++ "") =
      " WHERE a = " ++ Sql.quoteText s := by
    rw [String.append_empty, ← String.append_assoc]
    rfl
  rw [hwritten, nameText_a, hfront, hcomparison, String.append_empty, String.append_empty,
    String.append_empty, ← String.append_assoc]
  rfl

theorem compile_comparison (hquote : isQuote quote) (hs : occurs placeholder s.toList = false) :
    compile {} ("T | where a == " ++ literal quote s) =
      .ok ("SELECT * FROM \"T\" WHERE a = " ++ Sql.quoteText s) := by
  rw [compile, ofText_comparison hquote hs]
  exact select_comparisonPlan s

/-! ## A name -/

/-- A name in quotes and brackets as it stands in a query. -/
abbrev nameChars (quote : Char) (s : String) : List Char :=
  '[' :: quote :: (escaped quote s.toList ++ [quote, ']'])

theorem trim_name : Text.trim (nameChars quote s) = nameChars quote s := by
  refine trim_eq (fun c hc => ?_) fun c hc => ?_
  · obtain rfl : '[' = c := by simpa using hc
    rfl
  · obtain rfl : ']' = c := by simpa [List.getLast?_append, List.getLast?_cons] using hc
    rfl

theorem split_name (hquote : isQuote quote) (hs : occurs placeholder s.toList = false) :
    split (nameChars quote s) = .ok (.stages [nameChars quote s]) := by
  have hclean : clean (nameChars quote s) = nameChars quote s :=
    @clean_literal _ hquote ['['] [']'] s hs (by decide) (by decide)
  have hpieces : pieces (nameChars quote s) = [nameChars quote s] := by
    have hfront : pieces (nameChars quote s) =
        prepend ['['] (piecesFrom none 0 (quote :: (escaped quote s.toList ++ [quote, ']']))) :=
      @piecesFrom_append ['['] (by decide) 0 _
    have hbehind : piecesFrom none 0 [']'] = [[']']] := rfl
    rw [hfront, piecesFrom_quote hquote, piecesFrom_escaped hquote, hbehind]
    simp [prepend]
  rw [split, hclean, hpieces]
  simp only [List.map_cons, List.map_nil, trim_name]
  rfl

theorem parseSource_name (hquote : isQuote quote) (hne : s ≠ "") :
    parseSource (nameChars quote s) = .ok (.source s) := by
  have hscan := scans_bracketed hquote s.toList
  rw [String.ofList_toList] at hscan
  obtain ⟨start, stop, hspells⟩ : Spells (.quotedIdent s) (String.ofList (nameChars quote s)) := by
    refine Scans.spells ?_
    rw [String.toList_ofList]
    exact hscan.imp fun _ _ => trivial
  rw [String.toList_ofList] at hspells
  have hempty : s.isEmpty = false := by
    rw [Bool.eq_false_iff]
    exact fun h => hne (String.isEmpty_iff.mp h)
  have htable : tableName? (nameChars quote s) = some s := by
    rw [tableName?, trim_name]
    simp only [List.head?_cons, if_true, hspells, hempty]
    rfl
  rw [parseSource, htable]

theorem compile_name (hquote : isQuote quote) (hs : occurs placeholder s.toList = false)
    (hne : s ≠ "") :
    compile {} ("[" ++ literal quote s ++ "]") = .ok ("SELECT * FROM " ++ Sql.quoteName s) := by
  have htext : ("[" ++ literal quote s ++ "]").toList = nameChars quote s := by
    simp [literal]
  have hstages : parsePipeline [nameChars quote s] = .ok [.source s] := by
    simp only [parsePipeline, parseSource_name hquote hne, List.mapM_nil, bind, Except.bind, pure,
      Except.pure]
  have hrequest : Request.ofText {} ("[" ++ literal quote s ++ "]") =
      .ok (.plan (Plan.ofTable s)) := by
    rw [Request.ofText, htext, split_name hquote hs]
    simp only [bind, Except.bind, hstages]
    rfl
  have hwritten : Sql.select .sqlite (Plan.ofTable s) = .ok ("SELECT " ++ "*" ++ " FROM " ++
      Sql.quoteName s ++ String.join [] ++ "" ++ "" ++ "" ++ "") := rfl
  have hjoin : String.join [] = "" := rfl
  rw [compile, hrequest]
  simp only [bind, Except.bind]
  rw [hwritten, hjoin]
  simp only [String.append_empty]
  rfl

/-- Literals and names arrive in SQL as they were written. A text that the placeholder does not
occur in is written in a query between quotes of either kind, with a backslash in front of each
quote of that kind and of each backslash. The literal becomes a text of SQL that is read as the same
text, and the name, unless it is empty, becomes a name that is read as the same name. -/
theorem compile_literal {quote : Char} (hquote : isQuote quote) {s : String}
    (hs : occurs placeholder s.toList = false) :
    (compile {} ("T | where a == " ++ literal quote s) =
        .ok ("SELECT * FROM \"T\" WHERE a = " ++ Sql.quoteText s) ∧
      Sql.kinds (Sql.quoteText s).toList = [.text s]) ∧
    (s ≠ "" →
      compile {} ("[" ++ literal quote s ++ "]") = .ok ("SELECT * FROM " ++ Sql.quoteName s) ∧
      Sql.kinds (Sql.quoteName s).toList = [.name s]) := by
  refine ⟨⟨compile_comparison hquote hs, ?_⟩, fun hne => ⟨compile_name hquote hs hne, ?_⟩⟩
  · have hkinds := @Sql.kinds_quoteText s [] (by simp)
    rwa [List.append_nil, Sql.kinds] at hkinds
  · have hkinds := @Sql.kinds_quoteName s [] (by simp)
    rwa [List.append_nil, Sql.kinds] at hkinds

theorem compile_literal_pipe :
    compile {} ("T | where a == " ++ literal '\'' "it's | -- \\") =
        .ok ("SELECT * FROM \"T\" WHERE a = " ++ Sql.quoteText "it's | -- \\") ∧
      compile {} ("[" ++ literal '"' "it's | -- \\" ++ "]") =
        .ok ("SELECT * FROM " ++ Sql.quoteName "it's | -- \\") :=
  ⟨(@compile_literal '\'' rfl _ (by decide)).1.1,
    ((@compile_literal '"' rfl _ (by decide)).2 (by decide)).1⟩

end PipeSql
