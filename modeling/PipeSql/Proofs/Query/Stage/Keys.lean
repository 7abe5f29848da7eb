import PipeSql.Plan.Fold
import PipeSql.Proofs.Query.Expr.Completeness
import PipeSql.Proofs.Query.Expr.Unsplit
import PipeSql.Proofs.Query.Pieces

/-! # Key columns of a join, spelled in two ways

A list of names, or the equalities of their columns on both sides. Main statement: how a join reads
the two texts. -/

namespace PipeSql.Query

open PipeSql.Text

variable {side key table text : String} {keys : List String} {ts : List Token} {ks : List TokenKind}

/-! ## Columns of a side -/

/-- The name of a column as one token, without table. -/
structure IsKey (key : String) : Prop where
  spells : Spells (.ident key) key
  not_dot : '.' ∉ key.toList

/-- A word like those for the sides of a join: a dollar sign and a plain name. -/
def IsSide (side : String) : Prop :=
  ∃ front, side.toList = '$' :: front ∧ ∀ c ∈ front, continuesName c

theorem isSide_left : IsSide "$left" :=
  ⟨"left".toList, rfl, by decide⟩

theorem isSide_right : IsSide "$right" :=
  ⟨"right".toList, rfl, by decide⟩

theorem nameLength_dotted {front body : List Char} {c : Char}
    (hfront : ∀ d ∈ front, continuesName d) (hc : startsName c)
    (hbody : nameLength body = body.length) :
    nameLength (front ++ '.' :: c :: body) = (front ++ '.' :: c :: body).length := by
  induction front with
  | nil =>
    have hlength : nameLength (c :: body) = body.length + 1 := by
      rw [nameLength, if_pos (by simp [continuesName_of_startsName hc]), hbody]
    rw [List.nil_append, nameLength, if_pos (by simp [hc]), hlength]
    rfl
  | cons d front ih =>
    obtain ⟨hd, hfront⟩ := List.forall_mem_cons.mp hfront
    rw [List.cons_append, nameLength, if_pos (by simp [hd]), ih hfront, List.length_cons]

theorem toList_dotted {front : List Char} (h : side.toList = '$' :: front) (key : String) :
    (side ++ "." ++ key).toList = '$' :: (front ++ '.' :: key.toList) := by
  simp [String.toList_append, h]

theorem scans_dotted (hside : IsSide side) (hkey : IsKey key) :
    Scans Ends (side ++ "." ++ key).toList [.ident (side ++ "." ++ key)] := by
  obtain ⟨front, hlist, hfront⟩ := hside
  obtain ⟨c, body, hbody, -, -, -, -, hname, hlength⟩ := hkey.spells.exists_word
  have hscan : Scans Ends ('$' :: (front ++ '.' :: key.toList))
      [.ident (String.ofList ('$' :: (front ++ '.' :: key.toList)))] :=
    scans_word (by decide) (by decide) (by decide) (by decide) (by decide)
      (by rw [hbody]; exact nameLength_dotted hfront hname hlength)
  rwa [← toList_dotted hlist, String.ofList_toList] at hscan

theorem ofPath_dotted (table : String) (hdot : '.' ∉ key.toList) :
    Column.ofPath (table ++ "." ++ key) = .of table key := by
  have hkey : ∀ c ∈ key.toList.reverse, (c != '.') = true := by
    intro c hc
    rw [bne_iff_ne]
    rintro rfl
    exact hdot (List.mem_reverse.mp hc)
  have hreverse : (table ++ "." ++ key).toList.reverse =
      key.toList.reverse ++ '.' :: table.toList.reverse := by
    simp [String.toList_append]
  have hdrop : (table ++ "." ++ key).toList.reverse.dropWhile (· != '.') =
      '.' :: table.toList.reverse := by
    rw [hreverse, List.dropWhile_append_of_pos hkey, List.dropWhile_cons_of_neg (by decide)]
  have htake : (table ++ "." ++ key).toList.reverse.takeWhile (· != '.') = key.toList.reverse := by
    rw [hreverse, List.takeWhile_append_of_pos hkey, List.takeWhile_cons_of_neg (by decide),
      List.append_nil]
  simp only [Column.ofPath, hdrop, htake, List.reverse_reverse, String.ofList_toList]

/-- No column of a side is read as a truth value. -/
theorem derives_dotted (hside : IsSide side) (hdot : '.' ∉ key.toList) :
    Derives .primary [.ident (side ++ "." ++ key)] (.column (.of side key)) := by
  obtain ⟨front, hlist, -⟩ := hside
  rw [← ofPath_dotted side hdot]
  refine .column ?_ ?_ <;> rw [agree_iff, toList_dotted hlist] <;> intro h <;>
    exact absurd (List.cons.inj h).1 (by decide)

/-! ## Equal columns on both sides -/

/-- The text that equates the columns of a name on both sides. -/
def sidesText (key : String) : String :=
  "$left." ++ key ++ " == $right." ++ key

/-- The tokens of that text. -/
def sidesKinds (key : String) : List TokenKind :=
  [.ident ("$left" ++ "." ++ key), .equal, .ident ("$right" ++ "." ++ key)]

theorem scans_sidesText (hkey : IsKey key) :
    Scans Ends (sidesText key).toList (sidesKinds key) := by
  have hequal : Scans Anything (' ' :: (['=', '='] ++ [' '])) [.equal] :=
    scans_spaced ((scans_pair (by decide) rfl).imp fun _ _ => trivial)
  have hright : Scans Ends (' ' :: (['=', '=', ' '] ++ ("$right" ++ "." ++ key).toList))
      [.equal, .ident ("$right" ++ "." ++ key)] :=
    hequal.append (scans_dotted isSide_right hkey) fun _ _ => trivial
  have htext : (sidesText key).toList = ("$left" ++ "." ++ key).toList ++
      ' ' :: (['=', '=', ' '] ++ ("$right" ++ "." ++ key).toList) := by
    simp [sidesText, String.toList_append]
  rw [htext]
  exact (scans_dotted isSide_left hkey).append_break hright (by decide)

theorem derives_sides (hdot : '.' ∉ key.toList) :
    Derives .comparison (sidesKinds key) (keyEquality "$left" "$right" key) := by
  have hcolumn : ∀ side, IsSide side →
      Derives (.chain .sum) [.ident (side ++ "." ++ key)] (.column (.of side key)) :=
    fun side hside => (derives_dotted hside hdot).loosen (by decide)
  exact .relate (hcolumn "$left" isSide_left) .equal (hcolumn "$right" isSide_right)

theorem operatorOf?_and : Chain.conjunction.operatorOf? (.ident "and") = some (.connect .and) :=
  if_pos (agree_iff.mpr rfl)

/-- The equalities are read from the left, each with those before it. -/
theorem derives_sidesEqual (key : String) (keys : List String)
    (h : ∀ k ∈ key :: keys, '.' ∉ k.toList) :
    Derives (.chain .conjunction)
      (sidesKinds key ++ keys.flatMap fun k => .ident "and" :: sidesKinds k)
      (keysEqual "$left" "$right" (key :: keys)) := by
  obtain ⟨hkey, hkeys⟩ := List.forall_mem_cons.mp h
  rw [keysEqual]
  generalize hks : sidesKinds key = ks
  generalize hall : keyEquality "$left" "$right" key = all
  have hfirst : Derives (.chain .conjunction) ks all :=
    hks ▸ hall ▸ .operand .conjunction (derives_sides hkey)
  clear hks hall h
  induction keys generalizing ks all with
  | nil => simpa using hfirst
  | cons next keys ih =>
    obtain ⟨hnext, hkeys⟩ := List.forall_mem_cons.mp hkeys
    have hlink : Derives (.chain .conjunction) (ks ++ .ident "and" :: sidesKinds next)
        (.binary (.connect .and) all (keyEquality "$left" "$right" next)) :=
      .link hfirst operatorOf?_and (derives_sides hnext)
    rw [List.flatMap_cons, ← List.append_assoc, List.foldl_cons]
    exact ih hkeys _ _ hlink

/-! ## The table of a join -/

/-- A text from which a join reads its table: it has no blanks at its ends, and none of its tokens
is `on`, or the sign behind `kind`. -/
structure TableText (text table : String) : Prop where
  head : ∀ c ∈ text.toList.head?, isBlank c = false
  last : ∀ c ∈ text.toList.getLast?, isBlank c = false
  tokens : ∃ ts, tokens text.toList = .ok ts ∧
    ∀ token ∈ ts, token.isKeyword "on" = false ∧ token.kind ≠ .assign
  name : tableName? (unwrapped text.toList) = some table

theorem TableText.ne_nil (h : TableText text table) : text.toList ≠ [] := by
  intro hnil
  have hname := h.name
  rw [hnil] at hname
  cases hname

theorem Unbroken.tableText (h : Unbroken text.toList) (havoids : AvoidsOn text.toList)
    (hname : tableName? (unwrapped text.toList) = some table) : TableText text table where
  head c hc := h.not_isBlank c (List.mem_of_mem_head? hc)
  last c hc := h.not_isBlank c (List.mem_of_mem_getLast? hc)
  tokens := havoids.imp fun _ hts => ⟨hts.1, fun token htoken =>
    ⟨hts.2 token htoken, (tokensFrom_separator hts.1 h.not_separator token htoken).2⟩⟩
  name := hname

/-- Plain names that have tokens are such texts, with or without parentheses around them. -/
theorem tableText_of_isTableName (h : IsTableName table.toList) (havoids : AvoidsOn table.toList) :
    TableText table table ∧ TableText ("(" ++ table ++ ")") table := by
  have hname := tableName?_of_isTableName h
  have hwrapped : ("(" ++ table ++ ")").toList = '(' :: (table.toList ++ [')']) := by
    simp [String.toList_append]
  rw [String.ofList_toList] at hname
  constructor
  · exact h.unbroken.tableText havoids (by rwa [unwrapped_of_isTableName h])
  · refine Unbroken.tableText ?_ ?_ ?_ <;> rw [hwrapped]
    · exact h.unbroken.wrapped
    · exact (avoidsOn_wrapped_iff h.unbroken).mpr havoids
    · rwa [unwrapped_wrapped]

/-- A join reads its table, and then its condition from the tokens behind `on`. -/
theorem exists_parseStage_join {condition : String} (htext : TableText text table)
    (hcondition : Scans Ends condition.toList ks) (hne : ks ≠ [])
    (hassign : ∀ kind ∈ ks, kind ≠ .assign) :
    ∃ arguments ts, ts.map Token.kind = ks ∧
      parseStage ("join " ++ text ++ " on " ++ condition).toList =
        (parseJoinCondition arguments ts).map (.join .inner table) := by
  have hword : Scans Ends "on".toList [.ident "on"] :=
    scans_word (by decide) (by decide) (by decide) (by decide) (by decide) (by decide)
  obtain ⟨ts₀, hts₀, hplain₀⟩ := htext.tokens
  obtain ⟨front, hfront, hkinds⟩ := exists_tokensFrom_shift hts₀ 1
  have hplain : ∀ token ∈ front, token.isKeyword "on" = false ∧ token.kind ≠ .assign := by
    intro token htoken
    have hmem : token.kind ∈ ts₀.map Token.kind := hkinds ▸ List.mem_map_of_mem htoken
    obtain ⟨other, hother, hkind⟩ := List.mem_map.mp hmem
    simpa [Token.isKeyword, hkind] using hplain₀ other hother
  -- behind the table stand `on` and the condition
  obtain ⟨behind, hbehind, hall⟩ := (hword.behind hcondition).tokensFrom_eq
    (1 + byteSize text.toList)
  obtain ⟨on, ts, rfl, hon, hts⟩ := List.map_eq_cons_iff.mp hall
  obtain ⟨arguments, harguments⟩ : ∃ arguments, arguments =
      ' ' :: (text.toList ++ ' ' :: ("on".toList ++ ' ' :: condition.toList)) := ⟨_, rfl⟩
  have hone : 0 + (' ' : Char).utf8Size = 1 := rfl
  have htokens : tokens arguments = .ok (front ++ on :: ts) := by
    rw [harguments, tokens, tokensFrom_blank (by decide), hone,
      tokensFrom_append_of_ends hfront (by simp [Ends, isBreak]), hbehind]
    rfl
  have hsource : sourceOf arguments front = text.toList := by
    have hstart : tokensFrom (byteSize [' ']) text.toList = .ok front := hfront
    rw [harguments]
    exact sourceOf_append hstart htext.ne_nil htext.head htext.last _
  have hassign' : ∀ token ∈ front ++ on :: ts, token.kind ≠ .assign := by
    intro token htoken
    rcases List.mem_append.mp htoken with hmem | hmem
    · exact (hplain token hmem).2
    · rcases List.mem_cons.mp hmem with rfl | hmem
      · simp [hon]
      · exact hassign _ (hts ▸ List.mem_map_of_mem hmem)
  have hkeyword : on.isKeyword "on" := by
    rw [Token.isKeyword, hon]
    exact agree_iff.mpr rfl
  have hne' : ts ≠ [] := by
    rintro rfl
    exact hne hts.symm
  have hstage : ("join " ++ text ++ " on " ++ condition).toList =
      "join".toList ++ ' ' :: (text.toList ++ ' ' :: ("on".toList ++ ' ' :: condition.toList)) := by
    simp [String.toList_append]
  refine ⟨arguments, ts, hts, ?_⟩
  rw [hstage, parseStage_join, ← harguments, parseJoin_split htokens hassign'
    (fun token htoken => (hplain token htoken).1) hkeyword hne', hsource, htext.name]

/-! ## The two spellings -/

theorem scans_names (key : String) (keys : List String) (h : ∀ k ∈ key :: keys, IsKey k) :
    Scans Ends (", ".intercalate (key :: keys)).toList
      ([.ident key] ++ keys.flatMap fun k => [.comma, .ident k]) := by
  have hsep : ∀ {cs ks}, Scans Ends cs ks → Scans Ends (", ".toList ++ cs) (.comma :: ks) := by
    intro cs ks hcs
    have hblank : Scans Ends (' ' :: cs) ks :=
      (Scans.blank (by decide)).append hcs fun _ _ => trivial
    exact hblank.comma
  have hscan := scans_intercalate (f := id) ⟨',', [' '], rfl, by decide⟩ hsep key keys
    fun k hk => (h k hk).spells.name
  rwa [List.map_id] at hscan

theorem scans_equalities (key : String) (keys : List String) (h : ∀ k ∈ key :: keys, IsKey k) :
    Scans Ends (" and ".intercalate ((key :: keys).map sidesText)).toList
      (sidesKinds key ++ keys.flatMap fun k => .ident "and" :: sidesKinds k) := by
  have hand : Scans Ends "and".toList [.ident "and"] :=
    scans_word (by decide) (by decide) (by decide) (by decide) (by decide) (by decide)
  have hsep : ∀ {cs ks}, Scans Ends cs ks →
      Scans Ends (" and ".toList ++ cs) (.ident "and" :: ks) := fun hcs => hand.behind hcs
  exact scans_intercalate ⟨' ', "and ".toList, rfl, by decide⟩ hsep key keys
    fun k hk => scans_sidesText (h k hk)

theorem Unsplit.ident {token : Token} (h : token.kind = .ident key) :
    Unsplit 0 ([token].map Token.kind) := by
  rw [List.map_singleton, h]
  exact .single (isInner_ident key)

/-- A list of names is read as key columns. -/
theorem mapM_joinKey? (key : String) (keys : List String) (h : ∀ k ∈ key :: keys, '.' ∉ k.toList)
    (hts : ts.map Token.kind = .ident key :: keys.flatMap fun k => [.comma, .ident k]) :
    (splitCommas ts).mapM joinKey? = some (key :: keys) := by
  induction keys generalizing key ts with
  | nil =>
    obtain ⟨token, rfl, hkind⟩ := List.map_eq_singleton_iff.mp hts
    rw [(Unsplit.ident hkind).splitCommas_eq]
    simp [joinKey?_singleton hkind (h key List.mem_cons_self)]
  | cons next keys ih =>
    obtain ⟨hkey, hkeys⟩ := List.forall_mem_cons.mp h
    obtain ⟨token, behind, rfl, hkind, hbehind⟩ := List.map_eq_cons_iff.mp hts
    obtain ⟨comma, back, rfl, hcomma, hback⟩ := List.map_eq_cons_iff.mp hbehind
    rw [← List.singleton_append, (Unsplit.ident hkind).splitCommas_comma hcomma, List.mapM_cons,
      joinKey?_singleton hkind hkey, ih next hkeys hback]
    rfl

/-- An expression of several tokens, and without commas, is read as a condition. -/
theorem parseJoinCondition_of_derives {arguments : List Char} {e : Expr}
    (h : Derives (.chain .disjunction) (ts.map Token.kind) e) (hlength : 1 < ts.length) :
    parseJoinCondition arguments ts = .ok (.condition e) := by
  have hkey : joinKey? ts = none := Option.eq_none_iff_forall_ne_some.mpr fun name hname => by
    have := length_of_joinKey? hname
    omega
  rw [parseJoinCondition, h.unsplit.splitCommas_eq]
  simp only [List.mapM_cons, hkey, Expr.ofTokens_of_derives arguments h]
  rfl

/-- A join reads names behind `on` as key columns, and the equalities of the columns of these names
on both sides as a condition, the conjunction of all of them. -/
theorem parseStage_join_keys (htext : TableText text table) (hkeys : ∀ key ∈ keys, IsKey key)
    (hne : keys ≠ []) :
    parseStage ("join " ++ text ++ " on " ++ ", ".intercalate keys).toList =
        .ok (.join .inner table (.keys keys)) ∧
      parseStage ("join " ++ text ++ " on " ++ " and ".intercalate (keys.map sidesText)).toList =
        .ok (.join .inner table (.condition (keysEqual "$left" "$right" keys))) := by
  obtain ⟨key, keys, rfl⟩ := List.exists_cons_of_ne_nil hne
  have hdots : ∀ k ∈ key :: keys, '.' ∉ k.toList := fun k hk => (hkeys k hk).not_dot
  constructor
  · obtain ⟨arguments, ts, hts, hstage⟩ :=
      exists_parseStage_join htext (scans_names key keys hkeys) (by simp) (by
        rintro _ hassign rfl
        simp at hassign)
    rw [hstage, parseJoinCondition, mapM_joinKey? key keys hdots hts]
    rfl
  · have hderives := (derives_sidesEqual key keys hdots).loosen
      (show _ ≤ (Level.chain .disjunction).rank by decide)
    obtain ⟨arguments, ts, hts, hstage⟩ :=
      exists_parseStage_join htext (scans_equalities key keys hkeys) (by simp [sidesKinds])
        (by
          rintro _ hassign rfl
          simp [sidesKinds] at hassign)
    have hlength : 1 < ts.length := by
      rw [← List.length_map Token.kind, hts]
      simp [sidesKinds]
    rw [hstage, parseJoinCondition_of_derives (hts ▸ hderives) hlength]
    rfl

end PipeSql.Query
