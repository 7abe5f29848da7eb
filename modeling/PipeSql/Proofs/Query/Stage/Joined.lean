import Mathlib
import PipeSql.Proofs.Query.Clean
import PipeSql.Proofs.Query.Refusal
import PipeSql.Query.Stage.Parse

/-! # Tables that are joined

The first stage of a pipeline reads the name of its table character by character. A join scans the
name first, with all its arguments, and takes the text between the tokens in front of `on`. Main
statement: which tables of a first stage a join takes. -/

namespace PipeSql.Text

/-- The code points of the blanks. -/
def blankCodes : List Nat :=
  [0x20, 0x85, 0xA0, 0x1680, 0x2028, 0x2029, 0x202F, 0x205F, 0x3000] ++ List.range' 0x09 5 ++
    List.range' 0x2000 11

set_option maxRecDepth 4000 in
theorem isAlphanumeric_of_mem_blankCodes :
    ∀ n ∈ blankCodes, isAlphanumeric (Char.ofNat n) = false := by
  decide

theorem isAlphanumeric_of_isBlank {c : Char} (h : isBlank c) : isAlphanumeric c = false := by
  have hcode : c.toNat ∈ blankCodes := by
    simp only [isBlank, Bool.or_eq_true, Bool.and_eq_true, decide_eq_true_eq, beq_iff_eq] at h
    simp only [blankCodes, List.mem_append, List.mem_cons, List.mem_range'_1, List.not_mem_nil]
    omega
  simpa using isAlphanumeric_of_mem_blankCodes c.toNat hcode

end PipeSql.Text

namespace PipeSql.Query

open PipeSql.Text

/-! ## Tokens and the positions of a text

Where a text stands changes the positions of its tokens, and not their kinds. -/

section Shift

variable {start n : Nat} {c : Char} {cs rest : List Char} {kind : TokenKind} {ts : List Token}

theorem toOption_bracketed (start start' : Nat) (rest : List Char) :
    (bracketed start rest).toOption = (bracketed start' rest).toOption := by
  unfold bracketed
  split
  · rfl
  · split
    · split
      · rfl
      · split <;> rfl
    · rfl

theorem toOption_signAt (start start' : Nat) (c : Char) (rest : List Char) :
    (signAt start c rest).toOption = (signAt start' c rest).toOption := by
  unfold signAt
  split
  · rfl
  · split <;> rfl

theorem toOption_lexeme (start start' : Nat) (c : Char) (rest : List Char) :
    (lexeme start c rest).toOption = (lexeme start' c rest).toOption := by
  unfold lexeme
  split
  · split <;> rfl
  split
  · exact toOption_bracketed start start' rest
  split
  · dsimp only
    split <;> rfl
  split
  · rfl
  · exact toOption_signAt start start' c rest

theorem lexeme_shift (h : lexeme start c rest = .ok (kind, n)) (start' : Nat) :
    lexeme start' c rest = .ok (kind, n) := by
  have hoption := toOption_lexeme start' start c rest
  rw [h] at hoption
  cases hlexeme : lexeme start' c rest with
  | error e => simp [hlexeme, Except.toOption] at hoption
  | ok found =>
    rw [hlexeme] at hoption
    exact congrArg _ (Option.some.inj hoption)

theorem exists_tokensFrom_shift (h : tokensFrom start cs = .ok ts) (start' : Nat) :
    ∃ ts', tokensFrom start' cs = .ok ts' ∧ ts'.map Token.kind = ts.map Token.kind := by
  induction start, cs using scan_induction generalizing start' ts with
  | nil start =>
    rw [tokensFrom_nil] at h
    cases h
    exact ⟨[], tokensFrom_nil start', rfl⟩
  | blank start c rest hc ih =>
    rw [tokensFrom_blank hc] at h
    rw [tokensFrom_blank hc]
    exact ih h _
  | stuck start c rest e hc hstuck =>
    rw [tokensFrom_stuck hc hstuck] at h
    cases h
  | lexeme start c rest kind n hc hlexeme ih =>
    rw [tokensFrom_lexeme hc hlexeme] at h
    obtain ⟨more, hmore, rfl⟩ := map_eq_ok_iff.mp h
    obtain ⟨more', hmore', hkinds⟩ := ih hmore (start' + byteSize (c :: rest.take n))
    rw [tokensFrom_lexeme hc (lexeme_shift hlexeme start'), hmore']
    exact ⟨_, rfl, by simp [hkinds]⟩

end Shift

/-- The text has tokens, and none of them is the word `on`. -/
def AvoidsOn (cs : List Char) : Prop :=
  ∃ ts, tokens cs = .ok ts ∧ ∀ token ∈ ts, token.isKeyword "on" = false

/-- The word that a token is depends on its kind only. -/
theorem forall_isKeyword_iff {ts ts' : List Token} (h : ts'.map Token.kind = ts.map Token.kind)
    (word : String) :
    (∀ token ∈ ts', token.isKeyword word = false) ↔ ∀ token ∈ ts, token.isKeyword word = false := by
  have hmap : ts'.map (Token.isKeyword · word) = ts.map (Token.isKeyword · word) := by
    simpa [Function.comp_def, Token.isKeyword] using
      congrArg (List.map fun kind => Token.isKeyword ⟨kind, 0, 0⟩ word) h
  rw [← List.forall_mem_map (f := (Token.isKeyword · word)) (P := (· = false)), hmap,
    List.forall_mem_map]

theorem avoidsOn_iff (start : Nat) {cs : List Char} :
    AvoidsOn cs ↔
      ∃ ts, tokensFrom start cs = .ok ts ∧ ∀ token ∈ ts, token.isKeyword "on" = false := by
  constructor
  · rintro ⟨ts, hts, havoids⟩
    obtain ⟨ts', hts', hkinds⟩ := exists_tokensFrom_shift hts start
    exact ⟨ts', hts', (forall_isKeyword_iff hkinds _).mpr havoids⟩
  · rintro ⟨ts, hts, havoids⟩
    obtain ⟨ts', hts', hkinds⟩ := exists_tokensFrom_shift hts 0
    exact ⟨ts', hts', (forall_isKeyword_iff hkinds _).mpr havoids⟩

/-! ## Texts without separators -/

/-- A text without blanks, quotes, brackets, commas and equals signs. -/
structure Unbroken (cs : List Char) : Prop where
  not_isBlank : ∀ c ∈ cs, isBlank c = false
  not_opensLexeme : ∀ c ∈ cs, opensLexeme c = false
  not_separator : ∀ c ∈ cs, c ≠ ',' ∧ c ≠ '='

section Separators

variable {start n : Nat} {c : Char} {cs rest : List Char} {kind : TokenKind} {ts : List Token}

theorem signAt_separator (h : signAt start c rest = .ok (kind, n)) (hc : c ≠ ',' ∧ c ≠ '=') :
    kind ≠ .comma ∧ kind ≠ .assign := by
  unfold signAt at h
  split at h
  · rename_i hpair
    cases h
    obtain ⟨d, -, hpair⟩ := Option.bind_eq_some_iff.mp hpair
    unfold pairSign? at hpair
    split at hpair <;> cases hpair <;> decide
  · split at h
    · rename_i hsign
      cases h
      unfold sign? at hsign
      split at hsign <;> cases hsign <;> simp_all
    · cases h

theorem lexeme_separator (h : lexeme start c rest = .ok (kind, n)) (hc : c ≠ ',' ∧ c ≠ '=') :
    kind ≠ .comma ∧ kind ≠ .assign := by
  unfold lexeme at h
  split at h
  · split at h <;> cases h
    simp
  split at h
  · obtain ⟨name, rfl⟩ := bracketed_kind h
    simp
  split at h
  · dsimp only at h
    split at h <;> cases h
    simp
  split at h
  · cases h
    simp
  · exact signAt_separator h hc

theorem tokensFrom_separator (h : tokensFrom start cs = .ok ts)
    (hcs : ∀ c ∈ cs, c ≠ ',' ∧ c ≠ '=') :
    ∀ token ∈ ts, token.kind ≠ .comma ∧ token.kind ≠ .assign := by
  induction start, cs using scan_induction generalizing ts with
  | nil start =>
    rw [tokensFrom_nil] at h
    cases h
    simp
  | blank start c rest hc ih =>
    rw [tokensFrom_blank hc] at h
    exact ih h fun c hc => hcs c (List.mem_cons_of_mem _ hc)
  | stuck start c rest e hc hstuck =>
    rw [tokensFrom_stuck hc hstuck] at h
    cases h
  | lexeme start c rest kind n hc hlexeme ih =>
    rw [tokensFrom_lexeme hc hlexeme] at h
    obtain ⟨more, hmore, rfl⟩ := map_eq_ok_iff.mp h
    have hrest := ih hmore fun c hc => hcs c (List.mem_cons_of_mem _ (List.mem_of_mem_drop hc))
    exact List.forall_mem_cons.mpr ⟨lexeme_separator hlexeme (hcs c List.mem_cons_self), hrest⟩

theorem splitCommasFrom_eq {depth : Nat} (h : ∀ token ∈ ts, token.kind ≠ .comma) :
    splitCommasFrom depth ts = [ts] := by
  induction ts generalizing depth with
  | nil => rfl
  | cons token ts ih =>
    obtain ⟨htoken, hts⟩ := List.forall_mem_cons.mp h
    rw [splitCommasFrom, if_neg fun hcomma => htoken hcomma.1, ih hts]
    rfl

end Separators

/-! ## Reading a join -/

section Joins

variable {arguments : List Char} {ts front behind : List Token} {on key : Token}
variable {table name : String}

theorem parseJoinKind_eq (h : ∀ token ∈ ts, token.kind ≠ .assign) :
    parseJoinKind arguments ts = .ok (.inner, ts) := by
  unfold parseJoinKind
  split
  · rename_i word sign value rest
    have hsign := h sign (by simp)
    simp [hsign]
  · rfl

/-- A condition without commas is one key column, or an expression. -/
theorem parseJoinCondition_eq (h : ∀ token ∈ ts, token.kind ≠ .comma) :
    parseJoinCondition arguments ts =
      match joinKey? ts with
      | some name => .ok (.keys [name])
      | none => (Expr.ofTokens arguments ts).map .condition := by
  rw [parseJoinCondition, splitCommas, splitCommasFrom_eq h]
  cases hname : joinKey? ts with
  | some name => simp [hname]
  | none =>
    simp only [List.mapM_cons, hname]
    rfl

theorem joinKey?_singleton (hkey : key.kind = .ident name) (hdot : '.' ∉ name.toList) :
    joinKey? [key] = some name := by
  obtain ⟨kind, start, stop⟩ := key
  obtain rfl : kind = .ident name := hkey
  simp [joinKey?, hdot]

theorem length_of_joinKey? (h : joinKey? ts = some name) : ts.length = 1 := by
  unfold joinKey? at h
  split at h
  · rfl
  · rfl
  · cases h

/-- The first `on` ends the table. -/
theorem parseJoin_split (hts : tokens arguments = .ok (front ++ on :: behind))
    (hassign : ∀ token ∈ front ++ on :: behind, token.kind ≠ .assign)
    (hfront : ∀ token ∈ front, token.isKeyword "on" = false) (hon : on.isKeyword "on")
    (hbehind : behind ≠ []) :
    parseJoin arguments =
      match tableName? (unwrapped (sourceOf arguments front)) with
      | none => .error (.unexpected (unwrapped (sourceOf arguments front))
          ((front.head?.map Token.start).getD 0))
      | some table => (parseJoinCondition arguments behind).map (.join .inner table) := by
  have hsome : someTokens arguments = .ok (front ++ on :: behind) := by
    rw [someTokens, hts]
    simp [bind, Except.bind]
  have hpos : ∀ token ∈ front, (!token.isKeyword "on") = true := fun token htoken => by
    simp [hfront token htoken]
  unfold parseJoin
  rw [hsome]
  simp only [bind, Except.bind, parseJoinKind_eq hassign]
  rw [List.takeWhile_append_of_pos hpos, List.dropWhile_append_of_pos hpos,
    List.takeWhile_cons_of_neg (by simp [hon]), List.dropWhile_cons_of_neg (by simp [hon]),
    List.append_nil]
  simp only [List.isEmpty_iff, hbehind, if_false]
  cases tableName? (unwrapped (sourceOf arguments front)) with
  | none => rfl
  | some table => cases parseJoinCondition arguments behind <;> rfl

theorem exists_first_on (h : ¬∀ token ∈ ts, token.isKeyword "on" = false) :
    ∃ front on behind, ts = front ++ on :: behind ∧
      (∀ token ∈ front, token.isKeyword "on" = false) ∧ on.isKeyword "on" := by
  simp only [not_forall, Bool.not_eq_false] at h
  obtain ⟨token, htoken, hword⟩ := h
  have hfound : (ts.find? (Token.isKeyword · "on")).isSome :=
    List.find?_isSome.mpr ⟨token, htoken, hword⟩
  obtain ⟨on, hfind⟩ := Option.isSome_iff_exists.mp hfound
  obtain ⟨hon, front, behind, rfl, hfront⟩ := List.find?_eq_some_iff_append.mp hfind
  exact ⟨front, on, behind, rfl, by simpa using hfront, hon⟩

/-- The tokens of a table, `on` and a key column are read as the join of the table on that column
if and only if the `on` is the first one. -/
theorem parseJoin_eq_iff (hts : tokens arguments = .ok (ts ++ [on, key]))
    (hplain : ∀ token ∈ ts ++ [on, key], token.kind ≠ .comma ∧ token.kind ≠ .assign)
    (htable : tableName? (unwrapped (sourceOf arguments ts)) = some table)
    (hon : on.isKeyword "on") (hkey : key.kind = .ident name) (hdot : '.' ∉ name.toList) :
    parseJoin arguments = .ok (.join .inner table (.keys [name])) ↔
      ∀ token ∈ ts, token.isKeyword "on" = false := by
  have hcomma := fun token htoken => (hplain token htoken).1
  have hassign := fun token htoken => (hplain token htoken).2
  constructor
  · intro hparse
    by_contra hword
    obtain ⟨front, first, behind, rfl, hfront, hfirst⟩ := exists_first_on hword
    rw [List.append_assoc, List.cons_append] at hts hcomma hassign
    have hcomma' : ∀ token ∈ behind ++ [on, key], token.kind ≠ .comma := fun token htoken =>
      hcomma token (List.mem_append_right front (List.mem_cons_of_mem first htoken))
    -- behind the first `on` there are two tokens at least, which are no key column
    have hkeys : joinKey? (behind ++ [on, key]) = none :=
      Option.eq_none_iff_forall_ne_some.mpr fun name' hname' => by
        simpa using length_of_joinKey? hname'
    rw [parseJoin_split hts hassign hfront hfirst (by simp), parseJoinCondition_eq hcomma',
      hkeys] at hparse
    split at hparse
    · cases hparse
    · obtain ⟨condition, hcondition, heq⟩ := map_eq_ok_iff.mp hparse
      obtain ⟨e, -, rfl⟩ := map_eq_ok_iff.mp hcondition
      cases heq
  · intro havoids
    have hcomma' : ∀ token ∈ [key], token.kind ≠ .comma := fun token htoken =>
      hcomma token (List.mem_append_right ts (List.mem_cons_of_mem on htoken))
    rw [parseJoin_split hts hassign havoids hon (List.cons_ne_nil key []), htable]
    simp only [parseJoinCondition_eq hcomma', joinKey?_singleton hkey hdot]
    rfl

end Joins

/-! ## The text of a join -/

section Texts

variable {joined : List Char} {table name : String}

/-- What stands behind the table. -/
theorem exists_tokensFrom_on (hname : Spells (.ident name) name) (start : Nat) :
    ∃ on key, tokensFrom start (" on ".toList ++ name.toList) = .ok [on, key] ∧
      on.kind = .ident "on" ∧ key.kind = .ident name := by
  have hblank : Scans Anything [' '] [] := .blank (by decide)
  have hword : Scans Ends ['o', 'n'] [.ident "on"] :=
    scans_word (by decide) (by decide) (by decide) (by decide) (by decide) (by decide)
  have hkey : Scans Ends (' ' :: name.toList) [.ident name] :=
    hblank.append hname.name fun _ _ => trivial
  have hbehind : Scans Ends (" on ".toList ++ name.toList) [.ident "on", .ident name] :=
    hblank.append (hword.append_break hkey (by decide)) fun _ _ => trivial
  obtain ⟨ts, hts, hkinds⟩ := hbehind.tokensFrom_eq start
  obtain ⟨on, rest, rfl, hon, hrest⟩ := List.map_eq_cons_iff.mp hkinds
  obtain ⟨key, rest, rfl, hkey, hrest⟩ := List.map_eq_cons_iff.mp hrest
  obtain rfl := List.map_eq_nil_iff.mp hrest
  exact ⟨on, key, hts, hon, hkey⟩

/-- The arguments have the tokens of the table, and behind them `on` and the key column. -/
theorem exists_tokens_join (hjoined : Unbroken joined) (hname : Spells (.ident name) name) :
    ∃ on key, on.kind = .ident "on" ∧ key.kind = .ident name ∧
      tokens (' ' :: (joined ++ (" on ".toList ++ name.toList))) =
        (tokensFrom 1 joined).map (· ++ [on, key]) := by
  obtain ⟨on, key, htail, hon, hkey⟩ := exists_tokensFrom_on hname (1 + byteSize joined)
  refine ⟨on, key, hon, hkey, ?_⟩
  have hblank : " on ".toList ++ name.toList = ' ' :: ("on ".toList ++ name.toList) := rfl
  have hone : 0 + (' ' : Char).utf8Size = 1 := rfl
  rw [tokens, tokensFrom_blank (by decide), hone, hblank,
    tokensFrom_append hjoined.not_opensLexeme (severs_of_isBreak (by decide)), ← hblank, htail]
  cases tokensFrom 1 joined <;> rfl

/-- A join of a table on a key column is read if and only if the text of the table has tokens, and
no `on` among them. -/
theorem parseJoin_text_iff (hjoined : Unbroken joined) (hne : joined ≠ [])
    (htable : tableName? (unwrapped joined) = some table) (hname : Spells (.ident name) name)
    (hdot : '.' ∉ name.toList) :
    parseJoin (' ' :: (joined ++ (" on ".toList ++ name.toList))) =
      .ok (.join .inner table (.keys [name])) ↔ AvoidsOn joined := by
  obtain ⟨on, key, hon, hkey, htokens⟩ := exists_tokens_join hjoined hname
  rw [avoidsOn_iff 1]
  cases hscan : tokensFrom 1 joined with
  | error e =>
    rw [hscan] at htokens
    have hstuck : someTokens (' ' :: (joined ++ (" on ".toList ++ name.toList))) = .error e := by
      rw [someTokens, htokens]
      rfl
    rw [parseJoin, hstuck]
    simp [bind, Except.bind]
  | ok ts =>
    rw [hscan] at htokens
    have hplain : ∀ token ∈ ts ++ [on, key], token.kind ≠ .comma ∧ token.kind ≠ .assign := by
      have hts := tokensFrom_separator hscan hjoined.not_separator
      simpa [or_imp, forall_and, hon, hkey] using hts
    have hbehind : tokensFrom (byteSize [' ']) joined = .ok ts := hscan
    have hsource : sourceOf (' ' :: (joined ++ (" on ".toList ++ name.toList))) ts = joined :=
      sourceOf_append hbehind hne (fun c hc => hjoined.not_isBlank c (List.mem_of_mem_head? hc))
        (fun c hc => hjoined.not_isBlank c (List.mem_of_mem_getLast? hc)) _
    have hword : on.isKeyword "on" := by
      rw [Token.isKeyword, hon]
      exact agree_iff.mpr rfl
    rw [parseJoin_eq_iff htokens hplain (hsource.symm ▸ htable) hword hkey hdot]
    simp

end Texts

/-! ## Tables of the first stage and of a join -/

/-- The characters of a name of a table that stands without brackets. -/
def isTableChar (c : Char) : Bool :=
  isAlphanumeric c || c == '_' || c == '-' || c == '.'

/-- A name of a table that stands without brackets. -/
structure IsTableName (name : List Char) : Prop where
  ne_nil : name ≠ []
  isTableChar : ∀ c ∈ name, isTableChar c

section Tables

variable {c : Char} {name : List Char}

theorem isTableChar_iff : isTableChar c ↔ isAlphanumeric c ∨ c = '_' ∨ c = '-' ∨ c = '.' := by
  simp [isTableChar, or_assoc]

theorem IsTableName.unbroken (h : IsTableName name) : Unbroken name where
  not_isBlank c hc := by
    refine eq_false_of_ne_true fun hblank => ?_
    rcases isTableChar_iff.mp (h.isTableChar c hc) with halphanumeric | rfl | rfl | rfl
    · simp [isAlphanumeric_of_isBlank hblank] at halphanumeric
    all_goals cases hblank
  not_opensLexeme c hc := by
    refine eq_false_of_ne_true fun hopens => ?_
    have htable := h.isTableChar c hc
    rcases opensLexeme_iff.mp hopens with (rfl | rfl) | rfl <;> cases htable
  not_separator c hc := by
    have htable := h.isTableChar c hc
    constructor <;> rintro rfl <;> cases htable

theorem Unbroken.wrapped (h : Unbroken name) : Unbroken ('(' :: (name ++ [')'])) where
  not_isBlank := by simpa [or_imp, forall_and] using ⟨rfl, h.not_isBlank, rfl⟩
  not_opensLexeme := by simpa [or_imp, forall_and] using ⟨rfl, h.not_opensLexeme, rfl⟩
  not_separator := by simpa [or_imp, forall_and] using h.not_separator

theorem tableName?_of_isTableName (h : IsTableName name) :
    tableName? name = some (String.ofList name) := by
  have htrim : trim name = name :=
    trim_eq (fun c hc => h.unbroken.not_isBlank c (List.mem_of_mem_head? hc))
      fun c hc => h.unbroken.not_isBlank c (List.mem_of_mem_getLast? hc)
  have hbracket : name.head? ≠ some '[' := fun hhead => by
    cases h.isTableChar '[' (List.mem_of_mem_head? hhead)
  have hall : (name != [] && name.all isTableChar) = true := by
    simpa [h.ne_nil] using h.isTableChar
  rw [tableName?, htrim]
  simp only [hbracket, if_false]
  exact if_pos hall

theorem unwrapped_of_isTableName (h : IsTableName name) : unwrapped name = name := by
  unfold unwrapped
  split
  · cases h.isTableChar '(' List.mem_cons_self
  · rfl

theorem unwrapped_wrapped (name : List Char) : unwrapped ('(' :: (name ++ [')'])) = name := by
  simp [unwrapped]

/-- Parentheses around a text are tokens of their own. -/
theorem avoidsOn_wrapped_iff (h : Unbroken name) :
    AvoidsOn ('(' :: (name ++ [')'])) ↔ AvoidsOn name := by
  have hopen : Scans Anything ['('] [.openParen] :=
    scans_paren .openParen (by decide) rfl fun _ => rfl
  have hclose : Scans Ends [')'] [.closeParen] :=
    (scans_paren .closeParen (by decide) rfl fun _ => rfl).imp fun _ _ => trivial
  obtain ⟨before, start, hbefore, hfront⟩ := hopen 0 (name ++ [')']) trivial
  obtain ⟨opening, rfl, hopening⟩ := List.map_eq_singleton_iff.mp hbefore
  obtain ⟨behind, hbehind, hkinds⟩ := hclose.tokensFrom_eq (start + byteSize name)
  obtain ⟨closing, rfl, hclosing⟩ := List.map_eq_singleton_iff.mp hkinds
  have hall : tokens ('(' :: (name ++ [')'])) =
      (tokensFrom start name).map fun ts => opening :: (ts ++ [closing]) := by
    rw [tokens, ← List.singleton_append, hfront,
      tokensFrom_append h.not_opensLexeme (severs_of_isBreak (by decide)), hbehind]
    cases tokensFrom start name <;> rfl
  have hopens : opening.isKeyword "on" = false := by rw [Token.isKeyword, hopening]
  have hcloses : closing.isKeyword "on" = false := by rw [Token.isKeyword, hclosing]
  rw [AvoidsOn, hall, avoidsOn_iff start]
  cases tokensFrom start name with
  | error e => simp [Except.map]
  | ok ts => simp [Except.map, or_imp, forall_and, hopens, hcloses]

/-- A keyword ends at a blank, with which the arguments start. -/
theorem keyword_blank {word : String} (h : ∀ c ∈ word.toList, isKeywordChar c)
    (arguments : List Char) :
    (word.toList ++ ' ' :: arguments).takeWhile isKeywordChar = word.toList ∧
      (word.toList ++ ' ' :: arguments).dropWhile isKeywordChar = ' ' :: arguments := by
  rw [List.takeWhile_append_of_pos h, List.dropWhile_append_of_pos h,
    List.takeWhile_cons_of_neg (by decide), List.dropWhile_cons_of_neg (by decide),
    List.append_nil]
  exact ⟨rfl, rfl⟩

theorem parseStage_join (arguments : List Char) :
    parseStage ("join".toList ++ ' ' :: arguments) = parseJoin (' ' :: arguments) := by
  have hkeyword : String.ofList (("join".toList).map Char.toLower) = "join" := by decide
  obtain ⟨htake, hdrop⟩ := @keyword_blank "join" (by decide) arguments
  unfold parseStage
  rw [htake, hdrop, hkeyword]
  rfl

end Tables

/-- Each name of letters, numeric characters, `_`, `-` and `.` is the table of a first stage; and
a join on a key column takes it, in parentheses or not, if and only if its text has tokens, and no
`on` among them. -/
theorem parseStage_join_iff {table key : String} (htable : IsTableName table.toList)
    (hkey : Spells (.ident key) key) (hdot : '.' ∉ key.toList) :
    parseSource table.toList = .ok (.source table) ∧
      (parseStage ("join " ++ table ++ " on " ++ key).toList =
          .ok (.join .inner table (.keys [key])) ↔ AvoidsOn table.toList) ∧
      (parseStage ("join (" ++ table ++ ") on " ++ key).toList =
          .ok (.join .inner table (.keys [key])) ↔ AvoidsOn table.toList) := by
  have hname := tableName?_of_isTableName htable
  rw [String.ofList_toList] at hname
  have hbare : ("join " ++ table ++ " on " ++ key).toList =
      "join".toList ++ ' ' :: (table.toList ++ (" on ".toList ++ key.toList)) := by
    simp
  have hwrapped : ("join (" ++ table ++ ") on " ++ key).toList =
      "join".toList ++
        ' ' :: ('(' :: (table.toList ++ [')']) ++ (" on ".toList ++ key.toList)) := by
    simp
  refine ⟨?_, ?_, ?_⟩
  · rw [parseSource, hname]
  · have hunwrapped : tableName? (unwrapped table.toList) = some table := by
      rw [unwrapped_of_isTableName htable, hname]
    rw [hbare, parseStage_join,
      parseJoin_text_iff htable.unbroken htable.ne_nil hunwrapped hkey hdot]
  · have hunwrapped : tableName? (unwrapped ('(' :: (table.toList ++ [')']))) = some table := by
      rw [unwrapped_wrapped, hname]
    rw [hwrapped, parseStage_join, parseJoin_text_iff htable.unbroken.wrapped
      (List.cons_ne_nil _ _) hunwrapped hkey hdot, avoidsOn_wrapped_iff htable.unbroken]

theorem parseStage_join_iff_yearly :
    IsTableName "2024_on-sales.all".toList ∧ AvoidsOn "2024_on-sales.all".toList ∧
      parseStage "join (2024_on-sales.all) on k".toList =
        .ok (.join .inner "2024_on-sales.all" (.keys ["k"])) := by
  have htable : IsTableName "2024_on-sales.all".toList := ⟨by decide, by decide⟩
  have hkey : Spells (.ident "k") "k" := ⟨0, 1, by cbv⟩
  have havoids : AvoidsOn "2024_on-sales.all".toList :=
    ⟨[⟨.number "2024", 0, 4⟩, ⟨.ident "_on", 4, 7⟩, ⟨.minus, 7, 8⟩, ⟨.ident "sales.all", 8, 17⟩],
      by cbv, by simp [Token.isKeyword, ← Bool.not_eq_true, agree_iff]⟩
  exact ⟨htable, havoids, (parseStage_join_iff htable hkey (by decide)).2.2.mpr havoids⟩

/-- A name that starts like a number, and one with `on` between its dashes, are the tables of first
stages, but of no join. -/
theorem not_parseStage_join_numeral :
    parseSource "1abc".toList = .ok (.source "1abc") ∧
      parseStage "join 1abc on k".toList = .error (.unexpected "1abc".toList 1) ∧
      parseStage "join (1abc) on k".toList = .error (.unexpected "1abc".toList 2) ∧
      parseSource "a-on".toList = .ok (.source "a-on") ∧
      parseStage "join a-on on k".toList = .error (.unexpected ['k'] 9) := by
  refine ⟨?_, ?_, ?_, ?_, ?_⟩ <;> cbv

end PipeSql.Query
