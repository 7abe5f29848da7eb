import PipeSql.Proofs.Except
import PipeSql.Query.Scan
import Mathlib.Data.List.TakeWhile

/-! # Scanning a text in pieces

A piece of a text gives the same tokens wherever it stands, as long as no longer lexeme is found at
its end. -/

namespace PipeSql.Query

open PipeSql.Text

/-! ## Steps of the scan -/

section Steps

variable {start n : Nat} {c : Char} {rest : List Char} {kind : TokenKind} {e : Error}

theorem tokensFrom_nil (start : Nat) : tokensFrom start [] = .ok [] := by
  rw [tokensFrom]

theorem tokensFrom_blank (hc : isBlank c) :
    tokensFrom start (c :: rest) = tokensFrom (start + c.utf8Size) rest := by
  rw [tokensFrom, if_pos hc]

theorem tokensFrom_stuck (hc : isBlank c = false) (h : lexeme start c rest = .error e) :
    tokensFrom start (c :: rest) = .error e := by
  rw [tokensFrom]
  simp only [hc, h, Bool.false_eq_true, if_false]

theorem tokensFrom_lexeme (hc : isBlank c = false) (h : lexeme start c rest = .ok (kind, n)) :
    tokensFrom start (c :: rest) =
      (tokensFrom (start + byteSize (c :: rest.take n)) (rest.drop n)).map
        (⟨kind, start, start + byteSize (c :: rest.take n)⟩ :: ·) := by
  rw [tokensFrom]
  simp only [hc, h, Bool.false_eq_true, if_false]
  cases tokensFrom (start + byteSize (c :: rest.take n)) (rest.drop n) <;> rfl

/-- Induction along the scan of a text. -/
@[elab_as_elim]
theorem scan_induction {motive : Nat → List Char → Prop}
    (nil : ∀ start, motive start [])
    (blank : ∀ start c rest, isBlank c → motive (start + c.utf8Size) rest →
      motive start (c :: rest))
    (stuck : ∀ start c rest e, isBlank c = false → lexeme start c rest = .error e →
      motive start (c :: rest))
    (lexeme : ∀ start c rest kind n, isBlank c = false → lexeme start c rest = .ok (kind, n) →
      motive (start + byteSize (c :: rest.take n)) (rest.drop n) → motive start (c :: rest)) :
    ∀ start cs, motive start cs := by
  intro start cs
  induction start, cs using tokensFrom.induct with
  | case1 start => exact nil start
  | case2 start c rest hc ih => exact blank start c rest hc ih
  | case3 start c rest hc e h => exact stuck start c rest e (by simpa using hc) h
  | case4 start c rest hc kind n h stop e _ ih
  | case5 start c rest hc kind n h stop tokens _ ih =>
    exact lexeme start c rest kind n (by simpa using hc) h ih

end Steps

/-! ## Pieces -/

/-- The piece `cs` gives tokens of the kinds `ks` in front of each rest of which `ok` holds. -/
def Scans (ok : List Char → Prop) (cs : List Char) (ks : List TokenKind) : Prop :=
  ∀ start rest, ok rest → ∃ ts stop, ts.map Token.kind = ks ∧
    tokensFrom start (cs ++ rest) = (tokensFrom stop rest).map (ts ++ ·)

/-- A character that ends names and numbers. -/
def isBreak (c : Char) : Bool :=
  c == ' ' || c == '(' || c == ')' || c == ','

/-- No name or number goes on in the rest of a text. -/
def Ends (rest : List Char) : Prop :=
  ∀ c ∈ rest.head?, isBreak c

/-- Nothing is asked of the rest of a text. -/
def Anything (_ : List Char) : Prop :=
  True

variable {ok ok' : List Char → Prop} {cs cs' : List Char} {ks ks' : List TokenKind}

namespace Scans

theorem nil : Scans ok [] [] := by
  intro start rest _
  refine ⟨[], start, rfl, ?_⟩
  rw [List.nil_append]
  cases tokensFrom start rest <;> rfl

theorem imp (h : Scans ok cs ks) (hok : ∀ rest, ok' rest → ok rest) : Scans ok' cs ks :=
  fun start rest hrest => h start rest (hok rest hrest)

theorem append (h : Scans ok cs ks) (h' : Scans ok' cs' ks')
    (hok : ∀ rest, ok' rest → ok (cs' ++ rest)) : Scans ok' (cs ++ cs') (ks ++ ks') := by
  intro start rest hrest
  obtain ⟨ts, middle, hts, hfirst⟩ := h start (cs' ++ rest) (hok rest hrest)
  obtain ⟨ts', stop, hts', hsecond⟩ := h' middle rest hrest
  refine ⟨ts ++ ts', stop, by rw [List.map_append, hts, hts'], ?_⟩
  rw [List.append_assoc, hfirst, hsecond]
  cases tokensFrom stop rest with
  | error e => rfl
  | ok more => simp [Except.map]

/-- A piece that starts with a break may follow anything. -/
theorem append_break {c : Char} (h : Scans Ends cs ks) (h' : Scans ok' (c :: cs') ks')
    (hc : isBreak c) : Scans ok' (cs ++ c :: cs') (ks ++ ks') := by
  refine h.append h' fun rest _ => ?_
  simpa [Ends] using hc

theorem blank {c : Char} (hc : isBlank c) : Scans Anything [c] [] := by
  intro start rest _
  refine ⟨[], start + c.utf8Size, rfl, ?_⟩
  rw [List.singleton_append, tokensFrom_blank hc]
  cases tokensFrom (start + c.utf8Size) rest <;> rfl

/-- A lexeme that is found in front of each rest is a piece of one token. -/
theorem of_lexeme {c : Char} {body : List Char} {kind : TokenKind} (hc : isBlank c = false)
    (h : ∀ start rest, ok rest → lexeme start c (body ++ rest) = .ok (kind, body.length)) :
    Scans ok (c :: body) [kind] := by
  intro start rest hrest
  refine ⟨[⟨kind, start, start + byteSize (c :: body)⟩], start + byteSize (c :: body), rfl, ?_⟩
  rw [List.cons_append, tokensFrom_lexeme hc (h start rest hrest), List.take_left, List.drop_left]
  cases tokensFrom (start + byteSize (c :: body)) rest <;> rfl

/-- A text all of which is a piece gives just its tokens. -/
theorem tokensFrom_eq (h : Scans Ends cs ks) (start : Nat) :
    ∃ ts, tokensFrom start cs = .ok ts ∧ ts.map Token.kind = ks := by
  obtain ⟨ts, stop, hts, hscan⟩ := h start [] (by simp [Ends])
  refine ⟨ts, ?_, hts⟩
  rw [List.append_nil] at hscan
  rw [hscan, tokensFrom_nil]
  simp [Except.map]

theorem tokens_eq (h : Scans Ends cs ks) :
    ∃ ts, tokens cs = .ok ts ∧ ts.map Token.kind = ks :=
  h.tokensFrom_eq 0

end Scans

/-! ## Names -/

theorem nameLength_le (cs : List Char) : nameLength cs ≤ cs.length := by
  induction cs with
  | nil => simp [nameLength]
  | cons c cs ih =>
    rw [nameLength]
    split <;> simp [ih]

theorem nameLength_of_ends {rest : List Char} (h : Ends rest) : nameLength rest = 0 := by
  cases rest with
  | nil => rfl
  | cons c rest =>
    have hbreak : isBreak c := by simpa [Ends] using h
    simp only [isBreak, Bool.or_eq_true, beq_iff_eq] at hbreak
    have hnot : continuesName c = false ∧ (c == '.') = false := by
      rcases hbreak with ((rfl | rfl) | rfl) | rfl <;> decide
    simp [nameLength, hnot]

/-- A name that fills a piece goes on no further than that. -/
theorem nameLength_append {body rest : List Char} (hbody : nameLength body = body.length)
    (hrest : Ends rest) : nameLength (body ++ rest) = body.length := by
  induction body with
  | nil => simpa using nameLength_of_ends hrest
  | cons c body ih =>
    rw [nameLength] at hbody
    split at hbody
    · rename_i hc
      have hlength : nameLength body = body.length := by simpa using hbody
      rw [List.cons_append, nameLength, ih hlength, if_pos ?_]
      · rfl
      · -- a dot goes on a name only in front of another character of it
        cases body with
        | nil =>
          have hname : continuesName c = true := by simpa using hc
          simp [hname]
        | cons d body => simpa using hc
    · simp at hbody

theorem continuesName_of_startsName {c : Char} (h : startsName c) : continuesName c := by
  simp only [startsName, continuesName, Bool.or_eq_true] at h ⊢
  exact h.imp_left fun h => h.imp_left isAlphanumeric_of_isAlphabetic

theorem continuesName_of_nameLength {body : List Char} (h : nameLength body = body.length) :
    ∀ c ∈ body, continuesName c || c == '.' := by
  induction body with
  | nil => simp
  | cons c body ih =>
    rw [nameLength] at h
    split at h
    · rename_i hc
      intro d hd
      rcases List.mem_cons.mp hd with rfl | hd
      · simp only [Bool.or_eq_true, Bool.and_eq_true] at hc ⊢
        exact hc.imp_right And.left
      · exact ih (by simpa using h) d hd
    · simp at h

/-! ## Numbers -/

theorem continuesNumber_of_isBreak {c : Char} (h : isBreak c) : continuesNumber c = false := by
  simp only [isBreak, Bool.or_eq_true, beq_iff_eq] at h
  rcases h with ((rfl | rfl) | rfl) | rfl <;> decide

theorem takeWhile_number_append {body rest : List Char} (hbody : ∀ c ∈ body, continuesNumber c)
    (hrest : Ends rest) : (body ++ rest).takeWhile continuesNumber = body := by
  rw [List.takeWhile_append_of_pos hbody]
  cases rest with
  | nil => simp
  | cons c rest =>
    have hbreak : isBreak c := by simpa [Ends] using hrest
    simp [continuesNumber_of_isBreak hbreak]

/-! ## Texts -/

theorem quoted?_plain {quote c : Char} (hc : c ≠ '\\') (rest : List Char) :
    quoted? quote (c :: rest) =
      if c = quote then some ([], 1)
      else (quoted? quote rest).map fun (value, n) => (c :: value, n + 1) := by
  rw [quoted?]
  · exact fun hslash => absurd hslash hc
  · exact fun _ _ hslash => absurd hslash hc

/-- Induction along a literal behind its opening quote. -/
@[elab_as_elim]
theorem literal_induction (quote : Char) {motive : List Char → Prop} (nil : motive [])
    (lone : motive ['\\'])
    (escaped : ∀ c rest, motive rest → motive ('\\' :: c :: rest))
    (closed : quote ≠ '\\' → ∀ rest, motive (quote :: rest))
    (plain : ∀ c rest, c ≠ '\\' → c ≠ quote → motive rest → motive (c :: rest)) :
    ∀ cs, motive cs := by
  have hslash : ∀ {c : Char} {rest : List Char}, (c = '\\' → rest = [] → False) →
      (∀ d more, c = '\\' → rest = d :: more → False) → c ≠ '\\' := by
    intro c rest hlone hpair hc
    cases rest with
    | nil => exact hlone hc rfl
    | cons d more => exact hpair d more hc rfl
  intro cs
  induction cs using quoted?.induct quote with
  | case1 => exact nil
  | case2 => exact lone
  | case3 c rest ih => exact escaped c rest ih
  | case4 rest hlone hpair => exact closed (hslash hlone hpair) rest
  | case5 c rest hlone hpair hother ih => exact plain c rest (hslash hlone hpair) hother ih

/-- A literal that is read stands in the text. -/
theorem quoted?_le {quote : Char} {cs value : List Char} {n : Nat}
    (h : quoted? quote cs = some (value, n)) : n ≤ cs.length := by
  induction cs using literal_induction quote generalizing value n with
  | nil => cases h
  | lone => cases h
  | escaped c rest ih =>
    rw [quoted?] at h
    obtain ⟨⟨inner, m⟩, hinner, heq⟩ := Option.map_eq_some_iff.mp h
    cases heq
    have hle := ih hinner
    simp only [List.length_cons]
    omega
  | closed hquote rest =>
    rw [quoted?_plain hquote, if_pos rfl] at h
    cases h
    simp
  | plain c rest hslash hother ih =>
    rw [quoted?_plain hslash, if_neg hother] at h
    obtain ⟨⟨inner, m⟩, hinner, heq⟩ := Option.map_eq_some_iff.mp h
    cases heq
    have hle := ih hinner
    simp only [List.length_cons]
    omega

/-- A text without quotes and backslashes stands for itself. -/
theorem quoted?_append {quote : Char} {value : List Char} (rest : List Char)
    (h : ∀ c ∈ value, c ≠ quote ∧ c ≠ '\\') (hquote : quote ≠ '\\') :
    quoted? quote (value ++ quote :: rest) = some (value, value.length + 1) := by
  induction value with
  | nil =>
    rw [List.nil_append, quoted?]
    · simp
    · exact fun hslash _ => hquote hslash
    · exact fun c more hslash _ => hquote hslash
  | cons c value ih =>
    obtain ⟨hc, hslash⟩ := h c List.mem_cons_self
    have hrest := ih fun d hd => h d (List.mem_cons_of_mem c hd)
    rw [List.cons_append, quoted?]
    · simp [hc, hrest]
    · exact fun hslash' => absurd hslash' hslash
    · exact fun d more hslash' => absurd hslash' hslash

/-! ## Lexemes that spell a whole text -/

/-- The text is scanned as one token of the kind, and nothing else. -/
def Spells (kind : TokenKind) (text : String) : Prop :=
  ∃ start stop, tokens text.toList = .ok [⟨kind, start, stop⟩]

/-- The first token of a text is a lexeme behind some blanks. -/
theorem exists_lexeme_of_tokensFrom {start : Nat} {cs : List Char} {token : Token}
    {more : List Token} (h : tokensFrom start cs = .ok (token :: more)) :
    ∃ blanks c body n, cs = blanks ++ c :: body ∧ isBlank c = false ∧
      lexeme token.start c body = .ok (token.kind, n) := by
  induction start, cs using scan_induction with
  | nil start =>
    rw [tokensFrom_nil] at h
    cases h
  | blank start c rest hc ih =>
    rw [tokensFrom_blank hc] at h
    obtain ⟨blanks, d, body, n, rfl, hd, hlexeme⟩ := ih h
    exact ⟨c :: blanks, d, body, n, rfl, hd, hlexeme⟩
  | stuck start c rest e hc hstuck =>
    rw [tokensFrom_stuck hc hstuck] at h
    cases h
  | lexeme start c rest kind n hc hlexeme _ =>
    rw [tokensFrom_lexeme hc hlexeme] at h
    obtain ⟨behind, -, heq⟩ := map_eq_ok_iff.mp h
    cases heq
    exact ⟨[], c, rest, n, rfl, hc, hlexeme⟩

theorem signAt_kind {start : Nat} {c : Char} {rest : List Char} {kind : TokenKind} {n : Nat}
    (h : signAt start c rest = .ok (kind, n)) :
    (∀ name, kind ≠ .ident name) ∧ ∀ digits, kind ≠ .number digits := by
  unfold signAt at h
  split at h
  · rename_i sign hsign
    cases h
    obtain ⟨d, -, hpair⟩ := Option.bind_eq_some_iff.mp hsign
    unfold pairSign? at hpair
    split at hpair <;> cases hpair <;> simp
  · split at h
    · rename_i sign hsign
      cases h
      unfold sign? at hsign
      split at hsign <;> cases hsign <;> simp
    · cases h

theorem bracketed_kind {start : Nat} {rest : List Char} {kind : TokenKind} {n : Nat}
    (h : bracketed start rest = .ok (kind, n)) : ∃ name, kind = .quotedIdent name := by
  unfold bracketed at h
  split at h
  · cases h
  split at h
  · split at h
    · cases h
    · split at h
      · cases h
        exact ⟨_, rfl⟩
      · cases h
  · cases h

/-- The ways to find a lexeme that is a name or a number. -/
theorem lexeme_cases {start : Nat} {c : Char} {rest : List Char} {kind : TokenKind} {n : Nat}
    (h : lexeme start c rest = .ok (kind, n)) :
    (∃ value, kind = .text value) ∨ (∃ name, kind = .quotedIdent name) ∨
      ((c.isDigit || (c == '.' && rest.head?.any Char.isDigit)) ∧
        isNumeral (c :: rest.takeWhile continuesNumber) ∧
        kind = .number (String.ofList (c :: rest.takeWhile continuesNumber))) ∨
      (isQuote c = false ∧ c ≠ '[' ∧ c.isDigit = false ∧ startsName c ∧
        kind = .ident (String.ofList (c :: rest.take (nameLength rest)))) ∨
      (∀ name, kind ≠ .ident name) ∧ ∀ digits, kind ≠ .number digits := by
  unfold lexeme at h
  split at h
  · split at h
    · cases h
    · cases h
      exact .inl ⟨_, rfl⟩
  rename_i hquote
  split at h
  · exact .inr (.inl (bracketed_kind h))
  rename_i hbracket
  split at h
  · rename_i hdigit
    simp only at h
    split at h
    · rename_i hnumeral
      cases h
      exact .inr (.inr (.inl ⟨hdigit, hnumeral, rfl⟩))
    · cases h
  rename_i hdigit
  split at h
  · rename_i hname
    cases h
    refine .inr (.inr (.inr (.inl ⟨by simpa using hquote, hbracket, ?_, hname, rfl⟩)))
    simp_all
  · exact .inr (.inr (.inr (.inr (signAt_kind h))))

/-- A lexeme that is found stands in the text. -/
theorem lexeme_le {start : Nat} {c : Char} {rest : List Char} {kind : TokenKind} {n : Nat}
    (h : lexeme start c rest = .ok (kind, n)) : n ≤ rest.length := by
  unfold lexeme at h
  split at h
  · split at h
    · cases h
    · rename_i hquoted
      cases h
      exact quoted?_le hquoted
  split at h
  · unfold bracketed at h
    split at h
    · cases h
    split at h
    case isFalse => cases h
    split at h
    · cases h
    split at h
    case isFalse => cases h
    rename_i quote more _ _ name m _ hclose
    cases h
    -- the closing bracket stands behind the quotes
    rw [List.head?_drop] at hclose
    obtain ⟨hm, -⟩ := List.getElem?_eq_some_iff.mp hclose
    simp only [List.length_cons]
    omega
  split at h
  · simp only at h
    split at h
    · cases h
      simpa using (List.takeWhile_prefix continuesNumber).length_le
    · cases h
  split at h
  · cases h
    exact nameLength_le rest
  unfold signAt at h
  split at h
  · rename_i hpair
    cases h
    obtain ⟨d, hd, -⟩ := Option.bind_eq_some_iff.mp hpair
    cases rest with
    | nil => cases hd
    | cons d rest => simp
  · split at h <;> cases h
    exact Nat.zero_le _

theorem lexeme_name {c : Char} (start : Nat) (rest : List Char) (hquote : isQuote c = false)
    (hbracket : c ≠ '[') (hdigit : c.isDigit = false) (hname : startsName c) :
    lexeme start c rest =
      .ok (.ident (String.ofList (c :: rest.take (nameLength rest))), nameLength rest) := by
  have hdot : (c == '.') = false := by
    rw [beq_eq_false_iff_ne]
    rintro rfl
    revert hname
    decide
  simp [lexeme, hquote, hbracket, hdigit, hdot, hname]

theorem lexeme_number {c : Char} (start : Nat) (rest : List Char)
    (hdigit : c.isDigit || (c == '.' && rest.head?.any Char.isDigit))
    (hnumeral : isNumeral (c :: rest.takeWhile continuesNumber)) :
    lexeme start c rest = .ok (.number (String.ofList (c :: rest.takeWhile continuesNumber)),
      (rest.takeWhile continuesNumber).length) := by
  have hplain : isQuote c = false ∧ c ≠ '[' := by
    simp only [Bool.or_eq_true, Bool.and_eq_true, beq_iff_eq] at hdigit
    rcases hdigit with hdigit | ⟨rfl, -⟩
    · constructor
      · rw [isQuote, Bool.or_eq_false_iff, beq_eq_false_iff_ne, beq_eq_false_iff_ne]
        constructor <;> rintro rfl <;> cases hdigit
      · rintro rfl
        cases hdigit
    · decide
  unfold lexeme
  simp only [hplain.1, hplain.2, hdigit, hnumeral, if_true, Bool.false_eq_true, if_false]
  simp

/-! ## Spelled pieces -/

theorem Scans.spells {text : String} {kind : TokenKind} (h : Scans Ends text.toList [kind]) :
    Spells kind text := by
  obtain ⟨ts, hts, hkinds⟩ := h.tokens_eq
  obtain ⟨⟨kind', start, stop⟩, rest, rfl, rfl, hrest⟩ := List.map_eq_cons_iff.mp hkinds
  obtain rfl : rest = [] := List.map_eq_nil_iff.mp hrest
  exact ⟨start, stop, hts⟩

/-- A word that is a name from its first character to its last. -/
theorem scans_word {c : Char} {body : List Char} (hblank : isBlank c = false)
    (hquote : isQuote c = false) (hbracket : c ≠ '[') (hdigit : c.isDigit = false)
    (hname : startsName c) (hbody : nameLength body = body.length) :
    Scans Ends (c :: body) [.ident (String.ofList (c :: body))] := by
  refine .of_lexeme hblank fun start rest hrest => ?_
  rw [lexeme_name start _ hquote hbracket hdigit hname, nameLength_append hbody hrest,
    List.take_left]

/-- A name is spelled from its first character to the last. -/
theorem Spells.exists_word {name : String} (h : Spells (.ident name) name) :
    ∃ c body, name.toList = c :: body ∧ isBlank c = false ∧ isQuote c = false ∧ c ≠ '[' ∧
      c.isDigit = false ∧ startsName c ∧ nameLength body = body.length := by
  obtain ⟨start, stop, h⟩ := h
  obtain ⟨blanks, c, body, n, htext, hblank, hlexeme⟩ := exists_lexeme_of_tokensFrom h
  simp only at hlexeme
  rcases lexeme_cases hlexeme with ⟨_, hkind⟩ | ⟨_, hkind⟩ | ⟨-, -, hkind⟩ |
    ⟨hquote, hbracket, hdigit, hname, hkind⟩ | ⟨hkind, -⟩
  · cases hkind
  · cases hkind
  · cases hkind
  · -- the name has all characters of the text, so that nothing stands around it
    have hlist : name.toList = c :: body.take (nameLength body) := by
      rw [TokenKind.ident.inj hkind, String.toList_ofList]
    have hlength := congrArg List.length (htext.symm.trans hlist)
    have hle := nameLength_le body
    simp only [List.length_append, List.length_cons, List.length_take] at hlength
    have hfull : nameLength body = body.length := by omega
    rw [hfull, List.take_length] at hlist
    exact ⟨c, body, hlist, hblank, hquote, hbracket, hdigit, hname, hfull⟩
  · exact absurd rfl (hkind name)

theorem Spells.name {name : String} (h : Spells (.ident name) name) :
    Scans Ends name.toList [.ident name] := by
  obtain ⟨c, body, hlist, hblank, hquote, hbracket, hdigit, hname, hbody⟩ := h.exists_word
  have hscan := scans_word hblank hquote hbracket hdigit hname hbody
  rw [← hlist, String.ofList_toList] at hscan
  exact hscan

/-- A number is a run of its characters from the first to the last. -/
theorem Spells.exists_numeral {digits : String} (h : Spells (.number digits) digits) :
    ∃ c body, digits.toList = c :: body ∧ isBlank c = false ∧
      (c.isDigit || (c == '.' && body.head?.any Char.isDigit)) ∧ isNumeral (c :: body) ∧
      ∀ d ∈ body, continuesNumber d := by
  obtain ⟨start, stop, h⟩ := h
  obtain ⟨blanks, c, body, n, htext, hblank, hlexeme⟩ := exists_lexeme_of_tokensFrom h
  simp only at hlexeme
  rcases lexeme_cases hlexeme with ⟨_, hkind⟩ | ⟨_, hkind⟩ | ⟨hdigit, hnumeral, hkind⟩ |
    ⟨-, -, -, -, hkind⟩ | ⟨-, hkind⟩
  · cases hkind
  · cases hkind
  · have hlist : digits.toList = c :: body.takeWhile continuesNumber := by
      rw [TokenKind.number.inj hkind, String.toList_ofList]
    have hlength := congrArg List.length (htext.symm.trans hlist)
    have hprefix := List.takeWhile_prefix (p := continuesNumber) (l := body)
    have hle := hprefix.length_le
    simp only [List.length_append, List.length_cons] at hlength
    have hfull : body.takeWhile continuesNumber = body := hprefix.eq_of_length (by omega)
    rw [hfull] at hlist hnumeral
    exact ⟨c, body, hlist, hblank, hdigit, hnumeral, List.takeWhile_eq_self_iff.mp hfull⟩
  · cases hkind
  · exact absurd rfl (hkind digits)

theorem scans_numeral {c : Char} {body : List Char} (hblank : isBlank c = false)
    (hdigit : c.isDigit || (c == '.' && body.head?.any Char.isDigit))
    (hnumeral : isNumeral (c :: body)) (hbody : ∀ d ∈ body, continuesNumber d) :
    Scans Ends (c :: body) [.number (String.ofList (c :: body))] := by
  refine .of_lexeme hblank fun start rest hrest => ?_
  have htake := takeWhile_number_append hbody hrest
  have hdigit' : (c.isDigit || (c == '.' && (body ++ rest).head?.any Char.isDigit)) = true := by
    cases body with
    | nil =>
      have hc : c.isDigit := by simpa using hdigit
      simp [hc]
    | cons d body => simpa using hdigit
  rw [lexeme_number start _ hdigit' (by rw [htake]; exact hnumeral), htake]

theorem Spells.number {digits : String} (h : Spells (.number digits) digits) :
    Scans Ends digits.toList [.number digits] := by
  obtain ⟨c, body, hlist, hblank, hdigit, hnumeral, hbody⟩ := h.exists_numeral
  have hscan := scans_numeral hblank hdigit hnumeral hbody
  rw [← hlist, String.ofList_toList] at hscan
  exact hscan

/-- A number has no sign of its own. -/
theorem Spells.unsigned {digits : String} (h : Spells (.number digits) digits) :
    ∀ rest, digits.toList ≠ '-' :: rest := by
  obtain ⟨c, body, hlist, -, hdigit, -, -⟩ := h.exists_numeral
  intro rest hrest
  obtain ⟨rfl, -⟩ := List.cons.inj (hlist.symm.trans hrest)
  simp at hdigit

/-- A text between single quotes, which has no single quote and no backslash in it. -/
theorem scans_text {value : List Char} (h : ∀ c ∈ value, c ≠ '\'' ∧ c ≠ '\\') :
    Scans Anything ('\'' :: (value ++ ['\''])) [.text (String.ofList value)] := by
  refine .of_lexeme (by decide) fun start rest _ => ?_
  have hquote : quoted? '\'' (value ++ ['\''] ++ rest) = some (value, value.length + 1) := by
    rw [List.append_assoc, List.singleton_append]
    exact quoted?_append rest h (by decide)
  unfold lexeme
  rw [if_pos (by decide), hquote]
  simp

/-! ## Signs -/

/-- A character with which no blank, text, name or number starts. -/
def isSign (c : Char) : Bool :=
  !(isBlank c || isQuote c || c == '[' || c.isDigit || c == '.' || startsName c)

theorem lexeme_sign {c : Char} (hc : isSign c) (start : Nat) (rest : List Char) :
    isBlank c = false ∧ lexeme start c rest = signAt start c rest := by
  simp only [isSign, Bool.not_or, Bool.and_eq_true, Bool.not_eq_true'] at hc
  obtain ⟨⟨⟨⟨⟨hblank, hquote⟩, hbracket⟩, hdigit⟩, hdot⟩, hname⟩ := hc
  refine ⟨hblank, ?_⟩
  have hbracket' : c ≠ '[' := by simpa using hbracket
  simp [lexeme, hquote, hbracket', hdigit, hdot, hname]

/-- A sign is found where the character behind it makes no longer sign with it. -/
theorem scans_sign {c : Char} {kind : TokenKind} (hc : isSign c) (hsign : sign? c = some kind) :
    Scans (fun rest => ∀ d ∈ rest.head?, pairSign? c d = none) [c] [kind] := by
  refine .of_lexeme (lexeme_sign hc 0 []).1 fun start rest hrest => ?_
  have hpair : rest.head?.bind (pairSign? c) = none := by
    rw [Option.bind_eq_none_iff]
    exact hrest
  rw [List.nil_append, (lexeme_sign hc start rest).2, signAt, hpair]
  simp [hsign]

theorem scans_pair {c d : Char} {kind : TokenKind} (hc : isSign c)
    (hpair : pairSign? c d = some kind) : Scans Anything [c, d] [kind] := by
  refine .of_lexeme (lexeme_sign hc 0 []).1 fun start rest _ => ?_
  rw [(lexeme_sign hc start _).2, signAt]
  simp [hpair]

/-- A sign between blanks. -/
theorem scans_spaced {cs : List Char} {kind : TokenKind}
    (h : Scans (fun rest => rest.head? = some ' ') cs [kind]) :
    Scans Anything (' ' :: (cs ++ [' '])) [kind] := by
  have hblank : Scans Anything [' '] [] := .blank (by decide)
  have hfirst : Scans (fun rest => rest.head? = some ' ') (' ' :: cs) [kind] :=
    hblank.append h fun _ _ => trivial
  exact hfirst.append hblank fun _ _ => rfl

theorem scans_paren (kind : TokenKind) {c : Char} (hc : isSign c) (hsign : sign? c = some kind)
    (hpair : ∀ d, pairSign? c d = none) : Scans Anything [c] [kind] :=
  (scans_sign hc hsign).imp fun _ _ d _ => hpair d

end PipeSql.Query
