import PipeSql.Proofs.Sql.Spelling
import PipeSql.Sql.Select

/-! # SQL that is read back

Expressions whose SQL is an expression of the query language again. Main statement: parsing what
was written gives the expression back. -/

namespace PipeSql.Sql

open Query Text

/-- Expressions that both languages write alike. Names are plain words, texts have no marks to be
escaped, numbers are numbers of the scanner with at most one sign in front, and no function has a
spelling of its own. -/
inductive Common : Expr → Prop where
  | column {name} : isPlain name → name.toLower ∉ reserved → ¬ agree name "true" →
      ¬ agree name "false" → Common (.column (.bare name))
  | text {value : String} : (∀ c ∈ value.toList, c ≠ '\'' ∧ c ≠ '\\') → Common (.text value)
  | number {digits} : Spells (.number digits) digits → Common (.number digits)
  | negative {digits} : Spells (.number digits) digits → Common (.number ("-" ++ digits))
  | bool (value) : Common (.bool value)
  | binary {op left right} : op ≠ .compare .like → op ≠ .compare .unlike → Common left →
      Common right → Common (.binary op left right)
  | call {function arguments} : Spells (.ident function) function →
      Builtin.ofName? function = none → (∀ e ∈ arguments, Common e) →
        Common (.call function arguments)

/-- A text that is scanned and derived as an expression of a level, in front of all that may follow
an expression. -/
def Replays (level : Level) (text : List Char) (e : Expr) : Prop :=
  ∃ ks, Scans Ends text ks ∧ Derives level ks e

/-- A text that is scanned and derived as a list of expressions. -/
def ReplaysAll (text : List Char) (es : List Expr) : Prop :=
  ∃ ks, Scans Ends text ks ∧ DerivesAll ks es

theorem Replays.parse_eq {text : List Char} {e : Expr} (h : Replays (.chain .disjunction) text e) :
    Expr.parse text = .ok e := by
  obtain ⟨ks, hscan, hderives⟩ := h
  obtain ⟨ts, hts, hkinds⟩ := hscan.tokens_eq
  unfold Expr.parse
  rw [hts]
  exact Expr.ofTokens_of_derives _ (hkinds ▸ hderives)

/-! ## Places -/

/-- The level of the expressions that may stand where operators of some strength are asked for. -/
def place : Nat → Level
  | 0 | 1 => .chain .disjunction
  | 2 => .chain .conjunction
  | 3 => .comparison
  | 4 => .chain .sum
  | 5 => .chain .product
  | _ => .signed

theorem rank_place (least : Nat) : (place least).rank = max 1 (min 6 (7 - least)) := by
  match least with
  | 0 | 1 | 2 | 3 | 4 | 5 => rfl
  | n + 6 =>
    change 1 = _
    omega

theorem rank_signed_le_place (least : Nat) : Level.signed.rank ≤ (place least).rank := by
  rw [rank_place]
  exact Nat.le_max_left _ _

theorem rank_place_anti {m n : Nat} (h : m ≤ n) : (place n).rank ≤ (place m).rank := by
  rw [rank_place, rank_place]
  omega

theorem scans_open : Scans Anything ['('] [.openParen] :=
  scans_paren .openParen (by decide) rfl fun _ => rfl

theorem scans_close : Scans Anything [')'] [.closeParen] :=
  scans_paren .closeParen (by decide) rfl fun _ => rfl

namespace Replays

variable {level : Level} {text left right : List Char} {e l r : Expr}

theorem loosen {tight : Level} (h : Replays tight text e) (hrank : tight.rank ≤ level.rank) :
    Replays level text e := by
  obtain ⟨ks, hscan, hderives⟩ := h
  exact ⟨ks, hscan, hderives.loosen hrank⟩

theorem parens (h : Replays (.chain .disjunction) text e) :
    Replays .signed ('(' :: (text ++ [')'])) e := by
  obtain ⟨ks, hscan, hderives⟩ := h
  refine ⟨.openParen :: (ks ++ [.closeParen]), ?_, .primary hderives.parens⟩
  exact scans_open.append ((hscan.append_break scans_close rfl).imp fun _ _ => trivial)
    fun _ _ => trivial

/-- Parentheses stand where an operator binds too loosely. -/
theorem parenthesized {least bound : Nat} {text : String}
    (h : Replays (place bound) text.toList e) :
    Replays (place least) (Sql.parenthesized (bound < least) text).toList e := by
  by_cases hbound : bound < least
  · have hinner : Replays (.chain .disjunction) text.toList e :=
      h.loosen (rank_place_anti (Nat.zero_le bound))
    have htext : ("(" ++ text ++ ")").toList = '(' :: (text.toList ++ [')']) := by simp
    simp only [Sql.parenthesized, hbound, decide_true, if_true, htext]
    exact hinner.parens.loosen (rank_signed_le_place least)
  · simp only [Sql.parenthesized, hbound, decide_false, Bool.false_eq_true, if_false]
    exact h.loosen (rank_place_anti (by omega))

/-! ## Operators -/

/-- The places around an operator of a chain are those of the chain. -/
theorem place_of_chainOf? {op : Operator} {chain : Chain} (h : chainOf? op = some chain) :
    place (leftStrength op) = .chain chain ∧ place (strength op) = .chain chain ∧
      place (rightStrength op) = chain.operand := by
  rcases op with _ | ⟨_ | _⟩ | ⟨_ | _ | _ | _ | _⟩ <;> cases h <;> exact ⟨rfl, rfl, rfl⟩

/-- Behind the left operand stands the operator between blanks. -/
theorem scans_binary {ks ks' : List Query.TokenKind} {kind : Query.TokenKind} {op : Operator}
    (hleft : Scans Ends left ks) (hop : Scans Anything (spaced op) [kind])
    (hright : Scans Ends right ks') :
    Scans Ends (left ++ spaced op ++ right) (ks ++ kind :: ks') := by
  have hfirst := hleft.append_break hop rfl
  have hall := hfirst.append hright fun _ _ => trivial
  simpa using hall

theorem binary {op : Operator} (hlike : op ≠ .compare .like) (hunlike : op ≠ .compare .unlike)
    (hleft : Replays (place (leftStrength op)) left l)
    (hright : Replays (place (rightStrength op)) right r) :
    Replays (place (strength op)) (left ++ spaced op ++ right) (.binary op l r) := by
  obtain ⟨ks, hleft, hl⟩ := hleft
  obtain ⟨ks', hright, hr⟩ := hright
  cases hchain : chainOf? op with
  | some chain =>
    obtain ⟨hplaceLeft, hplace, hplaceRight⟩ := place_of_chainOf? hchain
    obtain ⟨kind, hscan, hkind⟩ := scans_chain hchain
    rw [hplaceLeft] at hl
    rw [hplaceRight] at hr
    rw [hplace]
    exact ⟨ks ++ kind :: ks', scans_binary hleft hscan hright, .link hl hkind hr⟩
  | none =>
    obtain ⟨comparison, rfl⟩ : ∃ comparison, op = .compare comparison := by
      rcases op with comparison | ⟨_ | _⟩ | ⟨_ | _ | _ | _ | _⟩ <;>
        first | exact ⟨comparison, rfl⟩ | cases hchain
    obtain ⟨kind, hscan, hkind⟩ := scans_comparison (fun h => hlike (h ▸ rfl))
      (fun h => hunlike (h ▸ rfl))
    exact ⟨ks ++ kind :: ks', scans_binary hleft hscan hright, .compare hl hkind hr⟩

/-! ## Operands -/

theorem word {name : String} (h : isPlain name) : Replays .signed name.toList (named name) :=
  ⟨[.ident name], scans_isPlain h, .primary (.name name)⟩

theorem column {name : String} (h : isPlain name) (hfree : name.toLower ∉ reserved)
    (htrue : ¬ agree name "true") (hfalse : ¬ agree name "false") :
    Replays .signed (columnText (.bare name)).toList (.column (.bare name)) := by
  have htext : columnText (.bare name) = name := by
    simp [columnText, Column.bare, nameText, h, hfree]
  have hnamed : named name = .column (.bare name) := by
    simp [named, htrue, hfalse, ofPath_of_isPlain h]
  rw [htext, ← hnamed]
  exact word h

theorem bool (value : Bool) : Replays .signed (boolText value).toList (.bool value) := by
  cases value with
  | true =>
    have hnamed : named "TRUE" = .bool true := if_pos (agree_iff.mpr (by decide))
    rw [← hnamed]
    exact word (by decide)
  | false =>
    have hnamed : named "FALSE" = .bool false := by
      have htrue : ¬ agree "FALSE" "true" := fun h => absurd (agree_iff.mp h) (by decide)
      have hfalse : agree "FALSE" "false" := agree_iff.mpr (by decide)
      simp [named, htrue, hfalse]
    rw [← hnamed]
    exact word (by decide)

theorem doubled_eq {quote : Char} {value : List Char} (h : ∀ c ∈ value, c ≠ quote) :
    doubled quote value = value := by
  induction value with
  | nil => rfl
  | cons c value ih =>
    rw [doubled, if_neg (h c List.mem_cons_self), ih fun d hd => h d (List.mem_cons_of_mem c hd)]

theorem quoted {value : String} (h : ∀ c ∈ value.toList, c ≠ '\'' ∧ c ≠ '\\') :
    Replays .signed (quoteText value).toList (.text value) := by
  have htext : (quoteText value).toList = '\'' :: (value.toList ++ ['\'']) := by
    simp [quoteText, enclosed, doubled_eq fun c hc => (h c hc).1]
  rw [htext]
  refine ⟨[.text value], ?_, .primary (.text value)⟩
  have hscan := scans_text h
  rw [String.ofList_toList] at hscan
  exact hscan.imp fun _ _ => trivial

theorem number {digits : String} (h : Spells (.number digits) digits) :
    Replays .signed digits.toList (.number digits) :=
  ⟨[.number digits], h.number, .primary (.number digits)⟩

theorem negative {digits : String} (h : Spells (.number digits) digits) :
    Replays .signed ("-" ++ digits).toList (.number ("-" ++ digits)) := by
  have hminus : Scans Anything ['-'] [.minus] :=
    scans_paren .minus (by decide) rfl fun _ => rfl
  have htext : ("-" ++ digits).toList = ['-'] ++ digits.toList := by simp
  have hnegated : negated (.number digits) = .number ("-" ++ digits) := by
    unfold negated
    simp only
    split
    · rename_i rest hrest
      exact absurd hrest (h.unsigned rest)
    · rfl
  rw [htext, ← hnegated]
  exact ⟨_, hminus.append h.number fun _ _ => trivial, .minus (.primary (.number digits))⟩

end Replays

/-! ## Calls -/

theorem ReplaysAll.one {text : List Char} {e : Expr} (h : Replays (.chain .disjunction) text e) :
    ReplaysAll text [e] := by
  obtain ⟨ks, hscan, hderives⟩ := h
  exact ⟨ks, hscan, .one hderives⟩

theorem ReplaysAll.more {text rest : List Char} {e : Expr} {es : List Expr}
    (h : Replays (.chain .disjunction) text e) (hrest : ReplaysAll rest es) :
    ReplaysAll (text ++ ',' :: ' ' :: rest) (e :: es) := by
  obtain ⟨ks, hscan, hderives⟩ := h
  obtain ⟨ks', hscan', hderives'⟩ := hrest
  have hcomma : Scans Anything [','] [.comma] :=
    scans_paren .comma (by decide) rfl fun _ => rfl
  have hblank : Scans Anything [' '] [] := .blank (by decide)
  refine ⟨ks ++ .comma :: ks', ?_, .more hderives hderives'⟩
  refine hscan.append_break ?_ rfl
  exact hcomma.append (hblank.append hscan' fun _ _ => trivial) fun _ _ => trivial

theorem replays_plainCall {function : String} (h : Spells (.ident function) function)
    {texts : List String} {arguments : List Expr}
    (harguments : arguments ≠ [] → ReplaysAll (", ".intercalate texts).toList arguments)
    (hnil : arguments = [] → texts = []) :
    Replays .signed (plainCall function texts).toList (.call function arguments) := by
  have htext : (plainCall function texts).toList =
      function.toList ++ '(' :: ((", ".intercalate texts).toList ++ [')']) := by
    simp [plainCall]
  rw [htext]
  cases arguments with
  | nil =>
    have hempty : (", ".intercalate texts).toList = [] := by simp [hnil rfl]
    rw [hempty, List.nil_append]
    refine ⟨_, ?_, .primary (.call function)⟩
    exact h.name.append_break
      (scans_open.append (scans_close.imp fun _ _ => trivial) fun _ _ => trivial) rfl
  | cons e es =>
    obtain ⟨ks, hscan, hderives⟩ := harguments (by simp)
    refine ⟨_, ?_, .primary (.callWith function hderives)⟩
    have hinner : Scans Ends ((", ".intercalate texts).toList ++ [')']) (ks ++ [.closeParen]) :=
      hscan.append_break (scans_close.imp fun _ _ => trivial) rfl
    exact h.name.append_break (scans_open.append hinner fun _ _ => trivial) rfl

theorem replaysAll_intercalate {write : Expr → String} {es : List Expr}
    (h : ∀ e ∈ es, Replays (.chain .disjunction) (write e).toList e) (hne : es ≠ []) :
    ReplaysAll (", ".intercalate (es.map write)).toList es := by
  induction es with
  | nil => exact absurd rfl hne
  | cons e es ih =>
    have he := h e List.mem_cons_self
    cases es with
    | nil => simpa using ReplaysAll.one he
    | cons e' es =>
      have hrest := ih (fun a ha => h a (List.mem_cons_of_mem e ha)) (by simp)
      have htext : (", ".intercalate ((e :: e' :: es).map write)).toList =
          (write e).toList ++ ',' :: ' ' :: (", ".intercalate ((e' :: es).map write)).toList := by
        simp
      rw [htext]
      exact .more he hrest

/-! ## Expressions -/

/-- What is written in a place is read back there. -/
theorem Common.replays {e : Expr} (h : Common e) (dialect : Dialect) (least : Nat) :
    Replays (place least) (exprText dialect least e).toList e := by
  induction h generalizing least with
  | column hplain hfree htrue hfalse =>
    rw [exprText]
    exact (Replays.column hplain hfree htrue hfalse).loosen (rank_signed_le_place least)
  | text hvalue =>
    rw [exprText]
    exact (Replays.quoted hvalue).loosen (rank_signed_le_place least)
  | number hdigits =>
    rw [exprText]
    exact (Replays.number hdigits).loosen (rank_signed_le_place least)
  | negative hdigits =>
    rw [exprText]
    exact (Replays.negative hdigits).loosen (rank_signed_le_place least)
  | bool value =>
    rw [exprText]
    exact (Replays.bool value).loosen (rank_signed_le_place least)
  | @binary op left right hlike hunlike _ _ hleft hright =>
    rw [exprText]
    refine .parenthesized ?_
    have hescape : escapeText op right = "" := by
      unfold escapeText
      split
      · exact absurd rfl hlike
      · exact absurd rfl hunlike
      · rfl
    have htext : (exprText dialect (leftStrength op) left ++ " " ++ symbol op ++ " " ++
        exprText dialect (rightStrength op) right ++ escapeText op right).toList =
        (exprText dialect (leftStrength op) left).toList ++ spaced op ++
          (exprText dialect (rightStrength op) right).toList := by
      simp [hescape, spaced]
    rw [htext]
    exact .binary hlike hunlike (hleft _) (hright _)
  | @call function arguments hname hfree _ ih =>
    have htext : callText dialect function (exprTexts dialect arguments) =
        plainCall function (arguments.map (exprText dialect 0)) := by
      simp [callText, hfree, exprTexts_eq_map]
    rw [exprText, htext]
    refine (replays_plainCall hname (fun hne => ?_) fun h => by simp [h]).loosen
      (rank_signed_le_place least)
    exact replaysAll_intercalate (fun e he => ih e he 0) hne

theorem misuseAny?_eq_none {es : List Expr} (h : ∀ e ∈ es, misuse? e = none) :
    misuseAny? es = none := by
  induction es with
  | nil => rfl
  | cons e es ih =>
    rw [misuseAny?, h e List.mem_cons_self, ih fun a ha => h a (List.mem_cons_of_mem e ha)]
    rfl

theorem Common.misuse?_eq_none {e : Expr} (h : Common e) : misuse? e = none := by
  induction h with
  | column | text | number | negative | bool => rfl
  | binary _ _ _ _ hleft hright =>
    rw [misuse?, hleft, hright]
    rfl
  | call _ hfree _ ih =>
    rw [misuse?, misuseAny?_eq_none ih, hfree]
    rfl

/-! ## Filters -/

/-- Filters that all have to hold, as one condition. -/
def conjunction (first : Expr) (rest : List Expr) : Expr :=
  rest.foldl (fun all next => .binary (.connect .and) all next) first

theorem toList_intercalate_and (text : String) (texts : List String) :
    (" AND ".intercalate (text :: texts)).toList =
      text.toList ++ texts.flatMap fun next => spaced (.connect .and) ++ next.toList := by
  induction texts generalizing text with
  | nil => simp
  | cons next texts ih =>
    rw [String.intercalate_cons_cons, String.toList_append, String.toList_append, ih,
      List.flatMap_cons]
    simp [spaced, symbol]

/-- Each further filter extends the chain of those in front of it. -/
theorem replays_conjunction (dialect : Dialect) {text : List Char} {first : Expr}
    {rest : List Expr} (hfirst : Replays (.chain .conjunction) text first)
    (hrest : ∀ e ∈ rest, Common e) :
    Replays (.chain .conjunction) (text ++ (rest.map (exprText dialect 3)).flatMap fun next =>
      spaced (.connect .and) ++ next.toList) (conjunction first rest) := by
  induction rest generalizing text first with
  | nil => simpa [conjunction] using hfirst
  | cons e rest ih =>
    have he : Replays (place 3) (exprText dialect 3 e).toList e :=
      (hrest e List.mem_cons_self).replays dialect 3
    have hboth : Replays (.chain .conjunction)
        (text ++ spaced (.connect .and) ++ (exprText dialect 3 e).toList)
        (.binary (.connect .and) first e) :=
      Replays.binary (by simp) (by simp) hfirst he
    have hall := ih hboth fun a ha => hrest a (List.mem_cons_of_mem e ha)
    rw [List.map_cons, List.flatMap_cons]
    simpa [conjunction] using hall

theorem replays_whereClause (dialect : Dialect) {first : Expr} {rest : List Expr}
    (h : ∀ e ∈ first :: rest, Common e) :
    ∃ text : String, whereClause dialect (first :: rest) = " WHERE " ++ text ∧
      Replays (.chain .disjunction) text.toList (conjunction first rest) := by
  have hfirst := h first List.mem_cons_self
  cases rest with
  | nil => exact ⟨exprText dialect 0 first, rfl, hfirst.replays dialect 0⟩
  | cons second rest =>
    refine ⟨_, rfl, ?_⟩
    rw [List.map_cons, toList_intercalate_and]
    have hplace : Replays (.chain .conjunction) (exprText dialect 3 first).toList first :=
      (hfirst.replays dialect 3).loosen (by decide)
    exact (replays_conjunction dialect hplace
      fun e he => h e (List.mem_cons_of_mem first he)).loosen (by decide)

/-- Writing an expression and parsing what was written gives the expression back, and filters
are read back as one condition that groups to the left. -/
theorem parse_exprText_eq (dialect : Dialect) :
    (∀ e, Common e → misuse? e = none ∧ Expr.parse (exprText dialect 0 e).toList = .ok e) ∧
      ∀ first rest, (∀ e ∈ first :: rest, Common e) →
        misuseAny? (first :: rest) = none ∧
          ∃ text : String, whereClause dialect (first :: rest) = " WHERE " ++ text ∧
            Expr.parse text.toList = .ok (conjunction first rest) := by
  refine ⟨fun e he => ⟨he.misuse?_eq_none, (he.replays dialect 0).parse_eq⟩, ?_⟩
  intro first rest h
  obtain ⟨text, hclause, hreplays⟩ := replays_whereClause dialect h
  exact ⟨misuseAny?_eq_none fun e he => (h e he).misuse?_eq_none, text, hclause,
    hreplays.parse_eq⟩

/-- `(n - -1) * n < f(n, 'x')`. -/
def sampleFilter : Expr :=
  .binary (.compare .less)
    (.binary (.compute .multiply)
      (.binary (.compute .subtract) (.column (.bare "n")) (.number ("-" ++ "1")))
      (.column (.bare "n")))
    (.call "f" [.column (.bare "n"), .text "x"])

theorem common_sampleFilter : Common sampleFilter := by
  have hn : Common (.column (.bare "n")) := by
    have hlower : "n".toLower = "n" := by
      rw [toLower_eq_map, ← String.toList_inj, String.toList_map]
      decide
    refine .column (by decide) ?_ (fun h => ?_) fun h => ?_
    · rw [hlower]
      decide
    · exact absurd (agree_iff.mp h) (by decide)
    · exact absurd (agree_iff.mp h) (by decide)
  have hone : Spells (.number "1") "1" := by
    have hscan : Scans Ends ['1'] [.number (String.ofList ['1'])] :=
      scans_numeral (by decide) (by decide) (by decide) (by simp)
    exact Scans.spells hscan
  have hf : Builtin.ofName? "f" = none := by
    have hlower : "f".toLower = "f" := by
      rw [toLower_eq_map, ← String.toList_inj, String.toList_map]
      decide
    rw [Builtin.ofName?, hlower]
    rfl
  refine .binary (by decide) (by decide) ?_ (.call (scans_isPlain (by decide)).spells hf ?_)
  · exact .binary (by decide) (by decide)
      (.binary (by decide) (by decide) hn (.negative hone)) hn
  · intro e he
    rcases List.mem_cons.mp he with rfl | he
    · exact hn
    · obtain rfl := List.mem_singleton.mp he
      exact .text (by simp)

theorem parse_exprText_eq_sampleFilter :
    Expr.parse (exprText .sqlite 0 sampleFilter).toList = .ok sampleFilter ∧
      ∃ text : String, whereClause .sqlite [sampleFilter, .bool true] = " WHERE " ++ text ∧
        Expr.parse text.toList = .ok (.binary (.connect .and) sampleFilter (.bool true)) := by
  obtain ⟨hexpr, hfilters⟩ := parse_exprText_eq .sqlite
  refine ⟨(hexpr _ common_sampleFilter).2, (hfilters sampleFilter [.bool true] ?_).2⟩
  intro e he
  rcases List.mem_cons.mp he with rfl | he
  · exact common_sampleFilter
  · obtain rfl := List.mem_singleton.mp he
    exact .bool true

end PipeSql.Sql
