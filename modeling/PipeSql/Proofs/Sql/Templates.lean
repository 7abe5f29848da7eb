import PipeSql.Proofs.Sql.Spelling
import PipeSql.Proofs.Sql.Woven

/-! # The parts of SQL are woven

Names, literals, operators and calls, each as a text that is woven from its pieces and from the
texts of its arguments. -/

namespace PipeSql.Sql

open Query

variable {x : Exchange} {dialect : Dialect}

/-! ## Words -/

/-- A character of words and numbers, which opens no comment and no quote. -/
def isSteady (c : Char) : Bool :=
  isBare c && c != '-' && c != '/'

theorem unquoted_of_isSteady {cs : List Char} (h : ∀ c ∈ cs, isSteady c) : Unquoted cs where
  bare c hc := by
    have hsteady := h c hc
    simp only [isSteady, Bool.and_eq_true] at hsteady
    exact hsteady.1.1
  chain := by
    induction cs with
    | nil => exact List.isChain_nil
    | cons c cs ih =>
      refine List.isChain_cons.mpr ⟨fun d _ => ?_, ih fun d hd => h d (List.mem_cons_of_mem c hd)⟩
      have hsteady := h c List.mem_cons_self
      simp only [isSteady, Bool.and_eq_true, bne_iff_ne] at hsteady
      simp [opensComment, hsteady]

theorem isSteady_of_isAlphanum {c : Char} (h : c.isAlphanum || c == '_' || c == '.') :
    isSteady c := by
  have hnot : ∀ d ∈ ['"', '\'', '\\', ';', '-', '/'],
      (d.isAlphanum || d == '_' || d == '.') = false := by
    decide
  have hne : ∀ d ∈ ['"', '\'', '\\', ';', '-', '/'], c ≠ d := by
    rintro d hd rfl
    rw [hnot _ hd] at h
    cases h
  simp only [List.forall_mem_cons] at hne
  simp [isSteady, isBare, isQuote, hne]

theorem isBlank_of_isAlphanum {c : Char} (h : c.isAlphanum || c == '_' || c == '.') :
    Text.isBlank c = false := by
  have hrange : 46 ≤ c.toNat ∧ c.toNat ≤ 122 := by
    simp only [Bool.or_eq_true, Char.isAlphanum, beq_iff_eq] at h
    rcases h with ((halpha | hdigit) | rfl) | rfl
    · have := toNat_of_isAlpha halpha
      omega
    · have hv : c.toNat = c.val.toNat := rfl
      have h0 : '0'.val.toNat = 48 := rfl
      have h9 : '9'.val.toNat = 57 := rfl
      simp only [Char.isDigit, Bool.and_eq_true, decide_eq_true_eq, ge_iff_le,
        UInt32.le_iff_toNat_le] at hdigit
      omega
    · decide
    · decide
  simp [Text.isBlank]
  omega

theorem isSteady_of_continuesName {c : Char} (h : continuesName c || c == '.') : isSteady c := by
  have hnot : ∀ d ∈ ['"', '\'', '\\', ';', '-', '/'], (continuesName d || d == '.') = false := by
    decide
  have hne : ∀ d ∈ ['"', '\'', '\\', ';', '-', '/'], c ≠ d := by
    rintro d hd rfl
    rw [hnot _ hd] at h
    cases h
  simp only [List.forall_mem_cons] at hne
  simp [isSteady, isBare, isQuote, hne]

/-! ## Names and literals -/

theorem woven_steady {s : String} (h : ∀ c ∈ s.toList, c.isAlphanum || c == '_' || c == '.')
    (hne : s.toList ≠ []) : Woven x closes s s := by
  refine .const s (unquoted_of_isSteady fun c hc => isSteady_of_isAlphanum (h c hc)) ?_
  refine ⟨s.toList.getLast hne, List.getLast?_eq_some_getLast hne, ?_⟩
  simp [closes, isBlank_of_isAlphanum (h _ (List.getLast_mem hne))]

theorem woven_quoteName {a b : String} (h : (TokenKind.name a).Alike x (.name b)) :
    Woven x closes (quoteName a) (quoteName b) :=
  .glyph (g := .name a) (h := .name b) h rfl rfl rfl rfl

theorem woven_quoteText {a b : String} (h : (TokenKind.text a).Alike x (.text b)) :
    Woven x closes (quoteText a) (quoteText b) :=
  .glyph (g := .text a) (h := .text b) h rfl rfl rfl rfl

theorem woven_nameText (name : String) : Woven x closes (nameText name) (nameText name) := by
  unfold nameText
  split
  · rename_i hplain
    simp only [Bool.and_eq_true, isPlain] at hplain
    obtain ⟨hplain, -⟩ := hplain
    split at hplain
    · cases hplain
    · rename_i c rest hname
      simp only [Bool.and_eq_true, List.all_eq_true] at hplain
      refine woven_steady (fun d hd => ?_) (by simp [hname])
      rw [hname] at hd
      rcases List.mem_cons.mp hd with rfl | hd
      · have hfirst := hplain.1
        simp only [Bool.or_eq_true, Char.isAlphanum] at hfirst ⊢
        exact .inl (hfirst.imp_left .inl)
      · simp [hplain.2 d hd]
  · exact woven_quoteName (.same _)

theorem woven_columnText (column : Column) :
    Woven x closes (columnText column) (columnText column) := by
  unfold columnText
  split
  · rename_i table _
    have hdot : Woven x opens (quoteName table ++ ".") (quoteName table ++ ".") :=
      (woven_quoteName (.same _)).trail (by decide)
    exact hdot.append (woven_nameText column.name)
  · exact woven_nameText column.name

theorem woven_boolText (value : Bool) : Woven x closes (boolText value) (boolText value) := by
  cases value
  · exact .const "FALSE" (by decide) (by decide)
  · exact .const "TRUE" (by decide) (by decide)

theorem woven_symbol (op : Operator) : Woven x closes (symbol op) (symbol op) := by
  refine .const (symbol op) ?_ ?_
  · rcases op with (_ | _ | _ | _ | _ | _ | _ | _) | (_ | _) | (_ | _ | _ | _ | _) <;> decide
  · rcases op with (_ | _ | _ | _ | _ | _ | _ | _) | (_ | _) | (_ | _ | _ | _ | _) <;> decide

theorem steady_number {digits : String} (h : Spells (.number digits) digits) :
    digits.toList ≠ [] ∧ ∀ c ∈ digits.toList, c.isAlphanum || c == '_' || c == '.' := by
  obtain ⟨c, body, hlist, -, hdigit, -, hbody⟩ := h.exists_numeral
  rw [hlist]
  refine ⟨by simp, fun d hd => ?_⟩
  rcases List.mem_cons.mp hd with rfl | hd
  · simp only [Bool.or_eq_true, Bool.and_eq_true, Char.isAlphanum] at hdigit ⊢
    exact hdigit.elim (fun h => .inl (.inl (.inr h))) fun h => .inr h.1
  · have hcontinues := hbody d hd
    simp only [continuesNumber, Bool.or_eq_true] at hcontinues ⊢
    exact hcontinues.imp_left .inl

theorem woven_number {digits : String} (h : Spells (.number digits) digits) :
    Woven x closes digits digits :=
  woven_steady (steady_number h).2 (steady_number h).1

theorem woven_negative {digits : String} (h : Spells (.number digits) digits) :
    Woven x closes ("-" ++ digits) ("-" ++ digits) := by
  obtain ⟨hne, hsteady⟩ := steady_number h
  have hunquoted := unquoted_of_isSteady fun c hc => isSteady_of_isAlphanum (hsteady c hc)
  have htext : ("-" ++ digits).toList = '-' :: digits.toList := by simp
  refine .const _ ⟨fun c hc => ?_, ?_⟩ ?_
  · rw [htext] at hc
    rcases List.mem_cons.mp hc with rfl | hc
    · rfl
    · exact hunquoted.bare c hc
  · rw [htext, List.isChain_cons]
    refine ⟨fun c hc => ?_, hunquoted.chain⟩
    have hc' := isSteady_of_isAlphanum (hsteady c (List.mem_of_mem_head? hc))
    simp only [isSteady, Bool.and_eq_true, bne_iff_ne] at hc'
    simp [opensComment, hc']
  · rw [htext]
    refine ⟨digits.toList.getLast hne, ?_, ?_⟩
    · rw [List.getLast?_cons_of_ne_nil hne]
      exact List.getLast?_eq_some_getLast hne
    · simp [closes, isBlank_of_isAlphanum (hsteady _ (List.getLast_mem hne))]

/-! ## Calls -/

/-- A function name, which a parenthesis follows. -/
theorem woven_function {function : String} (h : Spells (.ident function) function) :
    Woven x opens (function ++ "(") (function ++ "(") := by
  obtain ⟨c, body, hlist, -, -, -, -, hname, hbody⟩ := h.exists_word
  have hsteady : ∀ d ∈ function.toList, isSteady d := by
    rw [hlist]
    intro d hd
    rcases List.mem_cons.mp hd with rfl | hd
    · exact isSteady_of_continuesName (by simp [continuesName_of_startsName hname])
    · exact isSteady_of_continuesName (continuesName_of_nameLength hbody d hd)
  have hword : Woven x (fun _ => true) function function := by
    refine .const function (unquoted_of_isSteady hsteady) ?_
    exact ⟨_, List.getLast?_eq_some_getLast (by simp [hlist]), rfl⟩
  exact hword.trail (by decide)

section Calls

variable {function : String} {arguments arguments' : List String}

theorem woven_arguments {front : String} (hfront : Woven x opens front front)
    (h : List.Forall₂ (Woven x closes) arguments arguments') :
    Woven x closes (front ++ ", ".intercalate arguments ++ ")")
      (front ++ ", ".intercalate arguments' ++ ")") := by
  cases h with
  | nil =>
    simp only [String.intercalate_nil, String.append_empty]
    exact hfront.trail (by decide)
  | cons hfirst hrest =>
    have hall := @Woven.intercalate x closes ", " (by decide) _ _ (.cons hfirst hrest) (by simp)
    exact (hfront.append hall).trail (by decide)

theorem woven_plainCall (hfunction : Spells (.ident function) function)
    (h : List.Forall₂ (Woven x closes) arguments arguments') :
    Woven x closes (plainCall function arguments) (plainCall function arguments') :=
  woven_arguments (woven_function hfunction) h

/-- An argument behind the start of a call, and in front of its end. -/
theorem woven_applied {a a' front : String} (ha : Woven x closes a a')
    (hfront : Unquoted front.toList ∧ ∃ c ∈ front.toList.getLast?, opens (some c)) :
    Woven x closes (front ++ a ++ ")") (front ++ a' ++ ")") :=
  ((Woven.const front hfront.1 hfront.2).append ha).trail (by decide)

/-- The end of a test for being empty, in which an empty text is quoted. -/
theorem woven_emptyText {s s' test : String} (compare : String) (h : Woven x closes s s')
    (hcompare : Trails opens compare) (htest : test = compare ++ (quoteText "" ++ ")")) :
    Woven x closes (s ++ test) (s' ++ test) := by
  rw [htest, ← String.append_assoc, ← String.append_assoc, ← String.append_assoc,
    ← String.append_assoc]
  exact ((h.trail hcompare).append (woven_quoteText (.same _))).trail (by decide)

theorem woven_callText (hfunction : Spells (.ident function) function)
    (h : List.Forall₂ (Woven x closes) arguments arguments') :
    Woven x closes (callText dialect function arguments)
      (callText dialect function arguments') := by
  have hplain := woven_plainCall hfunction h
  unfold callText
  generalize Builtin.ofName? function = builtin?
  cases builtin? with
  | none => exact hplain
  | some builtin =>
    cases h with
    | nil => cases builtin <;> exact hplain
    | @cons a a' rest rest' ha hrest =>
      -- the calls of several arguments are told apart by what follows the first
      have hconcat : Woven x closes ("(" ++ " || ".intercalate (a :: rest) ++ ")")
          ("(" ++ " || ".intercalate (a' :: rest') ++ ")") :=
        woven_applied (Woven.intercalate (by decide) (.cons ha hrest) (by simp)) (by decide)
      cases hrest with
      | nil =>
        cases builtin with
        | length | lower | upper | negation => exact woven_applied ha (by decide)
        | cast type =>
          have hfront : Woven x opens ("CAST(" ++ a ++ " AS ") ("CAST(" ++ a' ++ " AS ") :=
            ((Woven.const "CAST(" (by decide) (by decide)).append ha).trail (by decide)
          have htype : Woven x closes (dialect.castType type) (dialect.castType type) := by
            refine .const _ ?_ ?_ <;> cases dialect <;> cases type <;> decide
          exact (hfront.append htype).trail (by decide)
        | isEmpty =>
          have htwice : Woven x closes ("(" ++ a ++ " IS NULL OR " ++ a)
              ("(" ++ a' ++ " IS NULL OR " ++ a') :=
            (((Woven.const "(" (by decide) (by decide)).append ha).trail (by decide)).append ha
          exact woven_emptyText " = " htwice (by decide) rfl
        | isNotEmpty =>
          have htwice : Woven x closes ("(" ++ a ++ " IS NOT NULL AND " ++ a)
              ("(" ++ a' ++ " IS NOT NULL AND " ++ a') :=
            (((Woven.const "(" (by decide) (by decide)).append ha).trail (by decide)).append ha
          exact woven_emptyText " <> " htwice (by decide) rfl
        | concat => exact hconcat
        | substring | choice => exact hplain
      | @cons b b' rest rest' hb hrest =>
        have hsubstring : Woven x closes ("substr(" ++ a ++ ", " ++ b)
            ("substr(" ++ a' ++ ", " ++ b') :=
          (((Woven.const "substr(" (by decide) (by decide)).append ha).trail (by decide)).append hb
        cases hrest with
        | nil =>
          cases builtin with
          | concat => exact hconcat
          | substring => exact hsubstring.trail (by decide)
          | length | lower | upper | cast | isEmpty | isNotEmpty | choice | negation =>
            exact hplain
        | @cons c c' rest rest' hc hrest =>
          cases hrest with
          | nil =>
            cases builtin with
            | concat => exact hconcat
            | substring => exact ((hsubstring.trail (by decide)).append hc).trail (by decide)
            | choice =>
              have hwhen := (Woven.const "CASE WHEN " (by decide) (by decide)).append ha
              have hthen := (hwhen.trail (t := " THEN ") (by decide)).append hb
              have helse := (hthen.trail (t := " ELSE ") (by decide)).append hc
              exact helse.trail (by decide)
            | length | lower | upper | cast | isEmpty | isNotEmpty | negation => exact hplain
          | cons => cases builtin <;> first | exact hconcat | exact hplain

theorem woven_objectAggregate :
    Woven x opens (dialect.objectAggregate ++ "(") (dialect.objectAggregate ++ "(") := by
  refine .const _ ?_ ?_ <;> cases dialect <;> decide

theorem woven_arrayAggregate (front : String) (hfront : Trails opens front) :
    Woven x opens (dialect.arrayAggregate ++ front) (dialect.arrayAggregate ++ front) := by
  have hword : Woven x closes dialect.arrayAggregate dialect.arrayAggregate := by
    refine .const _ ?_ ?_ <;> cases dialect <;> decide
  exact hword.trail hfront

theorem woven_aggregateText (hfunction : Spells (.ident function) function)
    (h : List.Forall₂ (Woven x closes) arguments arguments') :
    Woven x closes (aggregateText dialect function arguments)
      (aggregateText dialect function arguments') := by
  have hplain := woven_plainCall hfunction h
  unfold aggregateText
  generalize function.toLower = name
  by_cases hbag : name = "make_bag"
  · subst hbag
    exact woven_arguments woven_objectAggregate h
  by_cases hlist : name = "make_list"
  · subst hlist
    exact woven_arguments (woven_arrayAggregate "(" (by decide)) h
  -- the other aggregates of SQL's own have at most one argument
  cases h with
  | nil =>
    by_cases hcount : name = "count"
    · subst hcount
      exact .const "count(*)" (by decide) (by decide)
    · simpa [hbag, hlist, hcount] using hplain
  | cons ha hrest =>
    cases hrest with
    | nil =>
      by_cases hdistinct : name = "dcount"
      · subst hdistinct
        exact woven_applied ha (by decide)
      by_cases hcountif : name = "countif"
      · subst hcountif
        exact ((Woven.const "sum(CASE WHEN " (by decide) (by decide)).append ha).trail (by decide)
      by_cases hset : name = "make_set"
      · subst hset
        exact ((woven_arrayAggregate "(DISTINCT " (by decide)).append ha).trail (by decide)
      simpa [hbag, hlist, hdistinct, hcountif, hset] using hplain
    | cons => simpa [hbag, hlist] using hplain

end Calls

end PipeSql.Sql
