import PipeSql.Proofs.Query.Commas
import PipeSql.Proofs.Query.Spans
import PipeSql.Query.Stage.Parse

/-! # Where an empty item is reported

A list with an empty item is refused at one of its commas, which is found by counting. Main
statement: when that comma stands next to the empty item. -/

namespace PipeSql.Query

open PipeSql.Text

variable {arguments text : List Char} {ts before behind : List Token} {comma token : Token}
  {items ahead back : List (List Token)} {depth : Nat}

/-! ## Commas that separate -/

/-- The nesting of parentheses behind tokens, from the nesting in front of them. -/
def nestingFrom (depth : Nat) (ts : List Token) : Nat :=
  ts.foldl (fun depth token => nesting depth token.kind) depth

/-- The comma behind the tokens `before` separates items: it stands outside of parentheses. -/
structure Separates (before : List Token) (comma : Token) (behind ts : List Token) : Prop where
  eq : ts = before ++ comma :: behind
  comma : comma.kind = .comma
  outside : nestingFrom 0 before = 0

theorem pushFront_append {parts : List (List Token)} (token : Token) (h : items ≠ []) :
    pushFront token (items ++ parts) = pushFront token items ++ parts := by
  obtain ⟨item, items, rfl⟩ := List.exists_cons_of_ne_nil h
  rfl

theorem splitCommasFrom_append_comma (hcomma : comma.kind = .comma)
    (houtside : nestingFrom depth before = 0) (behind : List Token) :
    splitCommasFrom depth (before ++ comma :: behind) =
      splitCommasFrom depth before ++ splitCommas behind := by
  induction before generalizing depth with
  | nil =>
    obtain rfl : depth = 0 := houtside
    rw [List.nil_append, splitCommasFrom.eq_def]
    exact if_pos ⟨hcomma, rfl⟩
  | cons token before ih =>
    have hbefore : nestingFrom (nesting depth token.kind) before = 0 := houtside
    rw [List.cons_append, splitCommasFrom, splitCommasFrom]
    split
    · rename_i hseparates
      rw [hseparates.1, nesting] at hbefore
      · rw [ih hbefore, List.cons_append]
      all_goals simp
    · rw [ih hbefore, pushFront_append token (splitCommasFrom_ne_nil _ before)]

/-- Each comma that separates has some of the items in front of it, and the others behind it. -/
theorem Separates.splitCommas_eq (h : Separates before comma behind ts) :
    splitCommas ts = splitCommas before ++ splitCommas behind := by
  rw [h.eq]
  exact splitCommasFrom_append_comma h.comma h.outside behind

theorem exists_comma_of_splitCommasFrom (h : splitCommasFrom depth ts = ahead ++ back)
    (hahead : ahead ≠ []) (hback : back ≠ []) :
    ∃ before comma behind, ts = before ++ comma :: behind ∧ comma.kind = .comma ∧
      nestingFrom depth before = 0 ∧ splitCommasFrom depth before = ahead ∧
        splitCommas behind = back := by
  obtain ⟨item, ahead, rfl⟩ := List.exists_cons_of_ne_nil hahead
  induction ts generalizing depth item ahead with
  | nil =>
    have hnil : [] = ahead ++ back := (List.cons.inj h).2
    exact absurd (List.append_eq_nil_iff.mp hnil.symm).2 hback
  | cons token ts ih =>
    rw [splitCommasFrom] at h
    split at h
    · rename_i hseparates
      obtain ⟨rfl, hrest⟩ := List.cons.inj h
      obtain ⟨hcomma, rfl⟩ := hseparates
      cases ahead with
      | nil => exact ⟨[], token, ts, rfl, hcomma, rfl, rfl, hrest⟩
      | cons next ahead =>
        obtain ⟨before, comma, behind, rfl, hkind, houtside, hbefore, hbehind⟩ :=
          ih _ _ hrest (List.cons_ne_nil _ _)
        refine ⟨token :: before, comma, behind, rfl, hkind, ?_, ?_, hbehind⟩
        · rw [nestingFrom, List.foldl_cons, hcomma]
          exact houtside
        · rw [splitCommasFrom, if_pos ⟨hcomma, rfl⟩, hbefore]
    · rename_i hseparates
      obtain ⟨part, parts, hparts⟩ :=
        List.exists_cons_of_ne_nil (splitCommasFrom_ne_nil (nesting depth token.kind) ts)
      rw [hparts, pushFront, List.cons_append, List.cons.injEq] at h
      obtain ⟨rfl, rfl⟩ := h
      obtain ⟨before, comma, behind, rfl, hkind, houtside, hbefore, hbehind⟩ :=
        ih _ _ hparts (List.cons_ne_nil _ _)
      refine ⟨token :: before, comma, behind, rfl, hkind, houtside, ?_, hbehind⟩
      rw [splitCommasFrom, if_neg hseparates, hbefore, pushFront]

/-- Wherever the items are parted, a comma separates them. -/
theorem exists_separates (h : splitCommas ts = ahead ++ back) (hahead : ahead ≠ [])
    (hback : back ≠ []) :
    ∃ before comma behind, Separates before comma behind ts ∧ splitCommas before = ahead ∧
      splitCommas behind = back := by
  obtain ⟨before, comma, behind, heq, hcomma, houtside, hbefore, hbehind⟩ :=
    exists_comma_of_splitCommasFrom h hahead hback
  exact ⟨before, comma, behind, ⟨heq, hcomma, houtside⟩, hbefore, hbehind⟩

/-! ## All commas -/

/-- The commas among the tokens, inside of parentheses or not. -/
def commas (ts : List Token) : List Token :=
  ts.filter fun token => token.kind == .comma

theorem commas_append (ts ts' : List Token) : commas (ts ++ ts') = commas ts ++ commas ts' :=
  List.filter_append ts ts'

theorem commas_cons_comma (h : comma.kind = .comma) (ts : List Token) :
    commas (comma :: ts) = comma :: commas ts :=
  List.filter_cons_of_pos (by simp [h])

theorem commas_eq_nil_iff : commas ts = [] ↔ ∀ token ∈ ts, token.kind ≠ .comma := by
  simp [commas, List.filter_eq_nil_iff]

/-- Of all commas, one between each two parts separates them, and the others stand in the parts. -/
theorem Listed.length_commas (h : Listed items ts) :
    (commas ts).length + 1 = items.length + (commas items.flatten).length := by
  induction h with
  | one part => simp [Nat.add_comm]
  | more part hcomma _ ih =>
    simp only [commas_append, commas_cons_comma hcomma, List.flatten_cons, List.length_append,
      List.length_cons]
    omega

theorem length_commas (ts : List Token) :
    (commas ts).length + 1 = (splitCommas ts).length + (commas (splitCommas ts).flatten).length :=
  (listed_splitCommasFrom 0 ts).length_commas

/-- The comma has as many commas in front of it as the tokens there. -/
theorem Separates.getElem?_commas (h : Separates before comma behind ts) :
    (commas ts)[(commas before).length]? = some comma := by
  rw [h.eq, commas_append, commas_cons_comma h.comma]
  simp

/-- Commas of a text that start at the same place are one. -/
theorem index_eq_of_start_eq {i j : Nat} {first second : Token} (h : Spans text ts)
    (hfirst : (commas ts)[i]? = some first) (hsecond : (commas ts)[j]? = some second)
    (hstart : first.start = second.start) : i = j := by
  have hcommas : Spans text (commas ts) := h.sublist List.filter_sublist
  have hnodup : ((commas ts).map Token.start).Nodup := by
    refine List.pairwise_map.mpr (hcommas.ordered.imp_of_mem fun {a b} ha _ hab => ?_)
    exact Nat.ne_of_lt ((hcommas.nonempty a ha).trans_le hab)
  have hi : i < ((commas ts).map Token.start).length := by
    rw [List.length_map]
    exact (List.getElem?_eq_some_iff.mp hfirst).1
  refine (List.getElem?_inj hi hnodup).mp ?_
  rw [List.getElem?_map, List.getElem?_map, hfirst, hsecond, Option.map_some, Option.map_some,
    hstart]

/-! ## The first empty item -/

/-- The items ahead of the first empty one. -/
def itemsAhead (ts : List Token) : List (List Token) :=
  (splitCommas ts).takeWhile fun item => !item.isEmpty

/-- The comma separates the first empty item from the ones ahead of it, or from the ones behind. -/
inductive BoundsGap (ts : List Token) (comma : Token) : Prop where
  | opens {before behind : List Token} : Separates before comma behind ts →
    (∀ item ∈ splitCommas before, item ≠ []) → (splitCommas behind).head? = some [] →
      BoundsGap ts comma
  | closes {before behind : List Token} {ahead : List (List Token)} :
    Separates before comma behind ts → splitCommas before = ahead ++ [[]] →
      (∀ item ∈ ahead, item ≠ []) → BoundsGap ts comma

theorem itemsAhead_eq (h : splitCommas ts = ahead ++ [] :: back)
    (hahead : ∀ item ∈ ahead, item ≠ []) : itemsAhead ts = ahead := by
  have hpos : ∀ item ∈ ahead, (!item.isEmpty) = true := by simpa using hahead
  rw [itemsAhead, h, List.takeWhile_append_of_pos hpos, List.takeWhile_cons_of_neg (by simp),
    List.append_nil]

theorem ne_nil_of_mem_itemsAhead : ∀ item ∈ itemsAhead ts, item ≠ [] := by
  intro item hitem
  simpa using List.mem_takeWhile_imp hitem

theorem exists_splitCommas_eq (h : [] ∈ splitCommas ts) :
    ∃ back, splitCommas ts = itemsAhead ts ++ [] :: back := by
  obtain ⟨ahead, back, hsplit, hahead⟩ := List.eq_append_cons_of_mem h
  have hne : ∀ item ∈ ahead, item ≠ [] := fun item hitem hnil => hahead (hnil ▸ hitem)
  exact ⟨back, by rw [itemsAhead_eq hsplit hne, hsplit]⟩

/-- A comma at the first empty item has in front of it the commas that separate the items ahead,
those inside of them, and, if it closes the empty item, the one that opens it. -/
theorem BoundsGap.exists_index (h : BoundsGap ts comma) :
    ∃ i, (commas ts)[i]? = some comma ∧
      (0 < (itemsAhead ts).length ∧
          i + 1 = (itemsAhead ts).length + (commas (itemsAhead ts).flatten).length ∨
        i = (itemsAhead ts).length + (commas (itemsAhead ts).flatten).length) := by
  cases h with
  | @opens before behind hseparates hne hgap =>
    obtain ⟨back, hback⟩ := List.head?_eq_some_iff.mp hgap
    have hahead : itemsAhead ts = splitCommas before :=
      itemsAhead_eq (hback ▸ hseparates.splitCommas_eq) hne
    refine ⟨_, hseparates.getElem?_commas, .inl ?_⟩
    rw [hahead]
    exact ⟨List.length_pos_iff.mpr (splitCommasFrom_ne_nil 0 before), length_commas before⟩
  | @closes before behind ahead hseparates hbefore hne =>
    have hahead : itemsAhead ts = ahead := by
      have hsplit : splitCommas ts = ahead ++ [] :: splitCommas behind := by
        rw [hseparates.splitCommas_eq, hbefore, List.append_assoc, List.singleton_append]
      exact itemsAhead_eq hsplit hne
    have hlength := length_commas before
    simp only [hbefore, List.flatten_append, List.flatten_singleton, List.append_nil,
      List.length_append, List.length_singleton] at hlength
    refine ⟨_, hseparates.getElem?_commas, .inr ?_⟩
    rw [hahead]
    omega

/-- There is a comma at the first empty item: the one that opens it, or else, where it is the first
of all, the one that closes it. -/
theorem exists_boundsGap (hne : ts ≠ []) (hgap : [] ∈ splitCommas ts) :
    ∃ comma, BoundsGap ts comma ∧
      (commas ts)[(itemsAhead ts).length - 1 + (commas (itemsAhead ts).flatten).length]? =
        some comma := by
  obtain ⟨back, hsplit⟩ := exists_splitCommas_eq hgap
  by_cases hahead : itemsAhead ts = []
  · have hfirst : splitCommas ts = [[]] ++ back := by rw [hsplit, hahead]; rfl
    have hback : back ≠ [] := by
      rintro rfl
      rw [List.append_nil] at hfirst
      exact hne (Listed.eq_singleton (hfirst ▸ listed_splitCommasFrom 0 ts))
    obtain ⟨before, comma, behind, hseparates, hbefore, -⟩ :=
      exists_separates hfirst (List.cons_ne_nil _ _) hback
    have hlength := length_commas before
    rw [hbefore] at hlength
    have hnone : (commas before).length = 0 := by simpa [commas] using hlength
    have hcloses : BoundsGap ts comma := .closes hseparates hbefore (List.forall_mem_nil _)
    refine ⟨comma, hcloses, ?_⟩
    rw [hahead, ← hseparates.getElem?_commas, hnone]
    rfl
  · obtain ⟨before, comma, behind, hseparates, hbefore, hbehind⟩ :=
      exists_separates hsplit hahead (List.cons_ne_nil _ _)
    have hlength := length_commas before
    rw [hbefore] at hlength
    have hpos := List.length_pos_iff.mpr hahead
    refine ⟨comma,
      .opens hseparates (hbefore ▸ ne_nil_of_mem_itemsAhead) (by rw [hbehind]; rfl), ?_⟩
    rw [← hseparates.getElem?_commas]
    congr 1
    omega

/-! ## The reported comma -/

/-- A list with an empty item is refused at a comma that is found by counting. -/
theorem listItems_of_gap (hne : ts ≠ []) (hgap : [] ∈ splitCommas ts) :
    ∃ reported, (commas ts)[(itemsAhead ts).length - 1]? = some reported ∧
      listItems arguments ts = .error (misfitWhole arguments reported.start) := by
  obtain ⟨comma, -, hindex⟩ := exists_boundsGap hne hgap
  obtain ⟨hlt, -⟩ := List.getElem?_eq_some_iff.mp hindex
  obtain ⟨reported, hreported⟩ :
      ∃ reported, (commas ts)[(itemsAhead ts).length - 1]? = some reported :=
    ⟨_, List.getElem?_eq_getElem (Nat.lt_of_le_of_lt (Nat.le_add_right _ _) hlt)⟩
  obtain ⟨back, hsplit⟩ := exists_splitCommas_eq hgap
  have hfound : (splitCommas ts).findIdx? List.isEmpty = some (itemsAhead ts).length := by
    have hnone : (itemsAhead ts).findIdx? List.isEmpty = none :=
      List.findIdx?_eq_none_iff.mpr fun item hitem => by
        simpa using ne_nil_of_mem_itemsAhead item hitem
    rw [hsplit, List.findIdx?_append, hnone]
    simp [List.findIdx?_cons]
  refine ⟨reported, hreported, ?_⟩
  rw [commas] at hreported
  simp only [listItems, hfound, hreported]
  rfl

/-- The counted comma is one at the first empty item if and only if no commas stand inside of the
items ahead. -/
theorem exists_boundsGap_iff (h : Spans text ts) (hne : ts ≠ []) (hgap : [] ∈ splitCommas ts)
    {reported : Token} (hreported : (commas ts)[(itemsAhead ts).length - 1]? = some reported) :
    (∃ comma, BoundsGap ts comma ∧ comma.start = reported.start) ↔
      ∀ item ∈ itemsAhead ts, ∀ token ∈ item, token.kind ≠ .comma := by
  have hnone : commas (itemsAhead ts).flatten = [] ↔
      ∀ item ∈ itemsAhead ts, ∀ token ∈ item, token.kind ≠ .comma := by
    rw [commas_eq_nil_iff]
    simp only [List.mem_flatten]
    exact ⟨fun h item hitem token htoken => h token ⟨item, hitem, htoken⟩,
      fun h token ⟨item, hitem, htoken⟩ => h item hitem token htoken⟩
  rw [← hnone]
  constructor
  · rintro ⟨comma, hbounds, hstart⟩
    obtain ⟨i, hi, hcount⟩ := hbounds.exists_index
    have hindex := index_eq_of_start_eq h hi hreported hstart
    exact List.length_eq_zero_iff.mp (by omega)
  · intro hnil
    obtain ⟨comma, hbounds, hindex⟩ := exists_boundsGap hne hgap
    rw [hnil, List.length_nil, Nat.add_zero, hreported] at hindex
    exact ⟨comma, hbounds, congrArg Token.start (Option.some.inj hindex).symm⟩

/-- A list with an empty item is refused at one of its commas. This comma stands outside of
parentheses and next to the first empty item if and only if no commas stand inside of the items
ahead of it. -/
theorem listItems_gap_iff {front : List Token} (hall : tokens arguments = .ok (front ++ ts))
    (hne : ts ≠ []) (hgap : [] ∈ splitCommas ts) :
    ∃ reported ∈ ts, reported.kind = .comma ∧
      listItems arguments ts = .error (misfitWhole arguments reported.start) ∧
        ((∃ comma, BoundsGap ts comma ∧ comma.start = reported.start) ↔
          ∀ item ∈ itemsAhead ts, ∀ token ∈ item, token.kind ≠ .comma) := by
  have hspans : Spans arguments ts :=
    (covering_of_tokens hall).toSpans.sublist (List.sublist_append_right front ts)
  obtain ⟨reported, hreported, herror⟩ := @listItems_of_gap arguments _ hne hgap
  have hmem : reported ∈ commas ts := List.mem_of_getElem? hreported
  obtain ⟨htoken, hkind⟩ := List.mem_filter.mp hmem
  exact ⟨reported, htoken, by simpa using hkind, herror,
    exists_boundsGap_iff hspans hne hgap hreported⟩

/-- The tokens behind `by` in ` by a, f(b),, g(c, d)`. -/
def gapAhead : List Token :=
  [⟨.ident "a", 4, 5⟩, ⟨.comma, 5, 6⟩, ⟨.ident "f", 7, 8⟩, ⟨.openParen, 8, 9⟩, ⟨.ident "b", 9, 10⟩,
    ⟨.closeParen, 10, 11⟩, ⟨.comma, 11, 12⟩, ⟨.comma, 12, 13⟩, ⟨.ident "g", 14, 15⟩,
    ⟨.openParen, 15, 16⟩, ⟨.ident "c", 16, 17⟩, ⟨.comma, 17, 18⟩, ⟨.ident "d", 19, 20⟩,
    ⟨.closeParen, 20, 21⟩]

/-- The comma of a call does not count where the call stands behind the empty item. -/
theorem listItems_gap_iff_callBehind :
    tokens " by a, f(b),, g(c, d)".toList = .ok ([⟨.ident "by", 1, 3⟩] ++ gapAhead) ∧
      gapAhead ≠ [] ∧ [] ∈ splitCommas gapAhead ∧
      ∃ comma, BoundsGap gapAhead comma ∧ listItems " by a, f(b),, g(c, d)".toList gapAhead =
        .error (misfitWhole " by a, f(b),, g(c, d)".toList comma.start) := by
  have hall : tokens " by a, f(b),, g(c, d)".toList =
      .ok ([⟨.ident "by", 1, 3⟩] ++ gapAhead) := by cbv
  have hne : gapAhead ≠ [] := List.cons_ne_nil _ _
  have hgap : [] ∈ splitCommas gapAhead := by decide
  obtain ⟨reported, -, -, herror, hiff⟩ := listItems_gap_iff hall hne hgap
  obtain ⟨comma, hbounds, hstart⟩ := hiff.mpr (by decide)
  exact ⟨hall, hne, hgap, comma, hbounds, hstart ▸ herror⟩

/-- The tokens of ` f(a, b),, c`. -/
def gapBehindCall : List Token :=
  [⟨.ident "f", 1, 2⟩, ⟨.openParen, 2, 3⟩, ⟨.ident "a", 3, 4⟩, ⟨.comma, 4, 5⟩, ⟨.ident "b", 6, 7⟩,
    ⟨.closeParen, 7, 8⟩, ⟨.comma, 8, 9⟩, ⟨.comma, 9, 10⟩, ⟨.ident "c", 11, 12⟩]

/-- An empty item behind a call is reported at the comma of the call. -/
theorem not_boundsGap_behindCall :
    parseStage "project f(a, b),, c".toList = .error (.unexpected "f(a, b),, c".toList 4) ∧
      tokens " f(a, b),, c".toList = .ok gapBehindCall ∧ [] ∈ splitCommas gapBehindCall ∧
      listItems " f(a, b),, c".toList gapBehindCall =
        .error (misfitWhole " f(a, b),, c".toList 4) ∧
      ¬∃ comma, BoundsGap gapBehindCall comma ∧ comma.start = 4 := by
  have hall : tokens " f(a, b),, c".toList = .ok gapBehindCall := by cbv
  have hgap : [] ∈ splitCommas gapBehindCall := by decide
  have hreported : (commas gapBehindCall)[(itemsAhead gapBehindCall).length - 1]? =
      some ⟨.comma, 4, 5⟩ := by decide
  refine ⟨by cbv, hall, hgap, by cbv, fun hbounds => ?_⟩
  have hnone := (exists_boundsGap_iff (covering_of_tokens hall).toSpans (List.cons_ne_nil _ _) hgap
    hreported).mp hbounds
  exact absurd hnone (by decide)

end PipeSql.Query
