import PipeSql.Proofs.Plan.Spelled
import PipeSql.Proofs.Sql.Templates
import PipeSql.Sql.Select

/-! # Contents do not change the structure of SQL

Main statement: plans that differ only in the contents of text literals and in their table are
written with the same tokens but for those contents. -/

namespace PipeSql

open Query

/-! ## Expressions that differ in their texts -/

namespace Query

/-- The operators whose right operand may be a pattern. -/
def Operator.takesPattern : Operator → Bool
  | .compare .like | .compare .unlike => true
  | _ => false

/-- Two expressions are the same but for the contents of their texts, which stand in the place of
one another. A pattern is the same in both. -/
inductive Expr.Alike (texts : String → String → Prop) : Expr → Expr → Prop where
  | column (c) : Alike texts (.column c) (.column c)
  | text {a b} : texts a b → Alike texts (.text a) (.text b)
  | number (digits) : Alike texts (.number digits) (.number digits)
  | bool (value) : Alike texts (.bool value) (.bool value)
  | pattern {op left left'} (value) : op.takesPattern → Alike texts left left' →
      Alike texts (.binary op left (.text value)) (.binary op left' (.text value))
  | binary {op left left' right right'} : (op.takesPattern → ∀ value, right ≠ .text value) →
      Alike texts left left' → Alike texts right right' →
        Alike texts (.binary op left right) (.binary op left' right')
  | call (function) {arguments arguments'} : arguments.length = arguments'.length →
      (∀ {a b}, (a, b) ∈ arguments.zip arguments' → Alike texts a b) →
        Alike texts (.call function arguments) (.call function arguments')
  | aggregate (function) {arguments arguments'} : arguments.length = arguments'.length →
      (∀ {a b}, (a, b) ∈ arguments.zip arguments' → Alike texts a b) →
        Alike texts (.aggregate function arguments) (.aggregate function arguments')

end Query

namespace Sql

variable {x : Exchange} {dialect : Dialect} {e e' : Expr}

theorem woven_parenthesized {s s' : String} (wanted : Bool) (h : Woven x closes s s') :
    Woven x closes (parenthesized wanted s) (parenthesized wanted s') := by
  cases wanted with
  | false => exact h
  | true => exact woven_applied h (by decide)

theorem escapeText_eq_empty {op : Operator} {right : Expr}
    (h : op.takesPattern → ∀ value, right ≠ .text value) : escapeText op right = "" := by
  unfold escapeText
  split
  · exact absurd rfl (h rfl _)
  · exact absurd rfl (h rfl _)
  · rfl

theorem woven_escapeText {s s' : String} (op : Operator) (right : Expr)
    (h : Woven x closes s s') :
    Woven x closes (s ++ escapeText op right) (s' ++ escapeText op right) := by
  have hescape : Woven x closes (s ++ " ESCAPE '\\'") (s' ++ " ESCAPE '\\'") := by
    have htext : " ESCAPE '\\'" = " ESCAPE " ++ quoteText "\\" := by decide
    rw [htext, ← String.append_assoc, ← String.append_assoc]
    exact (h.trail (by decide)).append (woven_quoteText (.same _))
  unfold escapeText
  split
  · split
    · exact hescape
    · simpa using h
  · split
    · exact hescape
    · simpa using h
  · simpa using h

theorem woven_binary {left left' right right' : String} (op : Operator)
    (hleft : Woven x closes left left') (hright : Woven x closes right right') :
    Woven x closes (left ++ " " ++ symbol op ++ " " ++ right)
      (left' ++ " " ++ symbol op ++ " " ++ right') := by
  have hspace : Woven x opens (left ++ " ") (left' ++ " ") := hleft.trail (by decide)
  exact ((hspace.append (woven_symbol op)).trail (by decide)).append hright

theorem forall₂_exprTexts {arguments arguments' : List Expr}
    (hlength : arguments.length = arguments'.length)
    (h : ∀ {a b}, (a, b) ∈ arguments.zip arguments' →
      Woven x closes (exprText dialect 0 a) (exprText dialect 0 b)) :
    List.Forall₂ (Woven x closes) (exprTexts dialect arguments) (exprTexts dialect arguments') := by
  rw [exprTexts_eq_map, exprTexts_eq_map, List.forall₂_map_left_iff, List.forall₂_map_right_iff]
  exact List.forall₂_iff_zip.mpr ⟨hlength, h⟩

theorem Alike.ne_text {texts : String → String → Prop} {value : String} (h : e.Alike texts e')
    (hne : ∀ value, e ≠ .text value) : e' ≠ .text value := by
  rintro rfl
  cases h
  exact hne _ rfl

/-- An expression in a place, of which nothing but the contents of texts is changed. -/
theorem woven_exprText (halike : e.Alike x.texts e') (hspelled : e.Spelled) (least : Nat) :
    Woven x closes (exprText dialect least e) (exprText dialect least e') := by
  induction halike generalizing least with
  | column c => exact woven_columnText c
  | text htexts => exact woven_quoteText (.text htexts)
  | number digits =>
    cases hspelled with
    | number hdigits => exact woven_number hdigits
    | negative hdigits => exact woven_negative hdigits
  | bool value => exact woven_boolText value
  | @pattern op left left' value _ _ ih =>
    cases hspelled with
    | binary _ hleft _ =>
      refine woven_parenthesized _ (woven_escapeText op (.text value) ?_)
      exact woven_binary op (ih hleft _) (woven_quoteText (.same _))
  | @binary op left left' right right' hplain _ hright ihl ihr =>
    cases hspelled with
    | binary _ hl hr =>
      have hplain' : op.takesPattern → ∀ value, right' ≠ .text value := fun hop _ =>
        Alike.ne_text hright (hplain hop)
      rw [exprText, exprText, escapeText_eq_empty hplain, escapeText_eq_empty hplain',
        String.append_empty, String.append_empty]
      exact woven_parenthesized _ (woven_binary op (ihl hl _) (ihr hr _))
  | call function hlength _ ih =>
    cases hspelled with
    | call hfunction harguments =>
      refine woven_callText hfunction (forall₂_exprTexts hlength fun hab => ?_)
      exact ih hab (harguments _ (List.of_mem_zip hab).1) 0
  | aggregate function hlength _ ih =>
    cases hspelled with
    | aggregate hfunction harguments =>
      refine woven_aggregateText hfunction (forall₂_exprTexts hlength fun hab => ?_)
      exact ih hab (harguments _ (List.of_mem_zip hab).1) 0

/-! ## Obstacles -/

end Sql

/-! ## Plans that differ in their texts and in their table -/

/-- Two select items are the same but for the contents of texts. -/
inductive SelectItem.Alike (texts : String → String → Prop) : SelectItem → SelectItem → Prop where
  | everything : Alike texts .everything .everything
  | value {expr expr'} (label) : expr.Alike texts expr' →
      Alike texts (.value expr label) (.value expr' label)
  | aggregate (label function) {arguments arguments'} :
      List.Forall₂ (Expr.Alike texts) arguments arguments' →
        Alike texts (.aggregate ⟨label, function, arguments⟩)
          (.aggregate ⟨label, function, arguments'⟩)

/-- Two select lists are the same but for the contents of texts. -/
inductive SelectList.Alike (texts : String → String → Prop) : SelectList → SelectList → Prop where
  | wildcard : Alike texts .wildcard .wildcard
  | items {list list'} : List.Forall₂ (SelectItem.Alike texts) list list' →
      Alike texts (.items list) (.items list')

/-- Two joins are the same but for the contents of texts in their condition. -/
structure Join.Alike (texts : String → String → Prop) (join join' : Join) : Prop where
  kind : join.kind = join'.kind
  table : join.table = join'.table
  on : join.on.Alike texts join'.on

namespace Plan

/-- Two plans are the same but for the contents of texts, and for the table that they start from. -/
structure Alike (texts : String → String → Prop) (plan plan' : Plan) : Prop where
  joins : List.Forall₂ (Join.Alike texts) plan.joins plan'.joins
  select : plan.select.Alike texts plan'.select
  filters : List.Forall₂ (Expr.Alike texts) plan.filters plan'.filters
  groups : List.Forall₂ (Expr.Alike texts) plan.groups plan'.groups
  order : plan.order = plan'.order
  limit : plan.limit = plan'.limit

end Plan

namespace Sql

variable {x : Exchange} {dialect : Dialect} {plan plan' : Plan}

/-! ## Clauses -/

theorem woven_labelled {s s' : String} (h : Woven x closes s s') (label : String) :
    Woven x closes (s ++ " AS " ++ nameText label) (s' ++ " AS " ++ nameText label) :=
  (h.trail (by decide)).append (woven_nameText label)

theorem itemText_of_ne_column {expr : Expr} (label : String) (h : ∀ c, expr ≠ .column c) :
    itemText dialect (.value expr (some label)) =
      exprText dialect 0 expr ++ " AS " ++ nameText label := by
  cases expr with
  | column c => exact absurd rfl (h c)
  | text | number | bool | binary | call | aggregate => rfl

theorem Alike.ne_column {texts : String → String → Prop} {e e' : Expr} (h : e.Alike texts e')
    (hne : ∀ c, e ≠ .column c) : ∀ c, e' ≠ .column c := by
  rintro c rfl
  cases h
  exact hne c rfl

theorem woven_itemText {item item' : SelectItem} (h : item.Alike x.texts item')
    (hspelled : item.Spelled) :
    Woven x closes (itemText dialect item) (itemText dialect item') := by
  cases h with
  | everything => exact .const "*" (by decide) (by decide)
  | @value expr expr' label halike =>
    cases hspelled with
    | value _ hexpr =>
      have hwoven : Woven x closes (exprText dialect 0 expr) (exprText dialect 0 expr') :=
        woven_exprText halike hexpr 0
      cases label with
      | none => exact hwoven
      | some label =>
        by_cases hcolumn : ∃ c, expr = .column c
        · obtain ⟨c, rfl⟩ := hcolumn
          cases halike
          simp only [itemText]
          split
          · exact woven_nameText label
          · exact woven_labelled (woven_columnText c) label
        · have hne := not_exists.mp hcolumn
          rw [itemText_of_ne_column label hne,
            itemText_of_ne_column label (Alike.ne_column halike hne)]
          exact woven_labelled hwoven label
  | @aggregate label function arguments arguments' harguments =>
    cases hspelled with
    | aggregate _ hfunction hexpressions =>
      obtain ⟨hlength, halike⟩ := List.forall₂_iff_zip.mp harguments
      refine woven_labelled (woven_aggregateText hfunction
        (forall₂_exprTexts hlength fun hab => ?_)) label
      exact woven_exprText (halike hab) (hexpressions _ (List.of_mem_zip hab).1) 0

/-- Two clauses that may stand behind woven texts. -/
def Adjoins (x : Exchange) (t t' : String) : Prop :=
  ∀ s s', Woven x closes s s' → Woven x closes (s ++ t) (s' ++ t')

theorem adjoins_empty : Adjoins x "" "" := by
  intro s s' h
  simpa using h

theorem adjoins_clause {front t t' : String} (hfront : Trails opens front)
    (h : Woven x closes t t') : Adjoins x (front ++ t) (front ++ t') := by
  intro s s' hs
  rw [← String.append_assoc, ← String.append_assoc]
  exact (hs.trail hfront).append h

theorem Adjoins.join {ts ts' : List String} (h : List.Forall₂ (Adjoins x) ts ts') :
    Adjoins x (String.join ts) (String.join ts') := by
  induction h with
  | nil => exact adjoins_empty
  | cons hfirst _ ih =>
    intro s s' hs
    rw [String.join_cons, String.join_cons, ← String.append_assoc, ← String.append_assoc]
    exact ih _ _ (hfirst _ _ hs)

theorem adjoins_joinClause {join join' : Join} (h : join.Alike x.texts join')
    (hspelled : join.on.Spelled) :
    Adjoins x (joinClause dialect join) (joinClause dialect join') := by
  have htable : Woven x opens (quoteName join.table ++ " ON ")
      (quoteName join'.table ++ " ON ") := by
    rw [h.table]
    exact (woven_quoteName (.same _)).trail (by decide)
  have hfront : Trails opens (" " ++ joinText join.kind ++ " ") := by
    cases join.kind <;> decide
  have hon : Woven x closes (exprText dialect 0 join.on) (exprText dialect 0 join'.on) :=
    woven_exprText h.on hspelled 0
  have hall := adjoins_clause hfront (htable.append hon)
  simpa only [joinClause, h.kind, String.append_assoc] using hall

theorem adjoins_whereClause {filters filters' : List Expr}
    (h : List.Forall₂ (Expr.Alike x.texts) filters filters') (hspelled : ∀ e ∈ filters, e.Spelled) :
    Adjoins x (whereClause dialect filters) (whereClause dialect filters') := by
  cases h with
  | nil => exact adjoins_empty
  | @cons first first' rest rest' hfirst hrest =>
    have hspelled' := hspelled first List.mem_cons_self
    cases hrest with
    | nil => exact adjoins_clause (by decide) (woven_exprText hfirst hspelled' 0)
    | cons hsecond hrest =>
      refine adjoins_clause (by decide) (.intercalate (by decide) ?_ (by simp))
      rw [List.forall₂_map_left_iff, List.forall₂_map_right_iff]
      have hall := List.Forall₂.cons hfirst (.cons hsecond hrest)
      obtain ⟨hlength, halike⟩ := List.forall₂_iff_zip.mp hall
      refine List.forall₂_iff_zip.mpr ⟨hlength, fun hab => ?_⟩
      exact woven_exprText (halike hab) (hspelled _ (List.of_mem_zip hab).1) _

theorem adjoins_groupClause {groups groups' : List Expr}
    (h : List.Forall₂ (Expr.Alike x.texts) groups groups') (hspelled : ∀ e ∈ groups, e.Spelled) :
    Adjoins x (groupClause dialect groups) (groupClause dialect groups') := by
  obtain ⟨hlength, halike⟩ := List.forall₂_iff_zip.mp h
  have htexts : List.Forall₂ (Woven x closes) (exprTexts dialect groups)
      (exprTexts dialect groups') :=
    forall₂_exprTexts hlength fun hab =>
      woven_exprText (halike hab) (hspelled _ (List.of_mem_zip hab).1) 0
  cases h with
  | nil => exact adjoins_empty
  | cons => exact adjoins_clause (by decide) (.intercalate (by decide) htexts (by simp [exprTexts]))

theorem adjoins_orderClause (keys : List SortKey) :
    Adjoins x (orderClause keys) (orderClause keys) := by
  have hkey : ∀ key, Woven x closes (sortKeyText key) (sortKeyText key) := by
    intro key
    refine ((woven_columnText key.column).trail (by decide)).append (.const _ ?_ ?_) <;>
      cases key.direction <;> decide
  cases keys with
  | nil => exact adjoins_empty
  | cons key keys =>
    refine adjoins_clause (by decide) (.intercalate (by decide) ?_ (by simp))
    rw [List.forall₂_map_left_iff, List.forall₂_map_right_iff]
    exact List.forall₂_same.mpr fun key _ => hkey key

theorem adjoins_limitClause (limit : Option Nat) :
    Adjoins x (limitClause limit) (limitClause limit) := by
  cases limit with
  | none => exact adjoins_empty
  | some n =>
    have hdigits : (toString n).toList = Nat.toDigits 10 n := by
      rw [Nat.toString_eq_repr, Nat.toList_repr]
    refine adjoins_clause (by decide) (woven_steady (fun c hc => ?_) ?_)
    · rw [hdigits] at hc
      have hdigit := Nat.isDigit_of_mem_toDigits (by decide) (by decide) hc
      simp [Char.isAlphanum, hdigit]
    · rw [hdigits]
      exact Nat.toDigits_ne_nil

theorem woven_selectListText {list list' : SelectList} (h : list.Alike x.texts list')
    (hne : list ≠ .items [])
    (hspelled : ∀ items, list = .items items → ∀ item ∈ items, item.Spelled) :
    Woven x closes (selectListText dialect list) (selectListText dialect list') := by
  cases h with
  | wildcard => exact .const "*" (by decide) (by decide)
  | @items list list' halike =>
    obtain ⟨hlength, halike⟩ := List.forall₂_iff_zip.mp halike
    refine .intercalate (by decide) ?_ ?_
    · rw [List.forall₂_map_left_iff, List.forall₂_map_right_iff]
      refine List.forall₂_iff_zip.mpr ⟨hlength, fun hab => ?_⟩
      exact woven_itemText (halike hab) (hspelled _ rfl _ (List.of_mem_zip hab).1)
    · intro hnil
      rw [List.map_eq_nil_iff.mp hnil] at hne
      exact hne rfl

/-! ## Statements -/

theorem Alike.outputs {texts : String → String → Prop} (h : plan.Alike texts plan') :
    List.Forall₂ (SelectItem.Alike texts) plan.outputs plan'.outputs := by
  have hselect := h.select
  unfold Plan.outputs
  generalize plan.select = list at hselect
  generalize plan'.select = list' at hselect
  cases hselect with
  | wildcard => exact .nil
  | items halike => exact halike

theorem Alike.expressions {texts : String → String → Prop} (h : plan.Alike texts plan') :
    List.Forall₂ (Expr.Alike texts) plan.expressions plan'.expressions := by
  have houtputs : List.Forall₂ (Expr.Alike texts)
      (plan.outputs.flatMap SelectItem.expressions)
      (plan'.outputs.flatMap SelectItem.expressions) := by
    refine List.rel_flatMap (Alike.outputs h) fun item item' hitem => ?_
    cases hitem with
    | everything => exact .nil
    | value label halike => exact .cons halike .nil
    | aggregate label function harguments => exact harguments
  have hjoins : List.Forall₂ (Expr.Alike texts) (plan.joins.map Join.on)
      (plan'.joins.map Join.on) := by
    rw [List.forall₂_map_left_iff, List.forall₂_map_right_iff]
    exact h.joins.imp fun _ _ hjoin => hjoin.on
  exact List.rel_append (List.rel_append (List.rel_append houtputs hjoins) h.filters) h.groups

theorem select_eq_ok {sql : String} :
    select dialect plan = .ok sql ↔ obstacle? plan = none ∧ sql = selectText dialect plan := by
  unfold select
  cases obstacle? plan <;> simp [eq_comm]

theorem woven_selectText (h : plan.Alike x.texts plan') (hspelled : plan.Spelled)
    (htable : x.names plan.table plan'.table) (hobstacle : obstacle? plan = none) :
    Woven x closes (selectText dialect plan) (selectText dialect plan') := by
  have hne : plan.select ≠ .items [] := by
    intro hempty
    simp [obstacle?, hempty] at hobstacle
  have hlist : Woven x closes (selectListText dialect plan.select)
      (selectListText dialect plan'.select) := by
    refine woven_selectListText h.select hne fun items hitems item hitem => ?_
    exact hspelled.outputs item (by simpa [Plan.outputs, hitems] using hitem)
  have hfrom : Woven x closes
      ("SELECT " ++ selectListText dialect plan.select ++ " FROM " ++ quoteName plan.table)
      ("SELECT " ++ selectListText dialect plan'.select ++ " FROM " ++ quoteName plan'.table) := by
    have hselect : Woven x opens "SELECT " "SELECT " := .const _ (by decide) (by decide)
    exact ((hselect.append hlist).trail (by decide)).append (woven_quoteName (.name htable))
  have hjoins : Adjoins x (String.join (plan.joins.map (joinClause dialect)))
      (String.join (plan'.joins.map (joinClause dialect))) := by
    refine .join ?_
    rw [List.forall₂_map_left_iff, List.forall₂_map_right_iff]
    obtain ⟨hlength, halike⟩ := List.forall₂_iff_zip.mp h.joins
    refine List.forall₂_iff_zip.mpr ⟨hlength, fun {join _} hab => ?_⟩
    exact adjoins_joinClause (halike hab) (hspelled.joins join (List.of_mem_zip hab).1)
  have hwhere : Adjoins x (whereClause dialect plan.filters) (whereClause dialect plan'.filters) :=
    adjoins_whereClause h.filters hspelled.filters
  have hgroups : Adjoins x (groupClause dialect plan.groups) (groupClause dialect plan'.groups) :=
    adjoins_groupClause h.groups hspelled.groups
  unfold selectText
  rw [← h.order, ← h.limit]
  exact adjoins_limitClause _ _ _ (adjoins_orderClause _ _ _
    (hgroups _ _ (hwhere _ _ (hjoins _ _ hfrom))))

theorem Alike.refl (e : Expr) : e.Alike Eq e := by
  induction e using Expr.tree_induction with
  | column c => exact .column c
  | text value => exact .text rfl
  | number digits => exact .number digits
  | bool value => exact .bool value
  | binary op left right hleft hright =>
    by_cases h : op.takesPattern ∧ ∃ value, right = .text value
    · obtain ⟨hop, value, rfl⟩ := h
      exact .pattern value hop hleft
    · exact .binary (fun hop value hvalue => h ⟨hop, value, hvalue⟩) hleft hright
  | call function arguments ih =>
    exact .call function rfl (List.forall₂_iff_zip.mp (List.forall₂_same.mpr ih)).2
  | aggregate function arguments ih =>
    exact .aggregate function rfl (List.forall₂_iff_zip.mp (List.forall₂_same.mpr ih)).2

theorem Alike.refl_item (item : SelectItem) : item.Alike Eq item := by
  cases item with
  | everything => exact .everything
  | value expr label => exact .value label (Alike.refl expr)
  | aggregate of => exact .aggregate _ _ (List.forall₂_same.mpr fun e _ => Alike.refl e)

theorem Alike.refl_plan (plan : Plan) : plan.Alike Eq plan where
  joins := List.forall₂_same.mpr fun join _ => ⟨rfl, rfl, Alike.refl join.on⟩
  select := by
    cases plan.select with
    | wildcard => exact .wildcard
    | items list => exact .items (List.forall₂_same.mpr fun item _ => Alike.refl_item item)
  filters := List.forall₂_same.mpr fun e _ => Alike.refl e
  groups := List.forall₂_same.mpr fun e _ => Alike.refl e
  order := rfl
  limit := rfl

/-- What is written for a plan starts with the word `SELECT`. -/
theorem exists_select {sql : String} (h : select dialect plan = .ok sql) :
    ∃ rest, sql.toList = "SELECT ".toList ++ rest := by
  obtain ⟨-, rfl⟩ := select_eq_ok.mp h
  simp only [selectText, String.toList_append, List.append_assoc]
  exact ⟨_, rfl⟩

/-- What is written for a plan consists of pieces, the last of which is no blank. -/
theorem exists_written_select {sql : String} (hspelled : plan.Spelled)
    (h : select dialect plan = .ok sql) :
    ∃ gs, sql.toList = written gs ∧ Even (gs.map Glyph.outline) ∧
      ∃ last ∈ (gs.map Glyph.outline).getLast?, closes last := by
  obtain ⟨hobstacle, rfl⟩ := select_eq_ok.mp h
  have hwoven : Woven ⟨Eq, Eq⟩ closes (selectText dialect plan) (selectText dialect plan) :=
    woven_selectText (Alike.refl_plan plan) hspelled rfl hobstacle
  obtain ⟨gs, hs, hweaves, hlast⟩ := hwoven
  exact ⟨gs, hweaves.left, hweaves.even, hlast⟩

end Sql

end PipeSql
