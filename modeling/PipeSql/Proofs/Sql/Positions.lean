import PipeSql.Compile
import PipeSql.Proofs.Plan.Pipeline
import PipeSql.Proofs.Plan.Removal
import PipeSql.Proofs.Sql.Spelling
import Mathlib

/-! # Positions among the groups

SQL takes an integer that stands alone in `GROUP BY` for the position of an output. Main statement:
such an integer comes from a name that stands for a number, which an earlier stage wrote. -/

namespace PipeSql

open Query Text

/-! ## Expressions written as integers -/

namespace Sql

/-- A text of digits, behind a sign or not. -/
def isInteger (text : String) : Bool :=
  match text.toList with
  | '+' :: digits | '-' :: digits => !digits.isEmpty && digits.all Char.isDigit
  | digits => !digits.isEmpty && digits.all Char.isDigit

/-- The characters of integers. -/
def isFigure (c : Char) : Bool :=
  c.isDigit || c == '+' || c == '-'

theorem isFigure_of_isInteger {text : String} (h : isInteger text) :
    ∀ c ∈ text.toList, isFigure c := by
  have hdigits : ∀ digits : List Char, (!digits.isEmpty && digits.all Char.isDigit) = true →
      ∀ c ∈ digits, isFigure c := by
    intro digits hall c hc
    simp only [Bool.and_eq_true, List.all_eq_true] at hall
    simp [isFigure, hall.2 c hc]
  unfold isInteger at h
  split at h
  next digits heq =>
    rw [heq, List.forall_mem_cons]
    exact ⟨rfl, hdigits digits h⟩
  next digits heq =>
    rw [heq, List.forall_mem_cons]
    exact ⟨rfl, hdigits digits h⟩
  next => exact hdigits _ h

theorem not_isInteger_of_mem {text : String} {c : Char} (hc : c ∈ text.toList)
    (hfigure : isFigure c = false) : ¬ isInteger text := by
  intro h
  rw [isFigure_of_isInteger h c hc] at hfigure
  cases hfigure

section Texts

variable (dialect : Dialect)

theorem quote_mem_enclosed (quote : Char) (text : String) :
    quote ∈ (enclosed quote text).toList := by
  simp [enclosed]

theorem isFigure_of_isPlain {c : Char} (h : c.isAlpha || c == '_') : isFigure c = false := by
  obtain ⟨-, -, -, hdigit, -⟩ := startsName_of_isPlain h
  have hsign : ∀ sign, (sign.isAlpha || sign == '_') = false → c ≠ sign := by
    rintro sign hsign rfl
    rw [h] at hsign
    cases hsign
  simp [isFigure, hdigit, hsign '+' rfl, hsign '-' rfl]

theorem not_isInteger_nameText (name : String) : ¬ isInteger (nameText name) := by
  unfold nameText
  split
  next hplain =>
    have hword := (Bool.and_eq_true _ _ ▸ hplain).1
    unfold isPlain at hword
    split at hword
    · cases hword
    · rename_i c rest hname
      have hc := (Bool.and_eq_true _ _ ▸ hword).1
      exact not_isInteger_of_mem (hname ▸ List.mem_cons_self) (isFigure_of_isPlain hc)
  next => exact not_isInteger_of_mem (quote_mem_enclosed '"' name) rfl

theorem not_isInteger_columnText (column : Column) : ¬ isInteger (columnText column) := by
  unfold columnText
  split
  next table _ =>
    refine not_isInteger_of_mem (c := '"') ?_ rfl
    simp only [String.toList_append, List.mem_append]
    exact .inl (.inl (quote_mem_enclosed '"' table))
  next => exact not_isInteger_nameText column.name

theorem not_isInteger_callText (function : String) (arguments : List String) :
    ¬ isInteger (callText dialect function arguments) := by
  unfold callText
  split
  case h_10 => exact not_isInteger_of_mem (c := 'C') (by simp [String.toList_append]) rfl
  all_goals
    exact not_isInteger_of_mem (c := '(') (by simp [plainCall, String.toList_append]) rfl

theorem not_isInteger_aggregateText (function : String) (arguments : List String) :
    ¬ isInteger (aggregateText dialect function arguments) := by
  refine not_isInteger_of_mem (c := '(') ?_ rfl
  unfold aggregateText
  split <;> simp [plainCall, String.toList_append]

/-- Only numbers are written as integers. -/
theorem isInteger_exprText_iff (least : Nat) (e : Expr) :
    isInteger (exprText dialect least e) ↔ ∃ digits, e = .number digits ∧ isInteger digits := by
  cases e with
  | number digits => simp [exprText]
  | column c => exact iff_of_false (not_isInteger_columnText c) nofun
  | text value =>
    exact iff_of_false (not_isInteger_of_mem (quote_mem_enclosed '\'' value) rfl) nofun
  | bool value =>
    refine iff_of_false (not_isInteger_of_mem (c := 'E') ?_ rfl) nofun
    cases value <;> simp [exprText, boolText]
  | binary op left right =>
    refine iff_of_false (not_isInteger_of_mem (c := ' ') ?_ rfl) nofun
    rw [exprText, parenthesized]
    split <;> simp [String.toList_append]
  | call function arguments =>
    exact iff_of_false (not_isInteger_callText dialect function _) nofun
  | aggregate function arguments =>
    exact iff_of_false (not_isInteger_aggregateText dialect function _) nofun

end Texts

end Sql

/-! ## The last stage that groups -/

/-- The columns by which a stage groups. -/
def Query.Stage.groupColumns? : Stage → Option (List Column)
  | .summarize _ columns => some columns
  | _ => none

/-- The stages `front` stand before the last one that groups, by `columns`. -/
def LastGroups (stages front : List Stage) (columns : List Column) : Prop :=
  ∃ stage back, stages = front ++ stage :: back ∧ stage.groupColumns? = some columns ∧
    ∀ later ∈ back, later.groupColumns? = none

variable {catalog? : Option Catalog} {stages front : List Stage} {stage : Stage}
variable {columns : List Column} {plan before after : Plan}

theorem Plan.groups_apply (h : plan.apply catalog? stage = .ok after) :
    after.groups = match stage.groupColumns? with
      | some columns => columns.map (plan.scope.resolveColumn false)
      | none => plan.groups := by
  cases stage with
  | projectAway names =>
    obtain ⟨select, rfl⟩ := eq_of_removeNames h
    rfl
  | extend assignments =>
    rw [apply_extend] at h
    cases h
    rfl
  | source | filter | project | summarize | orderBy | limit | take | join | top =>
    cases h
    rfl

theorem Plan.groups_of_lastGroups (hlast : LastGroups stages front columns)
    (hfront : ofStages catalog? front = .ok before) (hplan : ofStages catalog? stages = .ok plan) :
    plan.groups = columns.map (before.scope.resolveColumn false) := by
  obtain ⟨stage, back, rfl, hstage, hback⟩ := hlast
  have hne : front ≠ [] := by
    rintro rfl
    cases hfront
  obtain ⟨_, hbefore, -, hfold⟩ := (ofStages_append hne).mp hplan
  obtain rfl := Except.ok.inj (hfront.symm.trans hbefore)
  rw [List.foldlM_cons, bind_eq_ok_iff] at hfold
  obtain ⟨grouped, hgrouped, hfold⟩ := hfold
  refine foldlM_keeps (P := fun result =>
    result.groups = columns.map (before.scope.resolveColumn false)) ?_ ?_ hfold
  · intro later hlater middle next hgroups happly
    have hnext := groups_apply happly
    rw [hback later hlater] at hnext
    exact hnext.trans hgroups
  · have hgroups := groups_apply hgrouped
    rw [hstage] at hgroups
    exact hgroups

theorem Plan.exists_lastGroups (hplan : ofStages catalog? stages = .ok plan) {e : Expr}
    (he : e ∈ plan.groups) :
    ∃ front columns before, LastGroups stages front columns ∧
      ofStages catalog? front = .ok before := by
  refine ofStages_induction (P := fun done plan => ∀ e ∈ plan.groups, ∃ front columns before,
    LastGroups done front columns ∧ ofStages catalog? front = .ok before) ?_ ?_ hplan e he
  · intro table e he
    cases he
  · intro done stage before after hbefore _ ih happly e he
    have hgroups := groups_apply happly
    cases hstage : stage.groupColumns? with
    | some columns =>
      exact ⟨done, columns, before, ⟨stage, [], rfl, hstage, nofun⟩, hbefore⟩
    | none =>
      rw [hgroups, hstage] at he
      obtain ⟨front, columns, earlier, ⟨last, back, rfl, hlast, hback⟩, hfront⟩ := ih e he
      refine ⟨front, columns, earlier, ⟨last, back ++ [stage], ?_, hlast, ?_⟩, hfront⟩
      · rw [List.append_assoc, List.cons_append]
      · rw [List.forall_mem_append, List.forall_mem_singleton]
        exact ⟨hback, hstage⟩

/-! ## Names that stand for numbers -/

theorem Scope.resolveColumn_eq_number_iff {scope : Scope} {inSelect : Bool} {column : Column}
    {digits : String} :
    scope.resolveColumn inSelect column = .number digits ↔ column.table = none ∧
      ∃ label, scope.output? column.name = some (.value (.number digits) label) := by
  obtain ⟨_ | table, name⟩ := column
  · change scope.resolveColumn inSelect (.bare name) = _ ↔ none = none ∧ ∃ label,
      scope.output? name = some (.value (.number digits) label)
    rw [resolveColumn_bare]
    cases hitem : scope.output? name with
    | none => simp
    | some item =>
      cases item with
      | everything => simp
      | value expr label => simp
      | aggregate of => cases inSelect <;> simp
  · exact iff_of_false nofun nofun

/-- The digits are the whole value that one of the stages gives to a name. -/
def WrittenIn (stages : List Stage) (digits : String) : Prop :=
  ∃ stage ∈ stages, stage.Shaping ∧ .number digits ∈ stage.expressions

theorem inlines_number (W : String → Prop) :
    Inlines (fun e => ∀ digits, e = .number digits → W digits)
      (fun e => ∀ digits, e = .number digits → W digits) fun _ => True where
  column := nofun
  aggregate := nofun
  label _ _ := trivial
  mapColumns := by
    intro f e he hf digits heq
    cases e with
    | column c => exact hf c digits heq
    | number => exact he digits heq
    | text | bool | binary | call | aggregate => cases heq

theorem Plan.writtenIn_of_ofStages (hplan : ofStages catalog? stages = .ok plan) :
    ∀ item ∈ plan.select.listed,
      item.Holds (fun e => ∀ digits, e = .number digits → WrittenIn stages digits)
        fun _ => True := by
  refine ofStages_induction (P := fun done plan => (∀ stage ∈ done, stage ∈ stages) →
    ∀ item ∈ plan.select.listed,
      item.Holds (fun e => ∀ digits, e = .number digits → WrittenIn stages digits)
        fun _ => True) ?_ ?_ hplan fun _ h => h
  · intro table _ item hitem
    obtain rfl := List.mem_singleton.mp hitem
    exact .everything
  · intro done stage before after _ _ ih happly hdone
    rw [List.forall_mem_append, List.forall_mem_singleton] at hdone
    refine holds_apply (inlines_number _) ?_ (fun _ _ _ _ _ => trivial) (ih hdone.1) happly
    rintro hshaping e he digits rfl
    exact ⟨stage, hdone.2, hshaping, he⟩

/-! ## Positions -/

/-- A plan groups by a position exactly where the last stage that groups does so by a name that
stands for an integer, and the integer is one that an earlier stage gives to a name. -/
theorem isInteger_groups_iff (dialect : Sql.Dialect)
    (hplan : Plan.ofStages catalog? stages = .ok plan) :
    (∃ e ∈ plan.groups, Sql.isInteger (Sql.exprText dialect 0 e)) ↔
      ∃ front columns before, LastGroups stages front columns ∧
        Plan.ofStages catalog? front = .ok before ∧
        ∃ column ∈ columns, column.table = none ∧ ∃ digits label,
          before.scope.output? column.name = some (.value (.number digits) label) ∧
          Sql.isInteger digits ∧ WrittenIn front digits := by
  constructor
  · rintro ⟨e, he, hinteger⟩
    obtain ⟨front, columns, before, hlast, hfront⟩ := Plan.exists_lastGroups hplan he
    obtain ⟨digits, rfl, hdigits⟩ := (Sql.isInteger_exprText_iff dialect 0 e).mp hinteger
    rw [Plan.groups_of_lastGroups hlast hfront hplan] at he
    obtain ⟨column, hcolumn, heq⟩ := List.mem_map.mp he
    obtain ⟨hbare, label, houtput⟩ := Scope.resolveColumn_eq_number_iff.mp heq
    refine ⟨front, columns, before, hlast, hfront, column, hcolumn, hbare, digits, label, houtput,
      hdigits, ?_⟩
    cases Plan.output?_of_listed (Plan.writtenIn_of_ofStages hfront) _ _ houtput with
    | value _ hnumber => exact hnumber digits rfl
  · rintro ⟨front, columns, before, hlast, hfront, column, hcolumn, hbare, digits, label, houtput,
      hdigits, -⟩
    refine ⟨.number digits, ?_, (Sql.isInteger_exprText_iff dialect 0 _).mpr ⟨digits, rfl, hdigits⟩⟩
    rw [Plan.groups_of_lastGroups hlast hfront hplan]
    have hnumber : before.scope.resolveColumn false column = .number digits :=
      Scope.resolveColumn_eq_number_iff.mpr ⟨hbare, label, houtput⟩
    exact hnumber ▸ List.mem_map_of_mem hcolumn

def unitStages : List Stage :=
  [.source "people", .extend [⟨"one", .number "1"⟩],
    .project [⟨.column (.bare "name"), none⟩, ⟨.column (.bare "one"), some "unit"⟩]]

def countByUnit : Stage :=
  .summarize [⟨"n", "count", []⟩] [.bare "unit"]

/-- The number stays an integer under a new name. -/
theorem isInteger_groups_unitStages :
    ∃ plan, Plan.ofStages none (unitStages ++ [countByUnit]) = .ok plan ∧
      ∃ e ∈ plan.groups, Sql.isInteger (Sql.exprText .sqlite 0 e) := by
  obtain ⟨before, hbefore, houtput⟩ : ∃ before, Plan.ofStages none unitStages = .ok before ∧
      before.scope.output? "unit" = some (.value (.number "1") (some "unit")) := ⟨_, rfl, rfl⟩
  obtain ⟨plan, hplan⟩ : ∃ plan, Plan.ofStages none (unitStages ++ [countByUnit]) = .ok plan :=
    ⟨_, rfl⟩
  have hlast : LastGroups (unitStages ++ [countByUnit]) unitStages [.bare "unit"] :=
    ⟨countByUnit, [], rfl, rfl, nofun⟩
  have hwritten : WrittenIn unitStages "1" :=
    ⟨.extend [⟨"one", .number "1"⟩], by simp [unitStages], .extend _, List.mem_cons_self⟩
  exact ⟨plan, hplan, (isInteger_groups_iff .sqlite hplan).mpr ⟨unitStages, _, before, hlast,
    hbefore, .bare "unit", List.mem_cons_self, rfl, "1", _, houtput, by decide, hwritten⟩⟩

/-- A constant by which a query groups is taken for the position of an output. -/
theorem exists_isInteger_groups :
    ∃ plan, Request.ofText {} "people | extend one = 1 | summarize n = count() by one" =
        .ok (.plan plan) ∧
      ∃ e ∈ plan.groups, Sql.isInteger (Sql.exprText .sqlite 0 e) := by
  have hsplit : Query.split "people | extend one = 1 | summarize n = count() by one".toList =
      .ok (.stages ["people".toList, "extend one = 1".toList,
        "summarize n = count() by one".toList]) := by decide
  have hparse : parsePipeline ["people".toList, "extend one = 1".toList,
        "summarize n = count() by one".toList] =
      .ok [.source "people", .extend [⟨"one", .number "1"⟩],
        .summarize [⟨"n", "count", []⟩] [.bare "one"]] := by cbv
  refine ⟨_, bind_eq_ok_iff.mpr ⟨_, hsplit, bind_eq_ok_iff.mpr ⟨_, hparse,
    bind_eq_ok_iff.mpr ⟨_, rfl, rfl⟩⟩⟩, .number "1", List.mem_cons_self, by decide⟩

end PipeSql
