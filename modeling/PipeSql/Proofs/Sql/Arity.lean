import PipeSql.Proofs.Catalog.Agreement
import PipeSql.Proofs.Plan.Arrangement
import PipeSql.Sql.Select

/-! # Calls with a wrong number of arguments

Which plans cannot be written, and which are written alike in both dialects. Main statement: the
plan of a pipeline is refused exactly when one of its calls, at any depth, has a number of arguments
that its function does not take. -/

namespace PipeSql

open Query

/-! ## Parts of expressions -/

/-- The expression stands in another one, at any depth, or it is the other one. -/
inductive Query.Expr.OccursIn (part : Expr) : Expr → Prop where
  | self : OccursIn part part
  | left (op) {left} (right) : OccursIn part left → OccursIn part (.binary op left right)
  | right (op) (left) {right} : OccursIn part right → OccursIn part (.binary op left right)
  | call (function) {arguments e} : e ∈ arguments → OccursIn part e →
      OccursIn part (.call function arguments)
  | aggregate (function) {arguments e} : e ∈ arguments → OccursIn part e →
      OccursIn part (.aggregate function arguments)

namespace Sql

/-- The functions that do not take every number of arguments, with the numbers that they take. -/
def arities : List (String × List Nat) :=
  [("strlen", [1]), ("tolower", [1]), ("toupper", [1]), ("toint", [1]), ("tolong", [1]),
    ("todouble", [1]), ("toreal", [1]), ("tostring", [1]), ("isempty", [1]), ("isnotempty", [1]),
    ("not", [1]), ("iff", [3]), ("iif", [3]), ("substring", [2, 3])]

/-- The function, in any case of its letters, does not take so many arguments. -/
def Miscounted (function : String) (count : Nat) : Prop :=
  ∃ taken, (function.toLower, taken) ∈ arities ∧ count ∉ taken

variable {function : String} {count : Nat} {e : Expr} {es : List Expr} {misfit : Misfit}

/-- A builtin reports the number that it expects exactly when it does not take the given one. -/
theorem miscounted_iff :
    Miscounted function count ↔
      ∃ expected, ((Builtin.ofName? function).bind fun builtin => builtin.expected? count) =
        some expected := by
  unfold Miscounted Builtin.ofName?
  generalize function.toLower = name
  split <;> simp_all [arities, Builtin.expected?]

/-! ## The call that is reported -/

/-- In the expression a function is called with so many arguments, which it does not take. -/
def Misused (e : Expr) (function : String) (count : Nat) : Prop :=
  ∃ arguments, (Expr.call function arguments).OccursIn e ∧ arguments.length = count ∧
    Miscounted function count

/-- The misfit tells of such a call in the expression. -/
def TellsOf (misfit : Misfit) (e : Expr) : Prop :=
  ∃ function count expected, Misused e function count ∧ misfit = .wrongArity function expected count

theorem TellsOf.mono {e' : Expr} (h : TellsOf misfit e)
    (hparts : ∀ part : Expr, part.OccursIn e → part.OccursIn e') : TellsOf misfit e' := by
  obtain ⟨function, count, expected, ⟨arguments, hcall, hcount⟩, rfl⟩ := h
  exact ⟨function, count, expected, ⟨arguments, hparts _ hcall, hcount⟩, rfl⟩

theorem misuseAny?_eq_findSome? (es : List Expr) : misuseAny? es = es.findSome? misuse? := by
  induction es with
  | nil => rfl
  | cons e es ih =>
    rw [misuseAny?, ih, List.findSome?_cons]
    cases misuse? e <;> rfl

theorem misuse?_call (function : String) (arguments : List Expr) :
    misuse? (.call function arguments) = (arguments.findSome? misuse?).or
      (((Builtin.ofName? function).bind fun builtin => builtin.expected? arguments.length).map
        fun expected => .wrongArity function expected arguments.length) := by
  rw [misuse?, misuseAny?_eq_findSome?]

theorem misuse?_aggregate (function : String) (arguments : List Expr) :
    misuse? (.aggregate function arguments) = arguments.findSome? misuse? := by
  rw [misuse?, misuseAny?_eq_findSome?]

theorem tellsOf_of_misuse? (h : misuse? e = some misfit) : TellsOf misfit e := by
  induction e using Expr.tree_induction generalizing misfit with
  | column | text | number | bool => cases h
  | binary op left right ihl ihr =>
    rw [misuse?, Option.or_eq_some_iff] at h
    rcases h with h | ⟨-, h⟩
    · exact (ihl h).mono fun _ => .left op right
    · exact (ihr h).mono fun _ => .right op left
  | call function arguments ih =>
    rw [misuse?_call, Option.or_eq_some_iff] at h
    rcases h with h | ⟨-, h⟩
    · obtain ⟨argument, hargument, h⟩ := List.exists_of_findSome?_eq_some h
      exact (ih argument hargument h).mono fun _ => .call function hargument
    · obtain ⟨expected, hexpected, rfl⟩ := Option.map_eq_some_iff.mp h
      exact ⟨function, _, expected, ⟨arguments, .self, rfl, miscounted_iff.mpr ⟨_, hexpected⟩⟩, rfl⟩
  | aggregate function arguments ih =>
    rw [misuse?_aggregate] at h
    obtain ⟨argument, hargument, h⟩ := List.exists_of_findSome?_eq_some h
    exact (ih argument hargument h).mono fun _ => .aggregate function hargument

/-- Where nothing is reported of an expression, nothing is of its parts. -/
theorem misuse?_eq_none_of_occursIn {part : Expr} (hpart : part.OccursIn e)
    (h : misuse? e = none) : misuse? part = none := by
  induction hpart with
  | self => exact h
  | left op right _ ih =>
    rw [misuse?, Option.or_eq_none_iff] at h
    exact ih h.1
  | right op left _ ih =>
    rw [misuse?, Option.or_eq_none_iff] at h
    exact ih h.2
  | call function hmem _ ih =>
    rw [misuse?_call, Option.or_eq_none_iff, List.findSome?_eq_none_iff] at h
    exact ih (h.1 _ hmem)
  | aggregate function hmem _ ih =>
    rw [misuse?_aggregate, List.findSome?_eq_none_iff] at h
    exact ih (h _ hmem)

theorem not_misused_of_misuse?_eq_none (h : misuse? e = none) : ¬ Misused e function count := by
  rintro ⟨arguments, hcall, rfl, hcount⟩
  obtain ⟨expected, hexpected⟩ := miscounted_iff.mp hcount
  have hnone := misuse?_eq_none_of_occursIn hcall h
  rw [misuse?_call, hexpected] at hnone
  simp at hnone

/-! ## Texts in both dialects -/

/-- The functions that are written as casts. -/
def casts : List String :=
  ["toint", "tolong", "todouble", "toreal", "tostring"]

/-- The aggregates that make JSON. -/
def collections : List String :=
  ["make_bag", "make_list", "make_set"]

/-- No cast and no aggregate that makes JSON occurs in the expression. -/
structure Neutral (e : Expr) : Prop where
  calls : ∀ function arguments, (Expr.call function arguments).OccursIn e →
    function.toLower ∉ casts
  aggregates : ∀ function arguments, (Expr.aggregate function arguments).OccursIn e →
    function.toLower ∉ collections

theorem Neutral.mono {part : Expr} (h : Neutral e)
    (hparts : ∀ inner : Expr, inner.OccursIn part → inner.OccursIn e) : Neutral part :=
  ⟨fun function arguments hcall => h.calls function arguments (hparts _ hcall),
    fun function arguments hcall => h.aggregates function arguments (hparts _ hcall)⟩

variable {dialect other : Dialect}

theorem callText_congr (h : function.toLower ∉ casts) (arguments : List String) :
    callText dialect function arguments = callText other function arguments := by
  have hcast : ∀ type, Builtin.ofName? function ≠ some (.cast type) := by
    intro type hcast
    unfold Builtin.ofName? at hcast
    split at hcast <;> simp_all [casts]
  unfold callText
  split
  case h_4 => exact absurd ‹_› (hcast _)
  all_goals rfl

theorem aggregateText_congr (h : function.toLower ∉ collections) (arguments : List String) :
    aggregateText dialect function arguments = aggregateText other function arguments := by
  unfold aggregateText
  split
  case h_4 | h_5 | h_6 => simp_all [collections]
  all_goals rfl

theorem exprText_congr (h : Neutral e) (least : Nat) :
    exprText dialect least e = exprText other least e := by
  induction e using Expr.tree_induction generalizing least with
  | column | text | number | bool => rfl
  | binary op left right ihl ihr =>
    rw [exprText, exprText, ihl (h.mono fun _ => .left op right),
      ihr (h.mono fun _ => .right op left)]
  | call function arguments ih =>
    have harguments : exprTexts dialect arguments = exprTexts other arguments := by
      rw [exprTexts_eq_map, exprTexts_eq_map]
      exact List.map_congr_left fun e he => ih e he (h.mono fun _ => .call function he) 0
    rw [exprText, exprText, harguments, callText_congr (h.calls function arguments .self)]
  | aggregate function arguments ih =>
    have harguments : exprTexts dialect arguments = exprTexts other arguments := by
      rw [exprTexts_eq_map, exprTexts_eq_map]
      exact List.map_congr_left fun e he => ih e he (h.mono fun _ => .aggregate function he) 0
    rw [exprText, exprText, harguments, aggregateText_congr (h.aggregates function arguments .self)]

theorem exprTexts_congr (h : ∀ e ∈ es, Neutral e) : exprTexts dialect es = exprTexts other es := by
  rw [exprTexts_eq_map, exprTexts_eq_map]
  exact List.map_congr_left fun e he => exprText_congr (h e he) 0

theorem itemText_congr {item : SelectItem} (h : ∀ e ∈ item.expressions, Neutral e)
    (houtput : ∀ of, item = .aggregate of → of.function.toLower ∉ collections) :
    itemText dialect item = itemText other item := by
  cases item with
  | everything => rfl
  | value expr label =>
    have hexpr : exprText dialect 0 expr = exprText other 0 expr :=
      exprText_congr (h expr (List.mem_singleton.mpr rfl)) 0
    rcases label with _ | label
    · exact hexpr
    · cases expr with
      | column => rfl
      | text | number | bool | binary | call | aggregate => simp only [itemText, hexpr]
  | aggregate of =>
    have harguments : exprTexts dialect of.arguments = exprTexts other of.arguments :=
      exprTexts_congr h
    rw [itemText, itemText, harguments, aggregateText_congr (houtput of rfl)]

theorem whereClause_congr (h : ∀ e ∈ es, Neutral e) :
    whereClause dialect es = whereClause other es := by
  have hall : es.map (exprText dialect (rightStrength (.connect .and))) =
      es.map (exprText other (rightStrength (.connect .and))) :=
    List.map_congr_left fun e he => exprText_congr (h e he) _
  rcases es with _ | ⟨e, _ | ⟨second, more⟩⟩
  · rfl
  · rw [whereClause, whereClause, exprText_congr (h e List.mem_cons_self)]
  · rw [whereClause, whereClause, hall] <;> simp

theorem groupClause_congr (h : ∀ e ∈ es, Neutral e) :
    groupClause dialect es = groupClause other es := by
  cases es with
  | nil => rfl
  | cons e es => rw [groupClause, groupClause, exprTexts_congr h] <;> simp

end Sql

/-! ## Plans -/

/-- In an expression of the plan a function is called with so many arguments, which it does not
take. -/
def Plan.Misuses (plan : Plan) (function : String) (count : Nat) : Prop :=
  ∃ e ∈ plan.expressions, Sql.Misused e function count

/-- No cast and no aggregate that makes JSON occurs in the plan. -/
structure Plan.Neutral (plan : Plan) : Prop where
  expressions : ∀ e ∈ plan.expressions, Sql.Neutral e
  outputs : ∀ of, .aggregate of ∈ plan.outputs → of.function.toLower ∉ Sql.collections

section Plans

variable {plan : Plan} {dialect other : Sql.Dialect} {error : Error}

theorem Sql.selectText_congr (h : plan.Neutral) :
    selectText dialect plan = selectText other plan := by
  have hexpressions := h.expressions
  simp only [Plan.expressions, List.forall_mem_append] at hexpressions
  obtain ⟨⟨⟨hitems, hjoins⟩, hfilters⟩, hgroups⟩ := hexpressions
  have hlist : selectListText dialect plan.select = selectListText other plan.select := by
    have houtputs := h.outputs
    unfold Plan.outputs at hitems houtputs
    cases hselect : plan.select with
    | wildcard => rfl
    | items items =>
      rw [hselect] at hitems houtputs
      rw [selectListText, selectListText]
      refine congrArg _ (List.map_congr_left fun item hitem => ?_)
      refine itemText_congr (fun e he => hitems e (List.mem_flatMap.mpr ⟨item, hitem, he⟩)) ?_
      rintro of rfl
      exact houtputs of hitem
  have hclauses : plan.joins.map (joinClause dialect) = plan.joins.map (joinClause other) := by
    refine List.map_congr_left fun join hjoin => ?_
    rw [joinClause, joinClause, exprText_congr (hjoins _ (List.mem_map_of_mem hjoin))]
  rw [selectText, selectText, hlist, hclauses, whereClause_congr hfilters,
    groupClause_congr hgroups]

theorem Sql.select_eq_error :
    select dialect plan = .error error ↔
      ∃ misfit, obstacle? plan = some misfit ∧ error = .misfit misfit 0 := by
  unfold select
  cases obstacle? plan <;> simp [eq_comm]

theorem Sql.obstacle?_eq (h : plan.select.listed ≠ []) :
    obstacle? plan = plan.expressions.findSome? misuse? := by
  rw [← misuseAny?_eq_findSome?]
  unfold obstacle?
  split
  · rename_i hempty
    exact absurd (by rw [hempty]; rfl) h
  · rfl

/-- What is in the way of a plan that selects something is one of its misused functions. -/
theorem Sql.misuses_of_obstacle? {misfit : Misfit} (hsome : plan.select.listed ≠ [])
    (h : obstacle? plan = some misfit) :
    ∃ function count expected, plan.Misuses function count ∧
      misfit = .wrongArity function expected count := by
  rw [obstacle?_eq hsome] at h
  obtain ⟨e, he, h⟩ := List.exists_of_findSome?_eq_some h
  obtain ⟨function, count, expected, hmisused, rfl⟩ := tellsOf_of_misuse? h
  exact ⟨function, count, expected, ⟨e, he, hmisused⟩, rfl⟩

theorem Sql.isSome_obstacle?_of_misuses {function : String} {count : Nat}
    (hsome : plan.select.listed ≠ []) (h : plan.Misuses function count) :
    ∃ misfit, obstacle? plan = some misfit := by
  obtain ⟨e, he, hmisused⟩ := h
  refine Option.ne_none_iff_exists'.mp fun hnone => ?_
  rw [obstacle?_eq hsome, List.findSome?_eq_none_iff] at hnone
  exact not_misused_of_misuse?_eq_none (hnone e he) hmisused

theorem Plan.select_capped (plan : Plan) (n : Nat) : (plan.capped n).select = plan.select := by
  unfold capped
  split <;> rfl

end Plans

/-! ## Pipelines -/

/-- The pipeline of a query text selects something behind all of its stages. -/
theorem Plan.listed_ne_nil_of_pipeline? {catalog? : Option Catalog} {text : String}
    {stages : List Stage} {plan : Plan} (hstages : pipeline? text = some stages)
    (h : ofStages catalog? stages = .ok plan) : plan.select.listed ≠ [] := by
  obtain ⟨texts, -, hread⟩ := pipeline?_eq_some.mp hstages
  obtain ⟨table, rest, rfl, -, hfold⟩ := ofStages_eq_ok.mp h
  refine foldlM_keeps (P := fun plan => plan.select.listed ≠ []) ?_ (List.cons_ne_nil _ _) hfold
  intro stage hstage before after hbefore happly
  exact listed_ne_nil_apply (outputNames_ne_nil_of_parsePipeline hread stage
    (List.mem_cons_of_mem _ hstage)) hbefore happly

/-- The plan of a query text, whatever limits its rows, cannot be written exactly when one of its
functions is called with a number of arguments that it does not take. Then every dialect reports
the same of these calls. Without casts and aggregates that make JSON, all dialects write it the
same. -/
theorem exists_select_eq_error_iff {catalog? : Option Catalog} {text : String}
    {stages : List Stage} {built plan : Plan} {rowLimit? : Option Nat}
    (hstages : pipeline? text = some stages) (hbuilt : Plan.ofStages catalog? stages = .ok built)
    (hplan : plan = rowLimit?.elim built built.capped) :
    (∀ dialect, (∃ error, Sql.select dialect plan = .error error) ↔
        ∃ function count, plan.Misuses function count) ∧
      (∀ dialect error, Sql.select dialect plan = .error error →
        (∀ other, Sql.select other plan = .error error) ∧
          ∃ function count expected, plan.Misuses function count ∧
            error = .misfit (.wrongArity function expected count) 0) ∧
      (plan.Neutral → ∀ dialect other, Sql.select dialect plan = Sql.select other plan) := by
  have hsome : plan.select.listed ≠ [] := by
    have hlisted := Plan.listed_ne_nil_of_pipeline? hstages hbuilt
    rw [hplan]
    cases rowLimit? with
    | none => exact hlisted
    | some n =>
      change (built.capped n).select.listed ≠ []
      rwa [Plan.select_capped]
  refine ⟨fun dialect => ⟨?_, ?_⟩, fun dialect error h => ?_, fun hneutral dialect other => ?_⟩
  · rintro ⟨error, herror⟩
    obtain ⟨misfit, hmisfit, -⟩ := Sql.select_eq_error.mp herror
    obtain ⟨function, count, -, hmisuses, -⟩ := Sql.misuses_of_obstacle? hsome hmisfit
    exact ⟨function, count, hmisuses⟩
  · rintro ⟨function, count, hmisuses⟩
    obtain ⟨misfit, hmisfit⟩ := Sql.isSome_obstacle?_of_misuses hsome hmisuses
    exact ⟨_, Sql.select_eq_error.mpr ⟨misfit, hmisfit, rfl⟩⟩
  · obtain ⟨misfit, hmisfit, rfl⟩ := Sql.select_eq_error.mp h
    obtain ⟨function, count, expected, hmisuses, rfl⟩ := Sql.misuses_of_obstacle? hsome hmisfit
    exact ⟨fun other => Sql.select_eq_error.mpr ⟨_, hmisfit, rfl⟩,
      function, count, expected, hmisuses, rfl⟩
  · unfold Sql.select
    rw [Sql.selectText_congr hneutral]

/-- `strlen(a, b) > 1` -/
def twoLengths : Expr :=
  .binary (.compare .greater) (.call "strlen" [.column (.bare "a"), .column (.bare "b")])
    (.number "1")

theorem exists_select_eq_error_iff_twoLengths :
    pipeline? "T | where strlen(a, b) > 1" = some [.source "T", .filter twoLengths] ∧
      ∃ plan, Plan.ofStages none [.source "T", .filter twoLengths] = .ok plan ∧
        ∃ function count expected, (plan.capped 5).Misuses function count ∧ ∀ dialect,
          Sql.select dialect (plan.capped 5) =
            .error (.misfit (.wrongArity function expected count) 0) := by
  have hpipeline : pipeline? "T | where strlen(a, b) > 1" =
      some [.source "T", .filter twoLengths] :=
    pipeline?_eq_some.mpr ⟨["T".toList, "where strlen(a, b) > 1".toList], by decide, by cbv⟩
  obtain ⟨plan, hplan⟩ : ∃ plan, Plan.ofStages none [.source "T", .filter twoLengths] = .ok plan :=
    ⟨_, rfl⟩
  have hmisuses : (plan.capped 5).Misuses "strlen" 2 := by
    have hlower : "strlen".toLower = "strlen" := by
      rw [Text.toLower_eq_map, ← String.toList_inj, String.toList_map]
      decide
    cases hplan
    refine ⟨twoLengths, List.mem_singleton.mpr rfl, _, .left _ _ .self, rfl, [1], ?_, by decide⟩
    rw [hlower]
    decide
  have hcapped : plan.capped 5 = (some 5).elim plan plan.capped := rfl
  obtain ⟨hfails, hreports, -⟩ := exists_select_eq_error_iff hpipeline hplan hcapped
  obtain ⟨error, herror⟩ := (hfails .sqlite).mpr ⟨_, _, hmisuses⟩
  obtain ⟨hsame, function, count, expected, hcall, rfl⟩ := hreports .sqlite error herror
  exact ⟨hpipeline, plan, hplan, function, count, expected, hcall, hsame⟩

end PipeSql
