import PipeSql.Proofs.Query.Expr.Soundness
import PipeSql.Proofs.Query.Expr.Spelled
import PipeSql.Proofs.Query.Stage
import PipeSql.Query.Stage.Parse

/-! # What holds of all that is read

A property that tokens carry over to the expressions that they spell holds of every expression of
a parsed query: its stages only cut the tokens of a text into parts. -/

namespace PipeSql.Query

/-! ## Parts of the tokens -/

section Parts

variable {ts part value before behind : List Token}

theorem sublist_of_mem_splitCommasFrom {depth : Nat} (h : part ∈ splitCommasFrom depth ts) :
    part.Sublist ts := by
  induction ts generalizing depth part with
  | nil =>
    obtain rfl := List.mem_singleton.mp h
    exact List.nil_sublist _
  | cons token rest ih =>
    rw [splitCommasFrom] at h
    split at h
    · rcases List.mem_cons.mp h with rfl | h
      · exact List.nil_sublist _
      · exact (ih h).cons token
    · have hrest : ∀ inner ∈ splitCommasFrom (nesting depth token.kind) rest,
          inner.Sublist rest := fun inner hinner => ih hinner
      cases hparts : splitCommasFrom (nesting depth token.kind) rest with
      | nil => exact absurd hparts (splitCommasFrom_ne_nil _ _)
      | cons first more =>
        rw [hparts] at h hrest
        rcases List.mem_cons.mp h with rfl | h
        · exact (hrest first List.mem_cons_self).cons_cons token
        · exact (hrest part (List.mem_cons_of_mem _ h)).cons token

theorem sublist_of_mem_splitCommas (h : part ∈ splitCommas ts) : part.Sublist ts :=
  sublist_of_mem_splitCommasFrom h

theorem sublist_of_assignment? {name : String} (h : assignment? ts = some (name, value)) :
    value.Sublist ts := by
  unfold assignment? at h
  split at h
  · split at h
    · obtain ⟨n, -, heq⟩ := Option.map_eq_some_iff.mp h
      cases heq
      exact ((List.Sublist.refl _).cons _).cons _
    · cases h
  · cases h

theorem sublist_of_labelled? {label : String} (h : labelled? ts = some (value, label)) :
    value.Sublist ts := by
  unfold labelled? at h
  split at h
  · rename_i last word front hreverse
    split at h
    · obtain ⟨n, -, heq⟩ := Option.map_eq_some_iff.mp h
      cases heq
      rw [← List.reverse_sublist, hreverse, List.reverse_reverse]
      exact ((List.Sublist.refl _).cons _).cons _
    · cases h
  · cases h

theorem sublist_of_splitAtBy {depth : Nat} (h : splitAtBy depth ts = some (before, behind)) :
    before.Sublist ts := by
  induction ts generalizing depth before with
  | nil => cases h
  | cons token rest ih =>
    simp only [splitAtBy] at h
    split at h
    · cases h
      exact List.nil_sublist _
    · obtain ⟨⟨inner, more⟩, hinner, heq⟩ := Option.map_eq_some_iff.mp h
      cases heq
      exact (ih hinner).cons_cons token

theorem sublist_of_parseJoinKind {arguments : List Char} {kind : JoinKind}
    (h : parseJoinKind arguments ts = .ok (kind, behind)) : behind.Sublist ts := by
  unfold parseJoinKind at h
  split at h
  · split at h
    · split at h
      · cases h
        exact (((List.Sublist.refl _).cons _).cons _).cons _
      · cases h
    · cases h
      exact List.Sublist.refl _
  · cases h
    exact List.Sublist.refl _

theorem eq_splitCommas_of_listItems {arguments : List Char} {items : List (List Token)}
    (h : listItems arguments ts = .ok items) : items = splitCommas ts := by
  unfold listItems at h
  simp only at h
  split at h
  · cases h
    rfl
  · cases h

theorem tokens_of_someTokens {arguments : List Char} (h : someTokens arguments = .ok ts) :
    tokens arguments = .ok ts := by
  obtain ⟨all, hall, h⟩ := bind_eq_ok_iff.mp h
  split at h
  · cases h
  · cases h
    exact hall

end Parts

/-! ## Kinds of stages -/

section Kinds

variable {arguments text : List Char} {stage : Stage}

theorem exists_of_parseOrderBy (h : parseOrderBy arguments = .ok stage) :
    ∃ keys, stage = .orderBy keys := by
  unfold parseOrderBy at h
  obtain ⟨ts, -, h⟩ := bind_eq_ok_iff.mp h
  split at h
  · cases h
  split at h
  · obtain ⟨items, -, h⟩ := bind_eq_ok_iff.mp h
    obtain ⟨keys, -, h⟩ := bind_eq_ok_iff.mp h
    cases h
    exact ⟨keys, rfl⟩
  · cases h

theorem exists_of_parseTop (h : parseTop arguments text = .ok stage) :
    ∃ count key, stage = .top count key := by
  unfold parseTop at h
  obtain ⟨ts, -, h⟩ := bind_eq_ok_iff.mp h
  split at h
  · cases h
  simp only at h
  split at h
  · cases h
  · cases h
  split at h
  · obtain ⟨key, -, h⟩ := bind_eq_ok_iff.mp h
    cases h
    exact ⟨_, key, rfl⟩
  · cases h

theorem exists_of_parseJoin (h : parseJoin arguments = .ok stage) :
    ∃ kind table on, stage = .join kind table on := by
  unfold parseJoin at h
  obtain ⟨ts, -, h⟩ := bind_eq_ok_iff.mp h
  obtain ⟨⟨kind, rest⟩, -, h⟩ := bind_eq_ok_iff.mp h
  simp only at h
  split at h
  · cases h
  split at h
  · cases h
  split at h
  · cases h
  obtain ⟨condition, -, h⟩ := bind_eq_ok_iff.mp h
  cases h
  exact ⟨kind, _, condition, rfl⟩

theorem exists_of_parseSummarize (h : parseSummarize arguments = .ok stage) :
    ∃ aggregates groups, stage = .summarize aggregates groups ∧
      (aggregates ≠ [] ∨ groups ≠ []) := by
  have hstage : ∀ {aggregates : List Aggregate} {groups : List Column} {error : Error},
      (if (aggregates.isEmpty && groups.isEmpty) = true then .error error
        else .ok (.summarize aggregates groups)) = Except.ok stage →
        ∃ aggregates groups, stage = .summarize aggregates groups ∧
          (aggregates ≠ [] ∨ groups ≠ []) := by
    intro aggregates groups error h
    split at h
    · cases h
    · rename_i hsome
      cases h
      exact ⟨aggregates, groups, rfl, by simpa [Classical.or_iff_not_imp_left] using hsome⟩
  unfold parseSummarize at h
  obtain ⟨ts, -, h⟩ := bind_eq_ok_iff.mp h
  simp only at h
  split at h <;>
  · split at h <;>
    · obtain ⟨aggregates, -, h⟩ := bind_eq_ok_iff.mp h
      split at h <;>
      · obtain ⟨groups, -, h⟩ := bind_eq_ok_iff.mp h
        exact hstage h

theorem ne_nil_of_listItems {ts : List Token} {items : List (List Token)}
    (h : listItems arguments ts = .ok items) : items ≠ [] := by
  rw [eq_splitCommas_of_listItems h]
  exact splitCommasFrom_ne_nil 0 ts

/-- A stage that replaces all outputs has one itself. -/
theorem outputNames_ne_nil_of_parseStage (h : parseStage text = .ok stage) :
    ∀ names ∈ stage.outputNames?, names ≠ [] := by
  unfold parseStage at h
  simp only at h
  intro names hnames
  split at h
  case h_3 =>
    obtain ⟨ts, -, h⟩ := bind_eq_ok_iff.mp h
    obtain ⟨items, hitems, h⟩ := bind_eq_ok_iff.mp h
    obtain ⟨projections, hprojections, h⟩ := bind_eq_ok_iff.mp h
    cases h
    cases hnames
    simpa using mapM_ne_nil hprojections (ne_nil_of_listItems hitems)
  case h_6 =>
    obtain ⟨aggregates, groups, rfl, hsome⟩ := exists_of_parseSummarize h
    cases hnames
    simpa [Classical.or_iff_not_imp_left] using hsome
  -- the other stages keep outputs or have no outputs of their own
  case h_1 | h_2 =>
    obtain ⟨ts, -, h⟩ := bind_eq_ok_iff.mp h
    obtain ⟨expr, -, h⟩ := bind_eq_ok_iff.mp h
    cases h
    cases hnames
  case h_4 | h_5 =>
    obtain ⟨ts, -, h⟩ := bind_eq_ok_iff.mp h
    obtain ⟨items, -, h⟩ := bind_eq_ok_iff.mp h
    obtain ⟨names, -, h⟩ := bind_eq_ok_iff.mp h
    cases h
    cases hnames
  case h_7 | h_8 =>
    obtain ⟨keys, rfl⟩ := exists_of_parseOrderBy h
    cases hnames
  case h_9 | h_10 =>
    obtain ⟨count, -, h⟩ := bind_eq_ok_iff.mp h
    cases h
    cases hnames
  case h_11 =>
    obtain ⟨kind, table, on, rfl⟩ := exists_of_parseJoin h
    cases hnames
  case h_12 =>
    obtain ⟨count, key, rfl⟩ := exists_of_parseTop h
    cases hnames
  case h_13 => cases h

theorem outputNames_ne_nil_of_parsePipeline {texts : List (List Char)} {stages : List Stage}
    (h : parsePipeline texts = .ok stages) :
    ∀ stage ∈ stages, ∀ names ∈ stage.outputNames?, names ≠ [] := by
  cases texts with
  | nil => cases h
  | cons first rest =>
    obtain ⟨source, hsource, h⟩ := bind_eq_ok_iff.mp h
    obtain ⟨others, hothers, h⟩ := bind_eq_ok_iff.mp h
    cases h
    intro stage hstage names hnames
    rcases List.mem_cons.mp hstage with rfl | hstage
    · unfold parseSource at hsource
      split at hsource <;> cases hsource
      cases hnames
    · obtain ⟨text, -, htext⟩ := exists_of_mapM_eq_ok hothers stage hstage
      exact outputNames_ne_nil_of_parseStage htext names hnames

end Kinds

/-! ## What tokens carry over -/

/-- A property of the tokens of a text, and one that it carries over to the expressions that such
tokens spell. -/
structure Carries (Q : TokenKind → Prop) (P : Expr → Prop) : Prop where
  tokens : ∀ {source ts}, tokens source = .ok ts → ∀ token ∈ ts, Q token.kind
  derives : ∀ {ks e}, Derives (.chain .disjunction) ks e → (∀ kind ∈ ks, Q kind) → P e

namespace Carries

variable {Q : TokenKind → Prop} {P : Expr → Prop} {arguments : List Char} {item ts : List Token}

theorem ofTokens (hcarries : Carries Q P) {source : List Char} {e : Expr}
    (hts : ∀ token ∈ ts, Q token.kind) (h : Expr.ofTokens source ts = .ok e) : P e := by
  refine hcarries.derives (derives_of_ofTokens h) fun kind hkind => ?_
  obtain ⟨token, htoken, rfl⟩ := List.mem_map.mp hkind
  exact hts token htoken

theorem parseProjection (hcarries : Carries Q P) (hitem : ∀ token ∈ item, Q token.kind)
    {projection : Projection} (h : parseProjection arguments item = .ok projection) :
    P projection.value := by
  unfold Query.parseProjection at h
  split at h
  · rename_i label value hassignment
    obtain ⟨e, he, h⟩ := bind_eq_ok_iff.mp h
    cases h
    have hvalue := sublist_of_assignment? hassignment
    exact hcarries.ofTokens (fun t ht => hitem t (hvalue.subset ht)) he
  · split at h
    · rename_i value label hlabelled
      obtain ⟨e, he, h⟩ := bind_eq_ok_iff.mp h
      cases h
      exact hcarries.ofTokens (fun t ht => hitem t ((sublist_of_labelled? hlabelled).subset ht)) he
    · obtain ⟨e, he, h⟩ := bind_eq_ok_iff.mp h
      cases h
      exact hcarries.ofTokens hitem he

theorem parseAssignment (hcarries : Carries Q P) (hitem : ∀ token ∈ item, Q token.kind)
    {assignment : Assignment} (h : parseAssignment arguments item = .ok assignment) :
    P assignment.value := by
  unfold Query.parseAssignment at h
  split at h
  · rename_i name value hassignment
    obtain ⟨e, he, h⟩ := bind_eq_ok_iff.mp h
    cases h
    have hvalue := sublist_of_assignment? hassignment
    exact hcarries.ofTokens (fun t ht => hitem t (hvalue.subset ht)) he
  · cases h

theorem parseAggregate (hcarries : Carries Q P) (hitem : ∀ token ∈ item, Q token.kind)
    {aggregate : Aggregate} (h : parseAggregate arguments item = .ok aggregate) :
    P (.call aggregate.function aggregate.arguments) := by
  unfold Query.parseAggregate at h
  split at h
  · cases h
  · -- the call stands alone or behind the label
    simp only at h
    split at h
    · rename_i function args hargs
      cases h
      refine hcarries.ofTokens (fun token htoken => hitem token ?_) hargs
      split at htoken
      · rename_i label value hassignment
        exact (sublist_of_assignment? hassignment).subset htoken
      · exact htoken
    · cases h

theorem parseSummarize (hcarries : Carries Q P) {stage : Stage}
    (h : parseSummarize arguments = .ok stage) : ∀ e ∈ stage.parsed, P e := by
  have hstage : ∀ {aggregates : List Aggregate} {groups : List Column} {error : Error},
      (∀ aggregate ∈ aggregates, P (.call aggregate.function aggregate.arguments)) →
        (if (aggregates.isEmpty && groups.isEmpty) = true then .error error
          else .ok (.summarize aggregates groups)) = Except.ok stage →
          ∀ e ∈ stage.parsed, P e := by
    intro aggregates groups error hall h
    split at h
    · cases h
    · cases h
      intro e he
      obtain ⟨aggregate, haggregate, rfl⟩ := List.mem_map.mp he
      exact hall aggregate haggregate
  have haggregates : ∀ {part : List Token} {aggregates : List Aggregate},
      (∀ token ∈ part, Q token.kind) →
        (splitCommas part).mapM (Query.parseAggregate arguments) = .ok aggregates →
          ∀ aggregate ∈ aggregates, P (.call aggregate.function aggregate.arguments) := by
    intro part aggregates hpart h aggregate haggregate
    obtain ⟨item, hmem, hitem⟩ := exists_of_mapM_eq_ok h aggregate haggregate
    have hsublist := sublist_of_mem_splitCommas hmem
    exact hcarries.parseAggregate (fun t ht => hpart t (hsublist.subset ht)) hitem
  unfold Query.parseSummarize at h
  obtain ⟨ts, hts, h⟩ := bind_eq_ok_iff.mp h
  have hQ := hcarries.tokens hts
  simp only at h
  -- the tokens of the aggregates, with a part of groups behind them or not
  split at h
  case' h_1 before behind hsplit =>
    have hpart : ∀ token ∈ before, Q token.kind := fun t ht =>
      hQ t ((sublist_of_splitAtBy hsplit).subset ht)
  case' h_2 => have hpart := hQ
  all_goals
    split at h
    · obtain ⟨aggregates, hnone, h⟩ := bind_eq_ok_iff.mp h
      obtain rfl : [] = aggregates := pure_eq_ok_iff.mp hnone
      split at h <;>
      · obtain ⟨groups, -, h⟩ := bind_eq_ok_iff.mp h
        exact hstage (by simp) h
    · obtain ⟨aggregates, hsome, h⟩ := bind_eq_ok_iff.mp h
      have hall := haggregates hpart hsome
      split at h <;>
      · obtain ⟨groups, -, h⟩ := bind_eq_ok_iff.mp h
        exact hstage hall h

theorem parseJoin (hcarries : Carries Q P) {stage : Stage} (h : parseJoin arguments = .ok stage) :
    ∀ e ∈ stage.parsed, P e := by
  unfold Query.parseJoin at h
  obtain ⟨ts, hts, h⟩ := bind_eq_ok_iff.mp h
  obtain ⟨⟨kind, rest⟩, hkind, h⟩ := bind_eq_ok_iff.mp h
  simp only at h
  split at h
  · cases h
  rename_i word conditionTokens hdrop
  split at h
  · cases h
  split at h
  · cases h
  obtain ⟨condition, hcondition, h⟩ := bind_eq_ok_iff.mp h
  cases h
  have hQ : ∀ token ∈ conditionTokens, Q token.kind := by
    intro token htoken
    have hdropped : token ∈ rest.dropWhile fun token => !token.isKeyword "on" := by
      rw [hdrop]
      exact List.mem_cons_of_mem _ htoken
    exact hcarries.tokens (tokens_of_someTokens hts) token
      ((sublist_of_parseJoinKind hkind).subset (List.dropWhile_subset _ hdropped))
  intro e he
  unfold Query.parseJoinCondition at hcondition
  split at hcondition
  · cases hcondition
    simp [Stage.parsed, Stage.expressions] at he
  · obtain ⟨expr, hexpr, hcondition⟩ := bind_eq_ok_iff.mp hcondition
    cases hcondition
    obtain rfl : e = expr := by simpa [Stage.parsed, Stage.expressions] using he
    exact hcarries.ofTokens hQ hexpr

/-- A stage that names columns only is read from no expressions. -/
theorem of_parsed_eq_nil {stage : Stage} (h : stage.parsed = []) : ∀ e ∈ stage.parsed, P e := by
  simp [h]

theorem parseStage (hcarries : Carries Q P) {text : List Char} {stage : Stage}
    (h : parseStage text = .ok stage) : ∀ e ∈ stage.parsed, P e := by
  unfold Query.parseStage at h
  simp only at h
  split at h
  case h_1 | h_2 =>
    obtain ⟨ts, hts, h⟩ := bind_eq_ok_iff.mp h
    obtain ⟨expr, hexpr, h⟩ := bind_eq_ok_iff.mp h
    cases h
    intro e he
    obtain rfl : e = expr := by simpa [Stage.parsed, Stage.expressions] using he
    exact hcarries.ofTokens (hcarries.tokens (tokens_of_someTokens hts)) hexpr
  case h_3 =>
    obtain ⟨ts, hts, h⟩ := bind_eq_ok_iff.mp h
    obtain ⟨items, hitems, h⟩ := bind_eq_ok_iff.mp h
    obtain ⟨projections, hprojections, h⟩ := bind_eq_ok_iff.mp h
    cases h
    intro e he
    obtain ⟨projection, hprojection, rfl⟩ := List.mem_map.mp he
    obtain ⟨item, hmem, hitem⟩ := exists_of_mapM_eq_ok hprojections projection hprojection
    rw [eq_splitCommas_of_listItems hitems] at hmem
    exact hcarries.parseProjection (fun t ht => hcarries.tokens (tokens_of_someTokens hts) t
      ((sublist_of_mem_splitCommas hmem).subset ht)) hitem
  case h_5 =>
    obtain ⟨ts, hts, h⟩ := bind_eq_ok_iff.mp h
    obtain ⟨items, hitems, h⟩ := bind_eq_ok_iff.mp h
    obtain ⟨assignments, hassignments, h⟩ := bind_eq_ok_iff.mp h
    cases h
    intro e he
    obtain ⟨assignment, hassignment, rfl⟩ := List.mem_map.mp he
    obtain ⟨item, hmem, hitem⟩ := exists_of_mapM_eq_ok hassignments assignment hassignment
    rw [eq_splitCommas_of_listItems hitems] at hmem
    exact hcarries.parseAssignment (fun t ht => hcarries.tokens (tokens_of_someTokens hts) t
      ((sublist_of_mem_splitCommas hmem).subset ht)) hitem
  case h_6 => exact hcarries.parseSummarize h
  case h_11 => exact hcarries.parseJoin h
  -- the other stages have no expressions
  case h_4 =>
    obtain ⟨ts, -, h⟩ := bind_eq_ok_iff.mp h
    obtain ⟨items, -, h⟩ := bind_eq_ok_iff.mp h
    obtain ⟨names, -, h⟩ := bind_eq_ok_iff.mp h
    cases h
    exact of_parsed_eq_nil rfl
  case h_7 | h_8 =>
    obtain ⟨keys, rfl⟩ := exists_of_parseOrderBy h
    exact of_parsed_eq_nil rfl
  case h_9 | h_10 =>
    obtain ⟨count, -, h⟩ := bind_eq_ok_iff.mp h
    cases h
    exact of_parsed_eq_nil rfl
  case h_12 =>
    obtain ⟨count, key, rfl⟩ := exists_of_parseTop h
    exact of_parsed_eq_nil rfl
  case h_13 => cases h

theorem parsePipeline (hcarries : Carries Q P) {texts : List (List Char)} {stages : List Stage}
    (h : parsePipeline texts = .ok stages) : ∀ stage ∈ stages, ∀ e ∈ stage.parsed, P e := by
  cases texts with
  | nil => cases h
  | cons first rest =>
    obtain ⟨source, hsource, h⟩ := bind_eq_ok_iff.mp h
    obtain ⟨others, hothers, h⟩ := bind_eq_ok_iff.mp h
    cases h
    intro stage hstage
    rcases List.mem_cons.mp hstage with rfl | hstage
    · unfold parseSource at hsource
      split at hsource <;> cases hsource
      exact of_parsed_eq_nil rfl
    · obtain ⟨text, -, htext⟩ := exists_of_mapM_eq_ok hothers stage hstage
      exact hcarries.parseStage htext

end Carries

/-! ## Spelled expressions -/

theorem carries_spelled : Carries TokenKind.Spelled Expr.Spelled where
  tokens h := spelled_of_tokens h
  derives h := h.spelled

/-- The numbers and functions of a query are spelled as they were found. -/
theorem spelled_of_parsePipeline {texts : List (List Char)} {stages : List Stage}
    (h : parsePipeline texts = .ok stages) :
    ∀ stage ∈ stages, ∀ e ∈ stage.parsed, e.Spelled :=
  carries_spelled.parsePipeline h

end PipeSql.Query
