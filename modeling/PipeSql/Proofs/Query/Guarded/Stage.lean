import PipeSql.Proofs.Query.Guarded.Parts
import PipeSql.Proofs.Query.Stage.Parsed

/-! # Parsing stages by position

The parse of a stage, in which the text is cut behind the word that names the stage, the tokens are
cut at indices, and errors quote the text at the positions of tokens. What only takes tokens from
the front of a list is the same as in the parse without positions. Main statement: tokens stand in
their text, nothing is read out of place, and errors point to where they should. -/

namespace PipeSql.Query

open PipeSql.Text

namespace Guarded

section Arguments

variable (arguments : List Char)

/-! ## Misfits -/

/-- A misfit that quotes a part of the arguments, at the start of its first token or of the text. -/
def misfitPart {α : Type} (part : List Token) : Guarded α := do
  throw (.unexpected (← sourceOf arguments part) ((part.head?.map Token.start).getD 0))

/-- A misfit that quotes a part of the arguments, at the start of its first token. -/
def misfitFirst {α : Type} (part : List Token) : Guarded α := do
  let source ← sourceOf arguments part
  let first ← within part[0]?
  throw (.unexpected source first.start)

def badAggregate {α : Type} (item : List Token) : Guarded α := do
  throw (.badAggregate (String.ofList (← sourceOf arguments item)))

/-! ## Lists of items -/

def someTokens : Guarded (List Token) := do
  let ts ← tokens arguments
  if ts.isEmpty then
    throw (.misfit (.missingArguments (String.ofList (trim arguments))) (byteSize arguments))
  else return ts

def listItems (ts : List Token) : Guarded (List (List Token)) := do
  let items ← splitCommas ts
  match items.findIdx? List.isEmpty with
  | none => return items
  | some i =>
    let comma := (ts.filter fun token => token.kind == .comma)[i - 1]?
    throw (misfitWhole arguments ((comma.map Token.start).getD 0))

/-! ## Items -/

def parseProjection (item : List Token) : Guarded Projection :=
  match assignment? item with
  | some (label, value) => return ⟨← ofTokens arguments value, some label⟩
  | none =>
    match labelled? item with
    | some (value, label) => return ⟨← ofTokens arguments value, some label⟩
    | none => return ⟨← ofTokens arguments item, none⟩

def parseRemoved (item : List Token) : Guarded String :=
  match item with
  | [token] =>
    match token.name? with
    | some name => return name
    | none => misfitFirst arguments item
  | _ => misfitFirst arguments item

def parseAssignment (item : List Token) : Guarded Assignment :=
  match assignment? item with
  | some (name, value) => return ⟨name, ← ofTokens arguments value⟩
  | none => misfitFirst arguments item

/-- The key that one or two tokens spell. -/
def sortKey? (direction : Direction) : List Token → Option SortKey
  | [token] => (column? [token]).map (⟨·, direction⟩)
  | [token, word] =>
    if word.isKeyword "asc" then (column? [token]).map (⟨·, .ascending⟩)
    else if word.isKeyword "desc" then (column? [token]).map (⟨·, .descending⟩)
    else none
  | _ => none

def parseSortKey (direction : Direction) (item : List Token) : Guarded SortKey :=
  match sortKey? direction item with
  | some key => return key
  | none => misfitPart arguments item

/-- The aggregate that an item calls, by the label that it gives it if any. -/
def parseCall (item : List Token) (label? : Option String) (call : List Token) :
    Guarded Aggregate := do
  match ← within (ofTokens arguments call).run with
  | .ok (.call function args) =>
    return ⟨label?.getD (defaultLabel function args), function, args⟩
  | _ => badAggregate arguments item

def parseAggregate (item : List Token) : Guarded Aggregate :=
  if item.isEmpty then throw (.badAggregate (String.ofList (trim arguments)))
  else
    match assignment? item with
    | some (label, value) => parseCall arguments item (some label) value
    | none => parseCall arguments item none item

def parseGroup (item : List Token) : Guarded Column :=
  match column? item with
  | some column => return column
  | none => badAggregate arguments item

/-! ## Stages -/

/-- The index of the first `by` outside parentheses. -/
def byIndex? (depth : Nat) : List Token → Option Nat
  | [] => none
  | token :: rest =>
    let inner := nesting depth token.kind
    if inner = 0 ∧ token.isKeyword "by" then some 0 else (byIndex? inner rest).map (· + 1)

/-- The tokens in front of the first `by` outside parentheses, and those behind it. -/
def partsAtBy (ts : List Token) : Guarded (List Token × Option (List Token)) :=
  match byIndex? 0 ts with
  | none => return (ts, none)
  | some i => return (← within (part? ts 0 i), some (← within (part? ts (i + 1) ts.length)))

def parseSummarize : Guarded Stage := do
  let ts ← tokens arguments
  let whole := .badAggregate ("summarize" ++ String.ofList arguments)
  let (aggregateTokens, groupTokens?) ← partsAtBy ts
  let aggregates ←
    if aggregateTokens.isEmpty then pure []
    else (← splitCommas aggregateTokens).mapM (parseAggregate arguments)
  let groups ←
    match groupTokens? with
    | none => pure []
    | some [] => throw whole
    | some groupTokens => (← splitCommas groupTokens).mapM (parseGroup arguments)
  if aggregates.isEmpty && groups.isEmpty then throw whole
  else return .summarize aggregates groups

def parseOrderBy : Guarded Stage := do
  match ← tokens arguments with
  | [] => throw (.misfit .missingBy (byteSize arguments))
  | word :: keys =>
    if word.isKeyword "by" && !keys.isEmpty then
      return .orderBy (← (← listItems arguments keys).mapM (parseSortKey arguments .ascending))
    else throw (misfitWhole arguments word.start)

def parseTop (stage : List Char) : Guarded Stage := do
  match ← tokens arguments with
  | [] => throw (.badRowCount (String.ofList stage))
  | token :: rest =>
    let count? :=
      match token.kind with
      | .number digits => rowCount? digits.toList
      | _ => none
    match count?, rest with
    | none, _ => throw (.badRowCount (String.ofList stage))
    | some _, [] => throw (.misfit (.missingByIn (String.ofList stage)) (byteSize arguments))
    | some count, word :: key =>
      if word.isKeyword "by" && !key.isEmpty then
        return .top count (← parseSortKey arguments .descending key)
      else unexpectedFrom arguments word.start

def parseJoinKind : List Token → Guarded (JoinKind × List Token)
  | word :: sign :: value :: rest =>
    if word.isKeyword "kind" && sign.kind == .assign then
      match value.name?.bind joinKind? with
      | some kind => return (kind, rest)
      | none => unexpectedToken arguments value
    else return (.inner, word :: sign :: value :: rest)
  | ts => return (.inner, ts)

def parseJoinCondition (ts : List Token) : Guarded JoinCondition := do
  match (← splitCommas ts).mapM joinKey? with
  | some names => return .keys names
  | none => return .condition (← ofTokens arguments ts)

def parseJoin : Guarded Stage := do
  let ts ← someTokens arguments
  let (kind, ts) ← parseJoinKind arguments ts
  match ts.findIdx? fun token => token.isKeyword "on" with
  | none => throw (.misfit (.missingOn (String.ofList (trim arguments))) (byteSize arguments))
  | some i =>
    let tableTokens ← within (part? ts 0 i)
    let conditionTokens ← within (part? ts (i + 1) ts.length)
    let tableText := unwrapped (← sourceOf arguments tableTokens)
    match ← tableName tableText with
    | none => throw (.unexpected tableText ((tableTokens.head?.map Token.start).getD 0))
    | some table =>
      if conditionTokens.isEmpty then
        throw (.misfit (.missingCondition (String.ofList (trim arguments))) (byteSize arguments))
      else return .join kind table (← parseJoinCondition arguments conditionTokens)

end Arguments

/-- The position behind the word that names a stage. -/
def keywordStop (text : List Char) : Nat :=
  (((chars text).find? fun (_, c) => !isKeywordChar c).map Prod.fst).getD (byteSize text)

/-- A stage behind the first one. -/
def parseStage (text : List Char) : Guarded Stage := do
  let word ← within (slice? text 0 (keywordStop text))
  let arguments ← within (slice? text (keywordStop text) (byteSize text))
  match String.ofList (word.map Char.toLower) with
  | "where" | "filter" => return .filter (← ofTokens arguments (← someTokens arguments))
  | "project" =>
    let items ← listItems arguments (← someTokens arguments)
    return .project (← items.mapM (parseProjection arguments))
  | "project-away" =>
    let items ← listItems arguments (← someTokens arguments)
    return .projectAway (← items.mapM (parseRemoved arguments))
  | "extend" =>
    let items ← listItems arguments (← someTokens arguments)
    return .extend (← items.mapM (parseAssignment arguments))
  | "summarize" => parseSummarize arguments
  | "order" | "sort" => parseOrderBy arguments
  | "limit" => return .limit (← plain (parseRowCount arguments text))
  | "take" => return .take (← plain (parseRowCount arguments text))
  | "join" => parseJoin arguments
  | "top" => parseTop arguments text
  | _ => throw (.unknownStage (String.ofList text))

/-! ## Misfits and lists -/

section Items

variable {arguments : List Char} {ts part item : List Token}

theorem spans_of_tokens (h : Query.tokens arguments = .ok ts) : Spans arguments ts :=
  (covering_of_tokens h).toSpans

theorem spans_of_mem_splitCommas (h : Spans arguments ts) (hitem : item ∈ Query.splitCommas ts) :
    Spans arguments item :=
  h.sublist (sublist_of_mem_splitCommas hitem)

/-- A misfit that points to the end of the arguments. -/
theorem placed_atEnd (cause : Misfit) :
    (Error.misfit cause (byteSize arguments)).Placed arguments :=
  Error.placed_misfit (boundary_byteSize arguments)

theorem settles_misfitPart {α : Type} (h : Spans arguments part) :
    Settles arguments (misfitPart arguments part : Guarded α)
      (.error (Query.misfitPart arguments part)) :=
  .bind_ok (run_sourceOf h) (.error (Error.placed_misfit h.boundary_head))

theorem settles_misfitFirst {α : Type} (h : Spans arguments part) (hne : part ≠ []) :
    Settles arguments (misfitFirst arguments part : Guarded α)
      (.error (Query.misfitPart arguments part)) := by
  obtain ⟨first, rest, rfl⟩ := List.exists_cons_of_ne_nil hne
  exact .bind_ok (run_sourceOf h) (.within rfl (.error (Error.placed_misfit h.boundary_head)))

theorem settles_badAggregate {α : Type} (h : Spans arguments item) :
    Settles arguments (badAggregate arguments item : Guarded α)
      (.error (.badAggregate (String.ofList (Query.sourceOf arguments item)))) :=
  .bind_ok (run_sourceOf h) (.error (Error.placed_of_position?_eq_none rfl))

theorem settles_someTokens (arguments : List Char) :
    Settles arguments (someTokens arguments) (Query.someTokens arguments) := by
  refine .bind (settles_tokens arguments) fun ts _ => ?_
  split
  · exact .error (placed_atEnd _)
  · exact .ok ts

theorem settles_listItems (h : Spans arguments ts) :
    Settles arguments (listItems arguments ts) (Query.listItems arguments ts) := by
  refine .bind_ok (run_splitCommas ts) ?_
  rw [Query.listItems]
  cases hempty : (Query.splitCommas ts).findIdx? List.isEmpty with
  | none => exact .ok _
  | some i =>
    refine .error (Error.placed_misfit ?_)
    cases hcomma : (ts.filter fun token => token.kind == .comma)[i - 1]? with
    | none => exact boundary_zero arguments
    | some comma => exact h.start comma (List.mem_filter.mp (List.mem_of_getElem? hcomma)).1

theorem ne_nil_of_mem_listItems {items : List (List Token)}
    (h : Query.listItems arguments ts = .ok items) (hitem : item ∈ items) : item ≠ [] := by
  unfold Query.listItems at h
  simp only at h
  split at h
  · rename_i hempty
    cases h
    rintro rfl
    simpa using List.findIdx?_eq_none_iff.mp hempty [] hitem
  · cases h

/-- The items of a list are parsed one after the other, and none of them is empty. -/
theorem settles_items {α : Type} {f : List Token → Guarded α} {g : List Token → Except Error α}
    (stage : List α → Stage) (h : Spans arguments ts)
    (hf : ∀ item, Spans arguments item → item ≠ [] → Settles arguments (f item) (g item)) :
    Settles arguments (do return stage (← (← listItems arguments ts).mapM f))
      (do return stage (← (← Query.listItems arguments ts).mapM g)) := by
  refine .bind (settles_listItems h) fun items hitems => ?_
  refine .bind (.mapM fun item hitem => ?_) fun results _ => .ok (stage results)
  refine hf item ?_ (ne_nil_of_mem_listItems hitems hitem)
  rw [eq_splitCommas_of_listItems hitems] at hitem
  exact spans_of_mem_splitCommas h hitem

/-- The parts of a list that is not empty are parsed one after the other. -/
theorem settles_parts {α β : Type} {f : List Token → Guarded α} {g : List Token → Except Error α}
    {k : List α → Guarded β} {k' : List α → Except Error β} (h : Spans arguments ts)
    (hf : ∀ item, Spans arguments item → Settles arguments (f item) (g item))
    (hk : ∀ results, Settles arguments (k results) (k' results)) :
    Settles arguments (splitCommas ts >>= fun items => items.mapM f >>= k)
      ((Query.splitCommas ts).mapM g >>= k') := by
  refine .bind_ok (run_splitCommas ts) ?_
  refine .bind (.mapM fun item hitem => ?_) fun results _ => hk results
  exact hf item (spans_of_mem_splitCommas h hitem)

/-! ## Single items -/

theorem settles_parseProjection (h : Spans arguments item) :
    Settles arguments (parseProjection arguments item) (Query.parseProjection arguments item) := by
  rw [parseProjection, Query.parseProjection]
  cases hassignment : assignment? item with
  | some labelled =>
    obtain ⟨label, value⟩ := labelled
    have hvalue := h.sublist (sublist_of_assignment? hassignment)
    exact .bind (settles_ofTokens hvalue) fun e _ => .ok _
  | none =>
    simp only
    cases hlabelled : labelled? item with
    | some labelled =>
      obtain ⟨value, label⟩ := labelled
      have hvalue := h.sublist (sublist_of_labelled? hlabelled)
      exact .bind (settles_ofTokens hvalue) fun e _ => .ok _
    | none => exact .bind (settles_ofTokens h) fun e _ => .ok _

theorem settles_parseRemoved (h : Spans arguments item) (hne : item ≠ []) :
    Settles arguments (parseRemoved arguments item) (Query.parseRemoved arguments item) := by
  match item with
  | [] => exact absurd rfl hne
  | [token] =>
    rw [parseRemoved, Query.parseRemoved]
    cases token.name? with
    | some name => exact .ok name
    | none => exact settles_misfitFirst h hne
  | first :: second :: rest => exact settles_misfitFirst h hne

theorem settles_parseAssignment (h : Spans arguments item) (hne : item ≠ []) :
    Settles arguments (parseAssignment arguments item) (Query.parseAssignment arguments item) := by
  rw [parseAssignment, Query.parseAssignment]
  cases hassignment : assignment? item with
  | some assigned =>
    obtain ⟨name, value⟩ := assigned
    have hvalue := h.sublist (sublist_of_assignment? hassignment)
    exact .bind (settles_ofTokens hvalue) fun e _ => .ok _
  | none => exact settles_misfitFirst h hne

theorem parseSortKey_eq (arguments : List Char) (direction : Direction) (item : List Token) :
    Query.parseSortKey arguments direction item =
      match sortKey? direction item with
      | some key => .ok key
      | none => .error (Query.misfitPart arguments item) := by
  match item with
  | [] => rfl
  | [_] => rfl
  | [_, _] => rfl
  | _ :: _ :: _ :: _ => rfl

theorem settles_parseSortKey (direction : Direction) (h : Spans arguments item) :
    Settles arguments (parseSortKey arguments direction item)
      (Query.parseSortKey arguments direction item) := by
  rw [parseSortKey, parseSortKey_eq]
  cases sortKey? direction item with
  | some key => exact .ok key
  | none => exact settles_misfitPart h

theorem settles_parseCall {call : List Token} (label? : Option String) (h : Spans arguments item)
    (hcall : Spans arguments call) :
    Settles arguments (parseCall arguments item label? call)
      (match Expr.ofTokens arguments call with
        | .ok (.call function args) =>
          .ok ⟨label?.getD (defaultLabel function args), function, args⟩
        | _ => .error (.badAggregate (String.ofList (Query.sourceOf arguments item)))) := by
  refine .within (settles_ofTokens hcall).run_eq ?_
  cases Expr.ofTokens arguments call with
  | error e => exact settles_badAggregate h
  | ok e =>
    cases e with
    | call function args => exact .ok _
    | _ => exact settles_badAggregate h

theorem settles_parseAggregate (h : Spans arguments item) :
    Settles arguments (parseAggregate arguments item) (Query.parseAggregate arguments item) := by
  rw [parseAggregate, Query.parseAggregate]
  split
  · exact .error (Error.placed_of_position?_eq_none rfl)
  cases hassignment : assignment? item with
  | some labelled =>
    obtain ⟨label, value⟩ := labelled
    exact settles_parseCall (some label) h (h.sublist (sublist_of_assignment? hassignment))
  | none => exact settles_parseCall none h h

theorem settles_parseGroup (h : Spans arguments item) :
    Settles arguments (parseGroup arguments item) (Query.parseGroup arguments item) := by
  rw [parseGroup, Query.parseGroup]
  cases column? item with
  | some column => exact .ok column
  | none => exact settles_badAggregate h

end Items

/-! ## Arguments of a stage -/

section Stages

variable {arguments : List Char} {ts : List Token}

theorem splitAtBy_eq (depth : Nat) (ts : List Token) :
    splitAtBy depth ts = (byIndex? depth ts).map fun i => (ts.take i, ts.drop (i + 1)) := by
  induction ts generalizing depth with
  | nil => rfl
  | cons token rest ih =>
    rw [splitAtBy, byIndex?]
    split
    · rfl
    · rw [ih, Option.map_map, Option.map_map]
      rfl

theorem lt_length_of_byIndex? {depth i : Nat} (h : byIndex? depth ts = some i) : i < ts.length := by
  induction ts generalizing depth i with
  | nil => cases h
  | cons token rest ih =>
    rw [byIndex?] at h
    split at h
    · cases h
      exact Nat.succ_pos _
    · obtain ⟨j, hj, rfl⟩ := Option.map_eq_some_iff.mp h
      exact Nat.succ_lt_succ (ih hj)

theorem run_partsAtBy (ts : List Token) :
    (partsAtBy ts).run = some (.ok (match splitAtBy 0 ts with
      | some (before, behind) => (before, some behind)
      | none => (ts, none))) := by
  rw [partsAtBy, splitAtBy_eq]
  cases hindex : byIndex? 0 ts with
  | none => rfl
  | some i =>
    have hlt := lt_length_of_byIndex? hindex
    rw [run_within_bind (part?_take (Nat.le_of_lt hlt)), run_within_bind (part?_drop hlt)]
    rfl

theorem settles_aggregates {k : List Aggregate → Guarded Stage}
    {k' : List Aggregate → Except Error Stage} (h : Spans arguments ts)
    (hk : ∀ aggregates, Settles arguments (k aggregates) (k' aggregates)) :
    Settles arguments
      (if ts.isEmpty then pure [] >>= k
        else splitCommas ts >>= fun items => items.mapM (parseAggregate arguments) >>= k)
      (if ts.isEmpty then pure [] >>= k'
        else (Query.splitCommas ts).mapM (Query.parseAggregate arguments) >>= k') := by
  split
  · exact .bind (.ok []) fun aggregates _ => hk aggregates
  · exact settles_parts h (fun item hitem => settles_parseAggregate hitem) hk

theorem settles_parseSummarize (arguments : List Char) :
    Settles arguments (parseSummarize arguments) (Query.parseSummarize arguments) := by
  have hwhole :
      (Error.badAggregate ("summarize" ++ String.ofList arguments)).Placed arguments :=
    Error.placed_of_position?_eq_none rfl
  have hstage : ∀ (aggregates : List Aggregate) (groups : List Column),
      Settles arguments
        (if (aggregates.isEmpty && groups.isEmpty) = true then
          throw (.badAggregate ("summarize" ++ String.ofList arguments))
        else pure (Stage.summarize aggregates groups))
        (if (aggregates.isEmpty && groups.isEmpty) = true then
          .error (.badAggregate ("summarize" ++ String.ofList arguments))
        else .ok (Stage.summarize aggregates groups)) := by
    intro aggregates groups
    split
    · exact .error hwhole
    · exact .ok _
  refine .bind (settles_tokens arguments) fun ts hts => .bind_ok (run_partsAtBy ts) ?_
  have hspans := spans_of_tokens hts
  cases hsplit : splitAtBy 0 ts with
  | none =>
    exact settles_aggregates hspans fun aggregates =>
      .bind (.ok []) fun groups _ => hstage aggregates groups
  | some parts =>
    obtain ⟨before, behind⟩ := parts
    obtain ⟨i, -, heq⟩ := Option.map_eq_some_iff.mp ((splitAtBy_eq 0 ts).symm.trans hsplit)
    cases heq
    refine settles_aggregates (hspans.sublist (List.take_sublist i ts)) fun aggregates => ?_
    have hgroups := hspans.sublist (List.drop_sublist (i + 1) ts)
    cases hbehind : ts.drop (i + 1) with
    | nil => exact .bind (.error hwhole) nofun
    | cons first rest =>
      rw [hbehind] at hgroups
      exact settles_parts hgroups (fun item hitem => settles_parseGroup hitem) (hstage aggregates)

theorem settles_parseOrderBy (arguments : List Char) :
    Settles arguments (parseOrderBy arguments) (Query.parseOrderBy arguments) := by
  refine .bind (settles_tokens arguments) fun ts hts => ?_
  have hspans := spans_of_tokens hts
  cases ts with
  | nil => exact .error (placed_atEnd _)
  | cons word keys =>
    simp only
    split
    · have hkeys := hspans.sublist (List.sublist_cons_self word keys)
      exact settles_items .orderBy hkeys fun item hitem _ => settles_parseSortKey .ascending hitem
    · exact .error (Error.placed_misfit (hspans.start word List.mem_cons_self))

theorem settles_parseTop (arguments stage : List Char) :
    Settles arguments (parseTop arguments stage) (Query.parseTop arguments stage) := by
  have hstage : (Error.badRowCount (String.ofList stage)).Placed arguments :=
    Error.placed_of_position?_eq_none rfl
  refine .bind (settles_tokens arguments) fun ts hts => ?_
  have hspans := spans_of_tokens hts
  cases ts with
  | nil => exact .error hstage
  | cons token rest =>
    obtain ⟨kind, start, stop⟩ := token
    cases kind with
    | number digits =>
      simp only
      cases rowCount? digits.toList with
      | none => exact .error hstage
      | some count =>
        cases rest with
        | nil => exact .error (placed_atEnd _)
        | cons word key =>
          simp only
          split
          · have hkey : Spans arguments key := hspans.sublist (by simp)
            exact .bind (settles_parseSortKey .descending hkey) fun key _ => .ok _
          · have hword := hspans.start word (by simp)
            exact .within (slice?_byteSize hword) (.error (Error.placed_misfit hword))
    | _ => exact .error hstage

theorem settles_parseJoinKind (h : Spans arguments ts) :
    Settles arguments (parseJoinKind arguments ts) (Query.parseJoinKind arguments ts) := by
  match ts with
  | [] => exact .ok _
  | [_] => exact .ok _
  | [_, _] => exact .ok _
  | word :: sign :: value :: rest =>
    rw [parseJoinKind, Query.parseJoinKind]
    split
    · cases value.name?.bind joinKind? with
      | some kind => exact .ok _
      | none => exact settles_unexpectedToken h (by simp)
    · exact .ok _

theorem settles_parseJoinCondition (h : Spans arguments ts) :
    Settles arguments (parseJoinCondition arguments ts)
      (Query.parseJoinCondition arguments ts) := by
  refine .bind_ok (run_splitCommas ts) ?_
  rw [Query.parseJoinCondition]
  cases (Query.splitCommas ts).mapM joinKey? with
  | some names => exact .ok _
  | none => exact .bind (settles_ofTokens h) fun e _ => .ok _

/-- The lists in front of the first token with a property, and from it on. -/
theorem takeWhile_dropWhile_of_findIdx? {p : Token → Bool} {i : Nat} (h : ts.findIdx? p = some i) :
    i < ts.length ∧ ts.takeWhile (fun token => !p token) = ts.take i ∧
      ∃ token, ts.dropWhile (fun token => !p token) = token :: ts.drop (i + 1) := by
  obtain ⟨hlt, hindex⟩ := List.findIdx?_eq_some_iff_findIdx_eq.mp h
  refine ⟨hlt, ?_, ts[i], ?_⟩
  · rw [List.takeWhile_eq_take_findIdx_not]
    simp only [Bool.not_not, hindex]
  · rw [List.dropWhile_eq_drop_findIdx_not]
    simp only [Bool.not_not, hindex]
    exact List.drop_eq_getElem_cons hlt

theorem settles_parseJoin (arguments : List Char) :
    Settles arguments (parseJoin arguments) (Query.parseJoin arguments) := by
  refine .bind (settles_someTokens arguments) fun all hall => ?_
  have hspans := spans_of_tokens (tokens_of_someTokens hall)
  refine .bind (settles_parseJoinKind hspans) fun ⟨kind, ts⟩ hkind => ?_
  have hrest := hspans.sublist (sublist_of_parseJoinKind hkind)
  simp only
  cases hon : ts.findIdx? fun token => token.isKeyword "on" with
  | none =>
    have hdrop : ts.dropWhile (fun token => !token.isKeyword "on") = [] := by
      rw [List.dropWhile_eq_nil_iff]
      intro token htoken
      rw [List.findIdx?_eq_none_iff.mp hon token htoken]
      rfl
    rw [hdrop]
    exact .error (placed_atEnd _)
  | some i =>
    obtain ⟨hlt, htake, word, hdrop⟩ := takeWhile_dropWhile_of_findIdx? hon
    have htable := hrest.sublist (List.take_sublist i ts)
    have hcondition := hrest.sublist (List.drop_sublist (i + 1) ts)
    rw [hdrop, htake]
    refine .within (part?_take (Nat.le_of_lt hlt)) (.within (part?_drop hlt) ?_)
    refine .bind_ok (run_sourceOf htable) (.bind_ok (run_tableName _) ?_)
    simp only
    cases tableName? (unwrapped (Query.sourceOf arguments (ts.take i))) with
    | none => exact .error (Error.placed_misfit htable.boundary_head)
    | some table =>
      simp only
      split
      · exact .error (placed_atEnd _)
      · exact .bind (settles_parseJoinCondition hcondition) fun on _ => .ok _

theorem settles_parseRowCount (arguments stage : List Char) :
    Settles arguments (plain (parseRowCount arguments stage)) (parseRowCount arguments stage) := by
  refine ⟨rfl, fun e he => ?_⟩
  unfold parseRowCount at he
  split at he
  · cases he
  · cases he
    exact Error.placed_of_position?_eq_none rfl

end Stages

/-! ## The word that names a stage -/

theorem find?_charsFrom (start : Nat) (cs : List Char) :
    (((charsFrom start cs).find? fun (_, c) => !isKeywordChar c).map Prod.fst).getD
      (start + byteSize cs) = start + byteSize (cs.takeWhile isKeywordChar) := by
  induction cs generalizing start with
  | nil => rfl
  | cons c rest ih =>
    by_cases hc : isKeywordChar c
    · simp [charsFrom, hc, byteSize, ← Nat.add_assoc, ih]
    · simp [charsFrom, hc, byteSize]

theorem keywordStop_eq (text : List Char) :
    keywordStop text = byteSize (text.takeWhile isKeywordChar) := by
  have hfind := find?_charsFrom 0 text
  rwa [Nat.zero_add, Nat.zero_add] at hfind

theorem slice?_keyword (text : List Char) :
    slice? text 0 (keywordStop text) = some (text.takeWhile isKeywordChar) ∧
      slice? text (keywordStop text) (byteSize text) = some (text.dropWhile isKeywordChar) := by
  have hsplit : text.takeWhile isKeywordChar ++ text.dropWhile isKeywordChar = text :=
    List.takeWhile_append_dropWhile
  have hword := slice?_append [] (text.takeWhile isKeywordChar) (text.dropWhile isKeywordChar)
  have harguments :=
    slice?_append (text.takeWhile isKeywordChar) (text.dropWhile isKeywordChar) []
  simp only [List.nil_append, List.append_nil, hsplit] at hword harguments
  rw [keywordStop_eq]
  exact ⟨hword, harguments⟩

/-- The words that name stages. -/
def stageWords : List String :=
  ["where", "filter", "project", "project-away", "extend", "summarize", "order", "sort", "limit",
    "take", "join", "top"]

theorem parseStage_of_unknown {text : List Char}
    (h : String.ofList ((text.takeWhile isKeywordChar).map Char.toLower) ∉ stageWords) :
    Query.parseStage text = .error (.unknownStage (String.ofList text)) := by
  unfold Query.parseStage
  simp only
  split
  case h_13 => rfl
  all_goals
    rename_i hword
    rw [hword] at h
    exact absurd (by decide) h

/-- Whatever the text of a stage, all that its parse reads by position is there, and its errors
point into the arguments. -/
theorem settles_parseStage (text : List Char) :
    Settles (text.dropWhile isKeywordChar) (parseStage text) (Query.parseStage text) := by
  obtain ⟨hword, harguments⟩ := slice?_keyword text
  refine .within hword (.within harguments ?_)
  by_cases hknown : String.ofList ((text.takeWhile isKeywordChar).map Char.toLower) ∈ stageWords
  · rw [Query.parseStage]
    generalize text.dropWhile isKeywordChar = arguments
    generalize String.ofList ((text.takeWhile isKeywordChar).map Char.toLower) = keyword at hknown ⊢
    have hspans : ∀ {ts}, Query.someTokens arguments = .ok ts → Spans arguments ts :=
      fun h => spans_of_tokens (tokens_of_someTokens h)
    simp only [stageWords, List.mem_cons, List.not_mem_nil, or_false] at hknown
    rcases hknown with rfl | rfl | rfl | rfl | rfl | rfl | rfl | rfl | rfl | rfl | rfl | rfl
    case inl | inr.inl =>
      refine .bind (settles_someTokens arguments) fun ts hts => ?_
      exact .bind (settles_ofTokens (hspans hts)) fun e _ => .ok _
    · refine .bind (settles_someTokens arguments) fun ts hts => ?_
      exact settles_items .project (hspans hts) fun item hitem _ => settles_parseProjection hitem
    · refine .bind (settles_someTokens arguments) fun ts hts => ?_
      exact settles_items .projectAway (hspans hts) fun item => settles_parseRemoved
    · refine .bind (settles_someTokens arguments) fun ts hts => ?_
      exact settles_items .extend (hspans hts) fun item => settles_parseAssignment
    · exact settles_parseSummarize arguments
    · exact settles_parseOrderBy arguments
    · exact settles_parseOrderBy arguments
    · exact .bind (settles_parseRowCount arguments text) fun count _ => .ok _
    · exact .bind (settles_parseRowCount arguments text) fun count _ => .ok _
    · exact settles_parseJoin arguments
    · exact settles_parseTop arguments text
  · rw [parseStage_of_unknown hknown]
    split
    case h_13 => exact .error (Error.placed_of_position?_eq_none rfl)
    all_goals
      rename_i hstage
      rw [hstage] at hknown
      exact absurd (by decide) hknown

end Guarded

/-- Whatever the text, its tokens stand in it one behind the other, with only blanks around them.
The scan and the parse come to an outcome even where a slice or an index that there is not would end
them without one. An error of a stage that has a position points to a boundary of the arguments, and
to the quote that opens a literal where this is not closed. -/
theorem frontEnd_in_bounds (text : List Char) :
    (∀ ts, tokens text = .ok ts → Covering text ts) ∧
      (Guarded.tokens text).run = some (tokens text) ∧
      (∀ ts, (Guarded.splitCommas ts).run = some (.ok (splitCommas ts))) ∧
      (∀ ts part, tokens text = .ok ts → part.Sublist ts →
        (Guarded.sourceOf text part).run = some (.ok (sourceOf text part)) ∧
          (Guarded.ofTokens text part).run = some (Expr.ofTokens text part)) ∧
      (Guarded.parseSource text).run = some (parseSource text) ∧
      (Guarded.parseStage text).run = some (parseStage text) ∧
      ∀ e, parseStage text = .error e → e.Placed (text.dropWhile isKeywordChar) := by
  have hstage := Guarded.settles_parseStage text
  refine ⟨fun ts => covering_of_tokens, Guarded.run_tokens text, Guarded.run_splitCommas, ?_,
    (Guarded.settles_parseSource text).run_eq, hstage.run_eq, hstage.placed⟩
  intro ts part hts hpart
  have hspans := (Guarded.spans_of_tokens hts).sublist hpart
  exact ⟨Guarded.run_sourceOf hspans, (Guarded.settles_ofTokens hspans).run_eq⟩

/-- The tokens of `take ['ä'],,b`. -/
def doubledComma : List Token :=
  [⟨.ident "take", 0, 4⟩, ⟨.quotedIdent "ä", 5, 11⟩, ⟨.comma, 11, 12⟩, ⟨.comma, 12, 13⟩,
    ⟨.ident "b", 13, 14⟩]

theorem frontEnd_in_bounds_umlauts :
    tokens "take ['ä'],,b".toList = .ok doubledComma ∧
      Covering "take ['ä'],,b".toList doubledComma ∧
      parseStage "where ['ä'] == 'ö".toList = .error (.unterminated 11) ∧
      OpensLiteral 0 " ['ä'] == 'ö".toList 11 := by
  have hts : tokens "take ['ä'],,b".toList = .ok doubledComma := by cbv
  have hopen : parseStage "where ['ä'] == 'ö".toList = .error (.unterminated 11) := by cbv
  obtain ⟨hcovering, -⟩ := frontEnd_in_bounds "take ['ä'],,b".toList
  obtain ⟨-, -, -, -, -, -, hplaced⟩ := frontEnd_in_bounds "where ['ä'] == 'ö".toList
  exact ⟨hts, hcovering _ hts, hopen, (hplaced _ hopen).opens 11 rfl⟩

end PipeSql.Query
