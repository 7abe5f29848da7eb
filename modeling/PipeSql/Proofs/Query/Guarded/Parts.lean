import PipeSql.Proofs.Query.Expr.Remaining
import PipeSql.Proofs.Query.Guarded.Scan
import PipeSql.Proofs.Query.Refusal
import PipeSql.Query.Stage.Parse

/-! # Parts by position

Lists of tokens that are cut at indices, and texts that are quoted at the positions of tokens. An
index out of range and an offset inside of a character are no result at all. -/

namespace PipeSql.Query

open PipeSql.Text

namespace Guarded

/-! ## Outcomes -/

/-- All that the computation reads by position is there. It comes to the outcome, and an error in
which this ends points into the text. -/
structure Settles {α : Type} (text : List Char) (x : Guarded α) (y : Except Error α) : Prop where
  run_eq : x.run = some y
  placed : ∀ e, y = .error e → e.Placed text

namespace Settles

variable {α β : Type} {text : List Char} {x : Guarded α} {y : Except Error α} {f : α → Guarded β}
  {g : α → Except Error β}

theorem ok (a : α) : Settles text (pure a) (.ok a) :=
  ⟨rfl, nofun⟩

theorem error {e : Error} (h : e.Placed text) : Settles text (throw e : Guarded α) (.error e) :=
  ⟨rfl, fun _ heq => Except.error.inj heq ▸ h⟩

theorem bind (hx : Settles text x y) (hf : ∀ a, y = .ok a → Settles text (f a) (g a)) :
    Settles text (x >>= f) (y >>= g) := by
  cases y with
  | error e =>
    refine ⟨run_bind_error hx.run_eq, fun e' he' => ?_⟩
    obtain rfl : e = e' := Except.error.inj he'
    exact hx.placed e rfl
  | ok a =>
    have hrest := hf a rfl
    exact ⟨(run_bind_ok hx.run_eq).trans hrest.run_eq, hrest.placed⟩

/-- A step that reads what there is. -/
theorem within {x? : Option α} {a : α} {y : Except Error β} (h : x? = some a)
    (hf : Settles text (f a) y) : Settles text (within x? >>= f) y :=
  ⟨(run_within_bind h).trans hf.run_eq, hf.placed⟩

/-- A step that comes to a result. -/
theorem bind_ok {a : α} {y : Except Error β} (h : x.run = some (.ok a))
    (hf : Settles text (f a) y) : Settles text (x >>= f) y :=
  ⟨(run_bind_ok h).trans hf.run_eq, hf.placed⟩

theorem mapM {f : α → Guarded β} {as : List α} (h : ∀ a ∈ as, Settles text (f a) (g a)) :
    Settles text (as.mapM f) (as.mapM g) := by
  induction as with
  | nil => exact .ok []
  | cons a as ih =>
    rw [List.mapM_cons, List.mapM_cons]
    refine .bind (h a List.mem_cons_self) fun b _ => ?_
    refine .bind (ih fun a' ha' => h a' (List.mem_cons_of_mem _ ha')) fun bs _ => ?_
    exact .ok (b :: bs)

end Settles

theorem settles_tokens (text : List Char) : Settles text (tokens text) (Query.tokens text) :=
  ⟨run_tokens text, fun _ => placed_of_tokens⟩

/-! ## Parts of the tokens -/

section Parts

/-- The tokens between two indices, if these are in range and in order. -/
def part? (ts : List Token) (start stop : Nat) : Option (List Token) :=
  if start ≤ stop ∧ stop ≤ ts.length then some ((ts.drop start).take (stop - start)) else none

/-- The parts between the commas of depth zero, from the part on that starts at the index `start`;
the tokens that are left stand next to their indices. -/
def cutCommas (ts : List Token) (start depth : Nat) :
    List (Token × Nat) → Guarded (List (List Token))
  | [] => return [← within (part? ts start ts.length)]
  | (token, i) :: rest =>
    if token.kind = .comma ∧ depth = 0 then do
      let part ← within (part? ts start i)
      return part :: (← cutCommas ts (i + 1) depth rest)
    else cutCommas ts start (nesting depth token.kind) rest

/-- The parts between the commas outside parentheses. -/
def splitCommas (ts : List Token) : Guarded (List (List Token)) :=
  cutCommas ts 0 0 ts.zipIdx

variable {ts done current rest : List Token}

theorem part?_append (h : ts = done ++ (current ++ rest)) :
    part? ts done.length (done.length + current.length) = some current := by
  subst h
  rw [part?, if_pos (by simp)]
  simp

theorem part?_take {i : Nat} (h : i ≤ ts.length) : part? ts 0 i = some (ts.take i) := by
  simp [part?, h]

theorem part?_drop {i : Nat} (h : i ≤ ts.length) :
    part? ts i ts.length = some (ts.drop i) := by
  rw [part?, if_pos ⟨h, Nat.le_refl _⟩, List.take_of_length_le (by simp)]

/-- The parts up to now end with the tokens in `current`, and go on with those that are left. -/
theorem run_cutCommas {depth : Nat} (h : ts = done ++ (current ++ rest)) :
    (cutCommas ts done.length depth (rest.zipIdx (done.length + current.length))).run =
      some (.ok ((splitCommasFrom depth rest).modifyHead (current ++ ·))) := by
  induction rest generalizing done current depth with
  | nil =>
    have hpart := part?_append h
    have hlength : ts.length = done.length + current.length := by simp [h]
    rw [List.zipIdx_nil, cutCommas, hlength, run_within_bind hpart]
    simp [splitCommasFrom]
  | cons token rest ih =>
    rw [List.zipIdx_cons, cutCommas, splitCommasFrom]
    split
    · rw [run_within_bind (part?_append h)]
      have hsplit : ts = (done ++ current ++ [token]) ++ ([] ++ rest) := by simp [h]
      have hrest : (cutCommas ts _ depth _).run = _ := ih hsplit
      simp only [List.length_append, List.length_singleton, List.length_nil, Nat.add_zero] at hrest
      rw [run_bind_ok hrest]
      obtain ⟨first, more, hparts⟩ :=
        List.exists_cons_of_ne_nil (splitCommasFrom_ne_nil depth rest)
      simp [hparts]
    · have hsplit : ts = done ++ ((current ++ [token]) ++ rest) := by simp [h]
      have hrest : (cutCommas ts _ (nesting depth token.kind) _).run = _ := ih hsplit
      simp only [List.length_append, List.length_singleton, ← Nat.add_assoc] at hrest
      rw [hrest]
      obtain ⟨first, more, hparts⟩ := List.exists_cons_of_ne_nil
        (splitCommasFrom_ne_nil (nesting depth token.kind) rest)
      simp [hparts, pushFront]

theorem run_splitCommas (ts : List Token) :
    (splitCommas ts).run = some (.ok (Query.splitCommas ts)) := by
  have hsplit : ts = [] ++ ([] ++ ts) := rfl
  have hrun : (cutCommas ts _ 0 _).run = _ := run_cutCommas hsplit
  rw [List.length_nil] at hrun
  rw [splitCommas, hrun, Query.splitCommas]
  obtain ⟨first, more, hparts⟩ := List.exists_cons_of_ne_nil (splitCommasFrom_ne_nil 0 ts)
  simp [hparts]

end Parts

/-! ## Source texts -/

/-- The source text from the first of the tokens to the last. -/
def sourceOf (source : List Char) (ts : List Token) : Guarded (List Char) :=
  match ts.head?, ts.getLast? with
  | some first, some last => within (slice? source first.start last.stop)
  | _, _ => return []

/-- The error that quotes a token. -/
def unexpectedToken {α : Type} (source : List Char) (token : Token) : Guarded α := do
  throw (.unexpected (← within (slice? source token.start token.stop)) token.start)

/-- The expression that is spelled by all of the tokens. -/
def ofTokens (source : List Char) (ts : List Token) : Guarded Expr :=
  match parseAt (.chain .disjunction) ts with
  | .error (.at token) => unexpectedToken source token
  | .error .atEnd => throw (Stuck.atEnd.error source ts)
  | .ok p =>
    match p.rest with
    | [] => return p.value
    | token :: _ => unexpectedToken source token

section Sources

variable {source text : List Char} {ts part : List Token} {token : Token}

theorem run_sourceOf (h : Spans source ts) :
    (sourceOf source ts).run = some (.ok (Query.sourceOf source ts)) := by
  rw [sourceOf, Query.sourceOf]
  cases hfirst : ts.head? with
  | none => rfl
  | some first =>
    cases hlast : ts.getLast? with
    | none => rfl
    | some last =>
      have hstart := h.start first (List.mem_of_head? hfirst)
      have hstop := h.stop last (List.mem_of_getLast? hlast)
      simp only
      rw [slice?_eq_some (h.head_le_getLast hfirst hlast) hstart hstop]
      rfl

theorem settles_unexpectedToken {α : Type} (h : Spans source ts) (htoken : token ∈ ts) :
    Settles source (unexpectedToken source token : Guarded α)
      (.error (.unexpected (token.source source) token.start)) := by
  have hslice := slice?_eq_some (Nat.le_of_lt (h.nonempty token htoken)) (h.start token htoken)
    (h.stop token htoken)
  exact .within hslice (.error (Error.placed_misfit (h.start token htoken)))

theorem settles_ofTokens (h : Spans source ts) :
    Settles source (ofTokens source ts) (Expr.ofTokens source ts) := by
  have hremains := remains_readAt (.chain .disjunction) ts
  rw [readAt] at hremains
  rw [ofTokens, Expr.ofTokens]
  split
  · rename_i token hparse
    rw [hparse] at hremains ⊢
    exact settles_unexpectedToken h hremains
  · rename_i hparse
    rw [hparse]
    refine .error (Error.placed_misfit ?_)
    cases hlast : ts.getLast? with
    | none => exact boundary_byteSize source
    | some last => exact h.stop last (List.mem_of_getLast? hlast)
  · rename_i p hparse
    rw [hparse] at hremains ⊢
    change p.rest <:+ ts at hremains
    simp only
    cases hrest : p.rest with
    | nil => exact .ok p.value
    | cons token more =>
      rw [hrest] at hremains
      exact settles_unexpectedToken h (hremains.subset List.mem_cons_self)

end Sources

/-! ## The first stage -/

/-- The name of a table. -/
def tableName (text : List Char) : Guarded (Option String) := do
  let name := trim text
  if name.head? = some '[' then
    match ← within (tokens name).run with
    | .ok [⟨.quotedIdent inner, _, _⟩] => return if inner.isEmpty then none else some inner
    | _ => return none
  else return tableName? text

theorem run_tableName (text : List Char) : (tableName text).run = some (.ok (tableName? text)) := by
  have htokens : (tokens (trim text)).run = some (Query.tokens (trim text)) := run_tokens _
  rw [tableName]
  split
  · rename_i hbracket
    rw [run_within_bind htokens, tableName?]
    simp only [hbracket, if_true]
    -- one name in quotes and brackets, or anything else
    rcases Query.tokens (trim text) with e | (- | ⟨⟨kind, start, stop⟩, - | ⟨next, rest⟩⟩)
    · rfl
    · rfl
    · cases kind <;> rfl
    · cases kind <;> rfl
  · rfl

/-- The first stage of a pipeline. -/
def parseSource (text : List Char) : Guarded Stage := do
  match ← tableName text with
  | some table => return .source table
  | none => throw (.badSource (String.ofList text))

theorem settles_parseSource (text : List Char) :
    Settles text (parseSource text) (Query.parseSource text) := by
  refine .bind_ok (run_tableName text) ?_
  rw [Query.parseSource]
  cases tableName? text with
  | some table => exact .ok _
  | none => exact .error (Error.placed_of_position?_eq_none rfl)

end Guarded

end PipeSql.Query
