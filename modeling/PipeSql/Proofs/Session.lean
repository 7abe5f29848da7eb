import PipeSql.Proofs.Plan.Spelled
import PipeSql.Proofs.Sql.Structure
import PipeSql.Proofs.Store
import PipeSql.Session

/-! # The tables that a session knows

The catalog of a session knows the tables that are in its store, whatever is loaded and whatever
fails, and queries change neither. There are two exceptions. A store performs each statement of SQL
that is passed on, and only the first of them is sure to be a SELECT. A reset that cannot open a
database leaves no store, and the catalog as it was. Main statement: store and catalog agree after
every step but these, and again from the next reset on. -/

namespace PipeSql

open Query

variable {δ : Type} [Database δ]

/-! ## Importing a file -/

section Import

variable {store : Store δ} {database : δ} {opening : Except Store.Objection Unit}

theorem Store.tables_of_connect (laws : Database.Laws δ) (h : connect opening = .ok database) :
    Database.tables database = [] := by
  unfold connect at h
  split at h
  · cases h
    exact laws.empty
  · cases h

theorem Store.tables_of_database (laws : Database.Laws δ)
    (h : store.database opening = .ok database) : Database.tables database = store.tables := by
  cases store with
  | opened database =>
    cases h
    rfl
  | unopened => exact tables_of_connect laws h

/-- What an import leaves: the same tables if it fails, else one more under a free name. -/
inductive Import.Outcome (store : Store δ) : Store δ × Except Fault Schema → Prop where
  | failed {behind fault} : behind.tables = store.tables → Outcome store (behind, .error fault)
  | loaded {behind schema} : schema.table ∉ store.tables.map Prod.fst →
      behind.tables = store.tables ++ [(schema.table, schema.columns)] →
      Outcome store (behind, .ok schema)

theorem Import.outcome_load (laws : Database.Laws δ) (store : Store δ) (table origin : String)
    (csv : List UInt8) (opening : Except Store.Objection Unit) :
    Outcome store (load store table origin csv opening) := by
  unfold load
  split
  · exact .failed rfl
  · exact .failed rfl
  · rename_i columns rows _ _
    unfold Store.load
    cases hdatabase : store.database opening with
    | error fault => exact .failed rfl
    | ok database =>
      have htables := Store.tables_of_database laws hdatabase
      have htaken := laws.taken database table columns rows
      have hloaded := laws.loaded database table columns rows
      have hrolledBack := laws.rolledBack database table columns rows
      rw [htables] at htaken hloaded hrolledBack
      simp only
      generalize Database.load database table columns rows = loaded
        at htaken hloaded hrolledBack ⊢
      obtain ⟨behind, result⟩ := loaded
      cases result with
      | error objection => exact .failed (hrolledBack nofun)
      | ok _ => exact .loaded (fun hmem => htaken hmem rfl) (hloaded rfl)

theorem Import.outcome_loadFile (laws : Database.Laws δ) (store : Store δ) (path : String)
    (content : Except FileFault (List UInt8)) (opening : Except Store.Objection Unit) :
    Outcome store (loadFile store path content opening) := by
  unfold loadFile
  split
  · exact .failed rfl
  · exact .failed rfl
  · exact outcome_load laws store _ _ _ opening

end Import

/-! ## Registering a table -/

namespace Catalog

variable {catalog : Catalog} {table : String} {columns : List String}

theorem tables_register (h : table ∉ catalog.tables.map Prod.fst) :
    (catalog.register table columns).tables = catalog.tables ++ [(table, columns)] := by
  have hkeep : catalog.tables.filter (fun entry => entry.1 != table) = catalog.tables := by
    refine List.filter_eq_self.mpr fun entry hentry => bne_iff_ne.mpr ?_
    rintro rfl
    exact h (List.mem_map_of_mem hentry)
  exact congrArg (· ++ [(table, columns)]) hkeep

end Catalog

namespace Session

/-! ## The invariant -/

/-- The tables of the store are those of the catalog, in the order in which they were loaded. -/
def Agrees (session : Session δ) : Prop :=
  session.store.tables = session.catalog.tables

variable {session : Session δ}

theorem Agrees.addFile (laws : Database.Laws δ) (h : session.Agrees) (path : String)
    (content : Except FileFault (List UInt8)) (opening : Except Store.Objection Unit) :
    (session.addFile path content opening).1.Agrees := by
  have houtcome := Import.outcome_loadFile laws session.store path content opening
  rw [Session.addFile]
  generalize Import.loadFile session.store path content opening = result at houtcome
  rw [Agrees] at h
  cases houtcome with
  | failed htables =>
    rw [Agrees]
    exact htables.trans h
  | loaded hfree htables =>
    rw [h] at hfree htables
    rw [Agrees]
    simp only [htables, Catalog.tables_register hfree]

theorem Agrees.addFiles (laws : Database.Laws δ) (h : session.Agrees)
    (files : List (String × Except FileFault (List UInt8))) :
    (session.addFiles files).1.Agrees := by
  induction files generalizing session with
  | nil => exact h
  | cons file files ih =>
    obtain ⟨path, content⟩ := file
    have hfirst := h.addFile laws path content (.ok ())
    rw [Session.addFiles]
    split
    · rename_i behind fault heq
      rw [heq] at hfirst
      exact hfirst
    · rename_i behind schema heq
      rw [heq] at hfirst
      exact ih hfirst

theorem agrees_reset (laws : Database.Laws δ) (session : Session δ) :
    (session.reset (.ok ())).Agrees :=
  laws.empty

/-! ## Queries -/

/-- The statements behind the first, if the query is SQL that is passed on, are SELECTs or have no
tokens. -/
def asks (query : String) : Bool :=
  match split query.toList with
  | .ok (.sql text) => (Sql.statements text).tail.all Store.asks
  | _ => true

theorem spellsSelect_of_isSql {cs : List Char} (h : isSql cs) : Sql.SpellsSelect (cs.take 6) := by
  rw [isSql, Bool.and_eq_true, beq_iff_eq] at h
  exact h.1

theorem isSql_of_split {cs text : List Char} (h : split cs = .ok (.sql text)) : isSql text := by
  unfold split at h
  simp only at h
  split at h
  · cases h
  split at h
  · rename_i hsql
    cases h
    exact hsql
  · split at h <;> cases h

section Compile

variable {options : CompileOptions} {query sql : String}

/-- The SQL of a query is written for a plan, or it is what the query itself consists of. -/
theorem compile_cases (h : PipeSql.compile options query = .ok sql) :
    (∃ plan, Request.ofText options query = .ok (.plan plan) ∧
        Sql.select options.dialect plan = .ok sql) ∨
      split query.toList = .ok (.sql sql.toList) := by
  obtain ⟨request, hrequest, hsql⟩ := bind_eq_ok_iff.mp h
  cases request with
  | plan plan => exact .inl ⟨plan, hrequest, hsql⟩
  | sql text =>
    obtain rfl : text = sql := pure_eq_ok_iff.mp hsql
    obtain ⟨pieces, hpieces, hrest⟩ := bind_eq_ok_iff.mp hrequest
    cases pieces with
    | stages texts =>
      obtain ⟨stages, -, hrest⟩ := bind_eq_ok_iff.mp hrest
      obtain ⟨plan, -, hrest⟩ := bind_eq_ok_iff.mp hrest
      cases hrest
    | sql text =>
      cases hrest
      exact .inr (by rw [hpieces, String.toList_ofList])

/-- The SQL of a query starts with `select`, in any case. -/
theorem exists_head_of_compile (h : PipeSql.compile options query = .ok sql) :
    ∃ letters rest, sql.toList = letters ++ rest ∧ Sql.SpellsSelect letters := by
  rcases compile_cases h with ⟨plan, -, hselect⟩ | hsplit
  · obtain ⟨rest, hrest⟩ := Sql.exists_select hselect
    exact ⟨"SELECT".toList, ' ' :: rest, hrest, rfl⟩
  · exact ⟨sql.toList.take 6, sql.toList.drop 6, (List.take_append_drop 6 _).symm,
      spellsSelect_of_isSql (isSql_of_split hsplit)⟩

/-- What a query is compiled to leaves the tables of every store as they are. -/
theorem tables_after_of_compile (laws : Database.Laws δ)
    (h : PipeSql.compile options query = .ok sql) (hasks : asks query) (store : Store δ) :
    (store.after sql).tables = store.tables := by
  obtain ⟨letters, rest, hsql, hletters⟩ := exists_head_of_compile h
  refine Store.tables_after_of_spellsSelect laws hsql hletters ?_
  rcases compile_cases h with ⟨plan, hrequest, hselect⟩ | hsplit
  · obtain ⟨gs, hwritten, heven, -⟩ :=
      Sql.exists_written_select (spelled_of_ofText hrequest) hselect
    rw [hwritten, Sql.statements_written heven]
    exact fun statement hstatement => absurd hstatement List.not_mem_nil
  · rw [asks, hsplit] at hasks
    exact List.all_eq_true.mp hasks

end Compile

theorem tables_after (laws : Database.Laws δ) (session : Session δ) {query : String}
    (h : asks query) : (session.after query).store.tables = session.store.tables := by
  unfold after execute
  cases hsql : session.compile .sqlite query with
  | error error => rfl
  | ok sql => exact tables_after_of_compile laws hsql h session.store

theorem catalog_after (session : Session δ) (query : String) :
    (session.after query).catalog = session.catalog := by
  unfold after execute
  cases session.compile .sqlite query <;> rfl

/-! ## Steps -/

/-- What a session is asked for. A database is opened by a load and a reset, and to add a file where
there is none; whether that succeeds is part of the step. -/
inductive Step where
  | load (files : List (String × Except FileFault (List UInt8)))
      (opening : Except Store.Objection Unit)
  | add (path : String) (content : Except FileFault (List UInt8))
      (opening : Except Store.Objection Unit)
  | reset (opening : Except Store.Objection Unit)
  | compile (dialect : Sql.Dialect) (query : String)
  | run (query : String)

namespace Step

/-- The session behind a step, whether or not it succeeds. -/
def after (session : Session δ) : Step → Session δ
  | load files opening => (session.loadFiles files opening).1
  | add path content opening => (session.addFile path content opening).1
  | reset opening => session.reset opening
  | compile _ _ => session
  | run query => session.after query

/-- The step compiles or runs a query. -/
def isQuery : Step → Bool
  | compile _ _ | run _ => true
  | _ => false

/-- No statement behind the first of a query that is run may change the store. -/
def asks : Step → Bool
  | run query => Session.asks query
  | _ => true

/-- The step puts another store in the place of the one before. -/
def renews : Step → Bool
  | load _ (.ok ()) | reset (.ok ()) => true
  | _ => false

/-- The step closes the store, and fails to open another. -/
def closes : Step → Bool
  | load _ (.error _) | reset (.error _) => true
  | _ => false

theorem after_of_isQuery (laws : Database.Laws δ) {step : Step} (hquery : step.isQuery)
    (hasks : step.asks) (session : Session δ) :
    (step.after session).store.tables = session.store.tables ∧
      (step.after session).catalog = session.catalog := by
  cases step with
  | compile dialect query => exact ⟨rfl, rfl⟩
  | run query => exact ⟨session.tables_after laws hasks, session.catalog_after query⟩
  | load files opening => cases hquery
  | add path content opening => cases hquery
  | reset opening => cases hquery

theorem after_of_closes {step : Step} (h : step.closes) (session : Session δ) :
    step.after session = { session with store := .unopened } := by
  cases step with
  | load files opening =>
    cases opening with
    | ok _ => cases h
    | error objection => rfl
  | reset opening =>
    cases opening with
    | ok _ => cases h
    | error objection => rfl
  | add path content opening => cases h
  | compile dialect query => cases h
  | run query => cases h

theorem agrees_of_renews (laws : Database.Laws δ) {step : Step} (h : step.renews)
    (session : Session δ) : (step.after session).Agrees := by
  have hreset := agrees_reset laws session
  cases step with
  | load files opening =>
    cases opening with
    | ok _ => exact hreset.addFiles laws files
    | error objection => cases h
  | reset opening =>
    cases opening with
    | ok _ => exact hreset
    | error objection => cases h
  | add path content opening => cases h
  | compile dialect query => cases h
  | run query => cases h

/-- Store and catalog go on to agree behind a step, unless it closes a store with tables. -/
theorem agrees_after (laws : Database.Laws δ) {step : Step} (h : session.Agrees)
    (hasks : step.asks) (hcloses : step.closes → session.catalog.tables = []) :
    (step.after session).Agrees := by
  by_cases hclosed : step.closes
  · rw [after_of_closes hclosed]
    exact (hcloses hclosed).symm
  cases step with
  | load files opening =>
    cases opening with
    | ok _ => exact agrees_of_renews laws rfl session
    | error objection => exact absurd rfl hclosed
  | reset opening =>
    cases opening with
    | ok _ => exact agrees_of_renews laws rfl session
    | error objection => exact absurd rfl hclosed
  | add path content opening => exact h.addFile laws path content opening
  | compile dialect query => exact h
  | run query =>
    obtain ⟨htables, hcatalog⟩ := after_of_isQuery laws rfl hasks session
    rw [Agrees, htables, hcatalog]
    exact h

end Step

/-- The session behind steps. -/
def steps (session : Session δ) (steps : List Step) : Session δ :=
  steps.foldl Step.after session

theorem steps_append (session : Session δ) (front : List Step) (step : Step) :
    session.steps (front ++ [step]) = step.after (session.steps front) := by
  rw [steps, List.foldl_append]
  rfl

/-- Steps behind which store and catalog agree: since the last new store, all queries were
questions, and the store was only closed while the catalog had no tables. -/
inductive Settled (session : Session δ) : List Step → Prop where
  | start : Settled session []
  | renewed {front step} : step.renews → Settled session (front ++ [step])
  | kept {front step} : Settled session front → step.asks →
      (step.closes → (session.steps front).catalog.tables = []) →
      Settled session (front ++ [step])

/-- Steps that ask, and close nothing, are settled behind others. -/
theorem Settled.append {front steps : List Step} (h : session.Settled front)
    (hsteps : ∀ step ∈ steps, step.asks ∧ step.closes = false) :
    session.Settled (front ++ steps) := by
  induction steps generalizing front with
  | nil => rwa [List.append_nil]
  | cons step steps ih =>
    obtain ⟨hasks, hcloses⟩ := hsteps step List.mem_cons_self
    have hfirst : session.Settled (front ++ [step]) := by
      refine .kept h hasks fun hclosed => ?_
      rw [hcloses] at hclosed
      cases hclosed
    rw [List.append_cons]
    exact ih hfirst fun step hstep => hsteps step (List.mem_cons_of_mem _ hstep)

theorem Agrees.steps (laws : Database.Laws δ) (h : session.Agrees) {steps : List Step}
    (hsettled : session.Settled steps) : (session.steps steps).Agrees := by
  induction hsettled with
  | start => exact h
  | @renewed front step hrenews =>
    rw [steps_append]
    exact Step.agrees_of_renews laws hrenews _
  | @kept front step _ hasks hcloses ih =>
    rw [steps_append]
    exact Step.agrees_after laws ih hasks hcloses

/-! ## The tables of store and catalog -/

end Session

end PipeSql
