import PipeSql.Proofs.Sql.Statements
import PipeSql.Store
import PipeSql.Store.Query

/-! # What a store relies on

How a database treats the tables that it is told to load and the questions that it is asked.
Tables in memory behave so: no statement changes them unless it starts with the word `drop`. -/

namespace PipeSql

open Sql

/-! ## Questions -/

/-- The token is a word that starts with the letters of `select`, in any case. -/
def Store.startsSelect (token : Token) : Bool :=
  match token.kind with
  | .word spelling => "select".toList.isPrefixOf (spelling.toList.map Char.toLower)
  | _ => false

/-- The statement starts with such a word, or has no tokens. -/
def Store.asks (statement : List Char) : Bool :=
  match tokens statement with
  | .ok (first :: _) => startsSelect first
  | _ => true

theorem Sql.SpellsSelect.asks {letters : List Char} (h : SpellsSelect letters) (rest : List Char) :
    Store.asks (letters ++ rest) := by
  obtain ⟨c, more, rfl, -⟩ := h.exists_cons
  obtain ⟨hgap, htoken⟩ := h.tokenAt? rest
  rw [Store.asks, tokens, List.cons_append, List.length_cons, tokensWithin]
  simp only [hgap, htoken]
  cases tokensWithin (more ++ rest).length (rest.dropWhile continuesWord) with
  | error stuck => rfl
  | ok ts =>
    have hword : "select".toList.isPrefixOf
        ((c :: more ++ rest.takeWhile continuesWord).map Char.toLower) := by
      rw [List.map_append, h, List.isPrefixOf_iff_prefix]
      exact List.prefix_append _ _
    simpa [Store.startsSelect] using hword

/-! ## Laws -/

/-- What is relied on at a database: how its tables change as it is told to load one, and that they
do not as it is asked. -/
structure Database.Laws (δ : Type) [Database δ] : Prop where
  /-- A new database has no tables. -/
  empty : Database.tables (Database.empty : δ) = []
  /-- No table is created under a name that is taken. -/
  taken : ∀ (database : δ) table columns rows,
    table ∈ (Database.tables database).map Prod.fst →
      (Database.load database table columns rows).2 ≠ .ok ()
  /-- A table that is loaded stands behind the others, with its columns in the given order. -/
  loaded : ∀ (database : δ) table columns rows,
    (Database.load database table columns rows).2 = .ok () →
      Database.tables (Database.load database table columns rows).1 =
        Database.tables database ++ [(table, columns)]
  /-- The transaction of a load that fails is rolled back. -/
  rolledBack : ∀ (database : δ) table columns rows,
    (Database.load database table columns rows).2 ≠ .ok () →
      Database.tables (Database.load database table columns rows).1 = Database.tables database
  /-- Questions change no tables, whether or not they are answered. -/
  asked : ∀ (database : δ) sql, (∀ statement ∈ statements sql.toList, Store.asks statement) →
    Database.tables (Database.perform database sql).1 = Database.tables database

namespace Store

/-! ## Tables in memory -/

namespace Memory

variable {memory : Memory} {table : String} {columns : List String}

theorem load_eq_of_objection? (h : memory.objection? table columns = none)
    (rows : List (List String)) :
    memory.load table columns rows =
      (⟨memory.tables ++ [⟨table, columns, rows.map (fitted columns.length)⟩]⟩, .ok ()) := by
  rw [load, h]

theorem find?_of_objection? (h : memory.objection? table columns = none) :
    memory.find? table = none := by
  unfold objection? at h
  split at h
  · cases h
  split at h
  · cases h
  · rename_i hfree
    simpa using hfree

theorem objection?_of_load {rows : List (List String)}
    (h : (memory.load table columns rows).2 = .ok ()) : memory.objection? table columns = none := by
  unfold load at h
  split at h
  · cases h
  · assumption

theorem not_mem_names_of_find? (h : memory.find? table = none) :
    table ∉ memory.tables.map Table.name := by
  intro hmem
  obtain ⟨other, hother, rfl⟩ := List.mem_map.mp hmem
  have hne := List.find?_eq_none.mp h other hother
  simp [Text.agree] at hne

/-- The statement starts with the word `drop`. -/
def drops (statement : List Char) : Bool :=
  match tokens statement with
  | .ok (first :: _) => isWord "drop" first
  | _ => false

theorem not_drops_of_asks {statement : List Char} (h : asks statement) :
    drops statement = false := by
  unfold asks at h
  unfold drops
  split
  · rename_i first rest htokens
    rw [htokens] at h
    simp only [startsSelect, isWord] at h ⊢
    split
    · rename_i spelling hkind
      rw [hkind] at h
      obtain ⟨more, hmore⟩ := List.isPrefixOf_iff_prefix.mp h
      rw [← Bool.not_eq_true, Text.agree_iff, ← hmore]
      intro heq
      cases heq
    · rfl
  · rfl

theorem perform_fst {statement : List Char} (h : drops statement = false) :
    (memory.perform statement).1 = memory := by
  unfold drops at h
  unfold perform
  cases htokens : tokens statement with
  | error rest => rfl
  | ok ts =>
    cases ts with
    | nil => rfl
    | cons first rest =>
      rw [htokens] at h
      have hread : readStatement (first :: rest) = .query <$> readQuery (first :: rest) := by
        unfold readStatement
        simp [h]
      simp only [hread]
      cases readQuery (first :: rest) <;> rfl

theorem performAll_fst {statements : List (List Char)}
    (h : ∀ statement ∈ statements, drops statement = false) :
    (memory.performAll statements).1 = memory := by
  induction statements with
  | nil => rfl
  | cons first rest ih =>
    have hfirst : (memory.perform first).1 = memory := perform_fst (h first List.mem_cons_self)
    have hrest := ih fun statement hmem => h statement (List.mem_cons_of_mem first hmem)
    rw [performAll]
    split
    · rename_i behind objection heq
      rw [heq] at hfirst
      exact hfirst
    · rename_i behind result heq
      rw [heq] at hfirst
      obtain rfl : behind = memory := hfirst
      exact hrest

/-- Tables in memory are a database that can be relied on. -/
theorem laws : Database.Laws Memory where
  empty := rfl
  taken memory table columns rows htaken hload := by
    have hfree := find?_of_objection? (objection?_of_load hload)
    simp only [Database.tables, List.map_map] at htaken
    exact not_mem_names_of_find? hfree htaken
  loaded memory table columns rows hload := by
    have hload := load_eq_of_objection? (objection?_of_load hload) rows
    simp [Database.tables, Database.load, hload]
  rolledBack memory table columns rows hload := by
    simp only [Database.load, load] at hload ⊢
    split
    · rfl
    · rename_i hobjection
      rw [hobjection] at hload
      exact absurd rfl hload
  asked memory sql hasks := by
    simp only [Database.tables, Database.perform]
    rw [performAll_fst fun statement hstatement => not_drops_of_asks (hasks statement hstatement)]

end Memory

/-! ## Texts of questions -/

variable {δ : Type} [Database δ] {store : Store δ}

theorem tables_after (laws : Database.Laws δ) {sql : String}
    (h : ∀ statement ∈ statements sql.toList, asks statement) :
    (store.after sql).tables = store.tables := by
  unfold after execute
  cases refusedWord? sql with
  | some word => rfl
  | none =>
    cases store with
    | unopened => rfl
    | opened database =>
      have hasked := laws.asked database sql h
      simp only
      split
      · rename_i behind objection heq
        rw [heq] at hasked
        exact hasked
      · rename_i behind results heq
        rw [heq] at hasked
        exact hasked

/-- A text that starts with `select` leaves the tables as they are if the statements behind its
first one are questions. -/
theorem tables_after_of_spellsSelect (laws : Database.Laws δ) {sql : String}
    {letters rest : List Char} (hsql : sql.toList = letters ++ rest)
    (hletters : SpellsSelect letters)
    (h : ∀ statement ∈ (statements sql.toList).tail, asks statement) :
    (store.after sql).tables = store.tables := by
  obtain ⟨more, others, hothers⟩ := hletters.exists_statements rest
  rw [hsql, hothers, List.tail_cons] at h
  refine tables_after laws fun statement hstatement => ?_
  rw [hsql, hothers] at hstatement
  rcases List.mem_cons.mp hstatement with rfl | hstatement
  · exact hletters.asks more
  · exact h statement hstatement

end Store

end PipeSql
