import PipeSql.Proofs.Session
import PipeSql.Proofs.Sql.Fidelity

/-! # Statements that are refused

A store refuses a text for its first word. Main statement: which texts it refuses, that it does so
in every state, and that it never refuses what a query is compiled to. -/

namespace PipeSql

open Text

namespace Store

/-- The first word of a text, in any case and behind any blanks, is `word`, and `c` stands right
behind it. -/
def Leads (word : String) (c : Char) (sql : String) : Prop :=
  ∃ blanks typed rest, sql.toList = blanks ++ (typed ++ c :: rest) ∧ (∀ b ∈ blanks, isBlank b) ∧
    typed.map Char.toUpper = word.toList

variable {sql word : String} {c : Char} {cs : List Char}

theorem eq_space_of_toUpper (h : c.toUpper = ' ') : c = ' ' := by
  unfold Char.toUpper at h
  split at h
  · rename_i hc
    have hlow : 97 ≤ c.val.toNat := UInt32.le_iff_toNat_le.mp hc.1
    have hhigh : c.val.toNat ≤ 122 := UInt32.le_iff_toNat_le.mp hc.2
    have hval := congrArg (fun c => c.val.toNat) h
    simp only [UInt32.toNat_add] at hval
    have hshift : ('A'.val - 'a'.val).toNat = 2 ^ 32 - 32 := by decide
    have hspace : ' '.val.toNat = 32 := rfl
    omega
  · exact h

theorem toUpper_of_isBlank (h : isBlank c) : c.toUpper = c := by
  unfold Char.toUpper
  split
  · rename_i hc
    have hlow : 97 ≤ c.toNat := UInt32.le_iff_toNat_le.mp hc.1
    have hhigh : c.toNat ≤ 122 := UInt32.le_iff_toNat_le.mp hc.2
    simp only [isBlank, Bool.or_eq_true, Bool.and_eq_true, beq_iff_eq, decide_eq_true_eq] at h
    omega
  · rfl

theorem dropWhile_blanks {blanks : List Char} (hblanks : ∀ b ∈ blanks, isBlank b)
    (hhead : ∀ c ∈ cs.head?, isBlank c = false) : (blanks ++ cs).dropWhile isBlank = cs := by
  rw [List.dropWhile_append_of_pos hblanks]
  cases cs with
  | nil => rfl
  | cons c cs => rw [List.dropWhile_cons_of_neg (by simpa using hhead c rfl)]

theorem isBlank_head_of_refused {typed : List Char} (hword : word ∈ refusedWords)
    (htyped : typed.map Char.toUpper = word.toList) :
    ∃ first rest, typed = first :: rest ∧ isBlank first = false := by
  have hhead : ∃ letter letters, word.toList = letter :: letters ∧ isBlank letter = false := by
    simp only [refusedWords, List.mem_cons, List.not_mem_nil, or_false] at hword
    rcases hword with rfl | rfl | rfl <;> exact ⟨_, _, rfl, rfl⟩
  obtain ⟨letter, letters, hletters, hletter⟩ := hhead
  obtain ⟨first, rest, rfl, rfl, -⟩ := List.map_eq_cons_iff.mp (htyped.trans hletters)
  refine ⟨first, rest, rfl, ?_⟩
  by_contra hblank
  have hblank : isBlank first := by simpa using hblank
  rw [toUpper_of_isBlank hblank, hblank] at hletter
  cases hletter

theorem find?_refusedWords (hword : word ∈ refusedWords) (rest : List Char) :
    (refusedWords.find? fun other =>
      (other.toList ++ [' ']).isPrefixOf (word.toList ++ ' ' :: rest)) = some word := by
  simp only [refusedWords, List.mem_cons, List.not_mem_nil, or_false] at hword
  rcases hword with rfl | rfl | rfl <;> rfl

/-- A text is refused for its first word, if one of the refused words with a space behind it. -/
theorem refusedWord?_eq_some_iff :
    refusedWord? sql = some word ↔ word ∈ refusedWords ∧ Leads word ' ' sql := by
  rw [refusedWord?]
  constructor
  · intro h
    refine ⟨List.mem_of_find?_eq_some h, ?_⟩
    have hmatch : (word.toList ++ [' ']).isPrefixOf
        ((sql.toList.dropWhile isBlank).map Char.toUpper) := by simpa using List.find?_some h
    obtain ⟨behind, hbehind⟩ := List.isPrefixOf_iff_prefix.mp hmatch
    rw [List.append_assoc, List.singleton_append] at hbehind
    obtain ⟨typed, more, hdrop, htyped, hmore⟩ := List.map_eq_append_iff.mp hbehind.symm
    obtain ⟨c, rest, rfl, hc, -⟩ := List.map_eq_cons_iff.mp hmore
    obtain rfl := eq_space_of_toUpper hc
    refine ⟨sql.toList.takeWhile isBlank, typed, rest, ?_, ?_, htyped⟩
    · rw [← hdrop, List.takeWhile_append_dropWhile]
    · exact fun b hb => List.mem_takeWhile_imp hb
  · rintro ⟨hword, blanks, typed, rest, hsql, hblanks, htyped⟩
    obtain ⟨first, letters, rfl, hfirst⟩ := isBlank_head_of_refused hword htyped
    have hhead : ∀ c ∈ (first :: letters ++ ' ' :: rest).head?, isBlank c = false := by
      simpa using hfirst
    have hstart : (sql.toList.dropWhile isBlank).map Char.toUpper =
        word.toList ++ ' ' :: rest.map Char.toUpper := by
      rw [hsql, dropWhile_blanks hblanks hhead, List.map_append, htyped]
      rfl
    simp only [hstart]
    exact find?_refusedWords hword (rest.map Char.toUpper)

/-- A store refuses the same texts in all states, and stays as it is. -/
theorem execute_eq_refused_iff {store : Store} :
    store.execute sql = (store, .error (.refused word)) ↔ refusedWord? sql = some word := by
  unfold execute
  cases refusedWord? sql with
  | some other => simp
  | none =>
    cases store with
    | unopened => simp
    | opened tables =>
      simp only
      split <;> simp

end Store

theorem refusedWord?_of_compile {options : CompileOptions} {query sql : String}
    (h : compile options query = .ok sql) : Store.refusedWord? sql = none := by
  obtain ⟨letters, rest, hsql, hletters⟩ := Session.exists_head_of_compile h
  obtain ⟨c, letters, rfl, hc⟩ := hletters.exists_cons
  have hblank : isBlank c = false := by
    rcases hc with rfl | rfl <;> rfl
  rw [Store.refusedWord?, hsql, List.cons_append, List.dropWhile_cons_of_neg (by simp [hblank])]
  rcases hc with rfl | rfl <;> rfl

/-- A text is refused exactly if its first word is a refused one with a space behind it; then a
store refuses it in every state, and stays as it is. The SQL of a query is never refused. -/
theorem refused_iff_leads (sql : String) :
    (∀ word, Store.refusedWord? sql = some word ↔
        word ∈ Store.refusedWords ∧ Store.Leads word ' ' sql) ∧
      (∀ (store : Store) (word : String),
        store.execute sql = (store, .error (.refused word)) ↔
          Store.refusedWord? sql = some word) ∧
      ∀ (options : CompileOptions) (query : String), compile options query = .ok sql →
        Store.refusedWord? sql = none :=
  ⟨fun _ => Store.refusedWord?_eq_some_iff, fun _ _ => Store.execute_eq_refused_iff,
    fun _ _ => refusedWord?_of_compile⟩

theorem refused_iff_leads_dropTable :
    (∀ store : Store, store.execute "\n dRoP table people" = (store, .error (.refused "DROP"))) ∧
      Store.refusedWord? "SELECT * FROM \"T\" WHERE a = 'x'" = none := by
  obtain ⟨hword, hstore, -⟩ := refused_iff_leads "\n dRoP table people"
  obtain ⟨-, -, hquery⟩ := refused_iff_leads "SELECT * FROM \"T\" WHERE a = 'x'"
  have hleads : Store.Leads "DROP" ' ' "\n dRoP table people" :=
    ⟨"\n ".toList, "dRoP".toList, "table people".toList, by decide, by decide, by decide⟩
  refine ⟨fun store => (hstore store "DROP").mpr ((hword "DROP").mpr ⟨by decide, hleads⟩), ?_⟩
  exact hquery {} _ (@compile_comparison '"' "x" rfl (by decide))

/-- With a tab in the place of the space, the statement is not refused. -/
theorem not_refused_tab :
    ¬ ∀ (sql word : String) (c : Char), word ∈ Store.refusedWords → isBlank c →
      Store.Leads word c sql → Store.refusedWord? sql = some word := by
  intro h
  have hleads : Store.Leads "DROP" '\t' "DROP\tTABLE people" :=
    ⟨[], "DROP".toList, "TABLE people".toList, by decide, by decide, by decide⟩
  have hword := h _ _ _ (by decide) (by decide) hleads
  have hnone : Store.refusedWord? "DROP\tTABLE people" = none := by decide
  rw [hnone] at hword
  cases hword

end PipeSql
