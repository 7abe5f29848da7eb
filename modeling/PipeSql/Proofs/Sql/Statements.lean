import Mathlib
import PipeSql.Proofs.Sql.Woven

/-! # The statements of a text

A semicolon cuts a text only where it is a token of its own. Woven texts have none outside their
quotes, so that each of them is one statement. In front of any semicolon stands the word that the
text starts with. -/

namespace PipeSql.Sql

/-! ## Marks -/

theorem eq_of_tokenAt?_mark {c d : Char} {rest behind : List Char}
    (h : tokenAt? c rest = some (.mark d, behind)) : d = c := by
  unfold tokenAt? at h
  split at h
  · obtain ⟨_, -, heq⟩ := Option.map_eq_some_iff.mp h
    cases heq
  split at h
  · obtain ⟨_, -, heq⟩ := Option.map_eq_some_iff.mp h
    cases heq
  split at h
  · simp only at h
    split at h
    · split at h <;> cases h
    · cases h
  split at h
  · simp only at h
    split at h <;> cases h
  split at h
  · cases h
  split at h
  · cases h
    rfl
  · cases h

/-- A mark among the tokens is a character of the text. -/
theorem mem_of_mark_mem_kinds {d : Char} {cs : List Char} (h : .mark d ∈ kinds cs) : d ∈ cs := by
  fun_induction kinds cs with
  | case1 => cases h
  | case2 c rest behind hgap ih =>
    exact List.mem_cons_of_mem c ((suffix_of_gap? hgap).subset (ih h))
  | case3 c rest _ kind behind htoken ih =>
    rcases List.mem_cons.mp h with rfl | h
    · rw [eq_of_tokenAt?_mark htoken]
      exact List.mem_cons_self
    · exact List.mem_cons_of_mem c ((suffix_of_tokenAt? htoken).subset (ih h))
  | case4 c rest _ _ ih =>
    rcases List.mem_cons.mp h with h | h
    · cases h
      exact List.mem_cons_self
    · exact List.mem_cons_of_mem c (ih h)

theorem mark_not_mem_kindsBehind {d : Char} {run : List Char} {gs : List Glyph} (hrun : d ∉ run)
    (hgs : some d ∉ gs.map Glyph.outline) : .mark d ∉ kindsBehind run gs := by
  induction gs generalizing run with
  | nil => exact fun h => hrun (mem_of_mark_mem_kinds h)
  | cons g gs ih =>
    rw [List.map_cons, List.mem_cons, not_or] at hgs
    rw [kindsBehind]
    cases hg : g.outline with
    | some c =>
      refine ih ?_ hgs.2
      rw [List.mem_append, List.mem_singleton, not_or]
      refine ⟨hrun, ?_⟩
      rintro rfl
      exact hgs.1 hg.symm
    | none =>
      have hkind : .mark d ≠ g.kind := by
        cases g with
        | bare c => cases hg
        | name content => simp [Glyph.kind]
        | text content => simp [Glyph.kind]
      simp only [List.mem_append, List.mem_cons, not_or]
      exact ⟨fun h => hrun (mem_of_mark_mem_kinds h), hkind, ih List.not_mem_nil hgs.2⟩

/-! ## Cutting -/

section Cutting

variable {n : Nat} {c : Char} {rest : List Char}

theorem kinds_semicolon (rest : List Char) : kinds (';' :: rest) = .mark ';' :: kinds rest := by
  refine kinds_of_tokenAt? ?_ ?_ <;> rfl

theorem take_append_of_suffix {behind : List Char} (h : behind <:+ rest) :
    rest.take (rest.length - behind.length) ++ behind = rest := by
  obtain ⟨front, rfl⟩ := h
  simp

/-- A text without semicolons among its tokens is one statement. -/
theorem statementsWithin_eq {cs : List Char} (hn : cs.length ≤ n) (h : .mark ';' ∉ kinds cs) :
    statementsWithin n cs = [cs] := by
  induction n generalizing cs with
  | zero =>
    obtain rfl := List.length_eq_zero_iff.mp (Nat.le_zero.mp hn)
    rfl
  | succ n ih =>
    cases cs with
    | nil => rfl
    | cons c rest =>
      have hc : c ≠ ';' := by
        rintro rfl
        rw [kinds_semicolon] at h
        exact h List.mem_cons_self
      -- what stands behind a blank, a comment or a token is one statement again
      have hcut : ∀ behind, behind <:+ rest → .mark ';' ∉ kinds behind →
          (statementsWithin n behind).modifyHead
            (c :: rest.take (rest.length - behind.length) ++ ·) = [c :: rest] := by
        intro behind hsuffix hbehind
        have hlength := hsuffix.length_le
        rw [List.length_cons] at hn
        rw [ih (by omega) hbehind]
        simp [take_append_of_suffix hsuffix]
      rw [statementsWithin, if_neg hc]
      simp only
      cases hgap : gap? c rest with
      | some behind =>
        rw [kinds_of_gap? hgap] at h
        exact hcut behind (suffix_of_gap? hgap) h
      | none =>
        cases htoken : tokenAt? c rest with
        | some found =>
          obtain ⟨kind, behind⟩ := found
          rw [kinds_of_tokenAt? hgap htoken, List.mem_cons, not_or] at h
          exact hcut behind (suffix_of_tokenAt? htoken) h.2
        | none => exact hcut [] List.nil_suffix (by simp [kinds])

theorem statements_eq {cs : List Char} (h : .mark ';' ∉ kinds cs) : statements cs = [cs] :=
  statementsWithin_eq (Nat.le_refl _) h

theorem statements_written {gs : List Glyph} (heven : Even (gs.map Glyph.outline)) :
    statements (written gs) = [written gs] := by
  refine statements_eq ?_
  rw [kinds_written heven]
  refine mark_not_mem_kindsBehind List.not_mem_nil fun h => ?_
  cases heven.bare ';' h

theorem statementsWithin_ne_nil (n : Nat) (cs : List Char) : statementsWithin n cs ≠ [] := by
  fun_induction statementsWithin n cs <;> simp_all

end Cutting

/-! ## Words at the start -/

section Words

variable {letters : List Char}

/-- The letters of `select`, in any case. -/
def SpellsSelect (letters : List Char) : Prop :=
  letters.map Char.toLower = "select".toList

theorem SpellsSelect.isAlpha (h : SpellsSelect letters) : ∀ c ∈ letters, c.isAlpha := by
  intro c hc
  have hlower : c.toLower ∈ "select".toList := h ▸ List.mem_map_of_mem hc
  have hletters : ∀ d ∈ "select".toList, d.isAlpha := by decide
  rw [← Char.isAlpha_toLower_eq_isAlpha]
  exact hletters _ hlower

theorem eq_of_toLower_eq_s {c : Char} (h : c.toLower = 's') : c = 's' ∨ c = 'S' := by
  unfold Char.toLower at h
  split at h
  · have hval : c.val + 32 = 'S'.val + 32 := congrArg Char.val h
    exact .inr (Char.ext ((UInt32.add_left_inj 32).mp hval))
  · exact .inl h

theorem SpellsSelect.exists_cons (h : SpellsSelect letters) :
    ∃ c more, letters = c :: more ∧ (c = 's' ∨ c = 'S') := by
  cases letters with
  | nil => cases h
  | cons c more => exact ⟨c, more, rfl, eq_of_toLower_eq_s (List.cons_eq_cons.mp h).1⟩

/-- The letters are the start of a word. -/
theorem SpellsSelect.tokenAt? {c : Char} {more : List Char} (h : SpellsSelect (c :: more))
    (rest : List Char) :
    gap? c (more ++ rest) = none ∧
      Sql.tokenAt? c (more ++ rest) =
        some (.word (String.ofList (c :: (more ++ rest.takeWhile continuesWord))),
          rest.dropWhile continuesWord) := by
  have hmore : ∀ d ∈ more, continuesWord d := fun d hd => by
    simp [continuesWord, startsWord, h.isAlpha d (List.mem_cons_of_mem c hd)]
  rw [← List.takeWhile_append_of_pos hmore, ← List.dropWhile_append_of_pos hmore]
  obtain ⟨_, _, heq, hc⟩ := h.exists_cons
  obtain ⟨rfl, rfl⟩ := List.cons_eq_cons.mp heq
  rcases hc with rfl | rfl <;> exact ⟨rfl, rfl⟩

/-- The first statement of a text starts with these letters if the text does. -/
theorem SpellsSelect.exists_statements (h : SpellsSelect letters) (rest : List Char) :
    ∃ more others, statements (letters ++ rest) = (letters ++ more) :: others := by
  obtain ⟨c, letters, rfl, hc⟩ := h.exists_cons
  have hcut : c ≠ ';' := by
    rcases hc with rfl | rfl <;> decide
  obtain ⟨hgap, htoken⟩ := h.tokenAt? rest
  rw [statements, List.cons_append, List.length_cons, statementsWithin, if_neg hcut]
  simp only [hgap, htoken, Option.none_or, Option.map_some, Option.getD_some]
  obtain ⟨first, others, hothers⟩ := List.exists_cons_of_ne_nil
    (statementsWithin_ne_nil (letters ++ rest).length (rest.dropWhile continuesWord))
  have hsuffix : rest.dropWhile continuesWord <:+ letters ++ rest :=
    (List.dropWhile_suffix continuesWord).trans (List.suffix_append letters rest)
  have hfront : (letters ++ rest).take
      ((letters ++ rest).length - (rest.dropWhile continuesWord).length) =
        letters ++ rest.takeWhile continuesWord := by
    refine List.append_cancel_right ((take_append_of_suffix hsuffix).trans ?_)
    rw [List.append_assoc, List.takeWhile_append_dropWhile]
  rw [hothers, hfront]
  refine ⟨rest.takeWhile continuesWord ++ first, others, ?_⟩
  simp

end Words

end PipeSql.Sql
