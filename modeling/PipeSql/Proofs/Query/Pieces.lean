import PipeSql.Proofs.Query.Stage.Joined

/-! # Texts that stand in front of others

What is scanned at the end of a text is scanned in front of a break as well. Main statement: each
text that has tokens is a piece. -/

namespace PipeSql.Query

open PipeSql.Text

variable {a b : List Char} {c d : Char} {start n : Nat} {kind : TokenKind}

/-! ## Lexemes in front of more -/

/-- What stands behind a literal that is closed does not matter. -/
theorem quoted?_extended {quote : Char} {value : List Char}
    (h : quoted? quote a = some (value, n)) : quoted? quote (a ++ b) = some (value, n) := by
  induction a using literal_induction quote generalizing value n with
  | nil => cases h
  | lone => cases h
  | escaped c rest ih =>
    rw [quoted?] at h
    obtain ⟨⟨inner, m⟩, hinner, heq⟩ := Option.map_eq_some_iff.mp h
    cases heq
    rw [List.cons_append, List.cons_append, quoted?, ih hinner]
    rfl
  | closed hquote rest =>
    rw [quoted?_plain hquote, if_pos rfl] at h
    rw [List.cons_append, quoted?_plain hquote, if_pos rfl, h]
  | plain c rest hslash hother ih =>
    rw [quoted?_plain hslash, if_neg hother] at h
    obtain ⟨⟨inner, m⟩, hinner, heq⟩ := Option.map_eq_some_iff.mp h
    cases heq
    rw [List.cons_append, quoted?_plain hslash, if_neg hother, ih hinner]
    rfl

theorem bracketed_extended (h : bracketed start a = .ok (kind, n)) :
    bracketed start (a ++ b) = .ok (kind, n) := by
  unfold bracketed at h
  split at h
  · cases h
  rename_i quote more
  split at h
  case isFalse => cases h
  rename_i hquote
  split at h
  · cases h
  rename_i name m hquoted
  split at h
  case isFalse => cases h
  rename_i hclose
  cases h
  have hhead : ((more ++ b).drop m).head? = some ']' := by
    rw [List.drop_append_of_le_length (quoted?_le hquoted)]
    obtain ⟨rest, hrest⟩ := List.head?_eq_some_iff.mp hclose
    rw [hrest]
    rfl
  rw [List.cons_append, bracketed]
  simp only [hquote, if_true, quoted?_extended hquoted, hhead]

/-- A lexeme at the end of a text is found in front of a character that severs. -/
theorem lexeme_extended (hd : Severs d) (h : lexeme start c a = .ok (kind, n)) :
    lexeme start c (a ++ d :: b) = .ok (kind, n) := by
  unfold lexeme at h ⊢
  rw [head?_any_cut hd.isDigit, takeWhile_number_cut hd, nameLength_cut hd,
    signAt_cut start c hd]
  split at h
  · rename_i hquote
    rw [if_pos hquote]
    split at h
    · cases h
    · rename_i value m hquoted
      cases h
      rw [quoted?_extended hquoted]
  rename_i hquote
  rw [if_neg hquote]
  split at h
  · rename_i hbracket
    rw [if_pos hbracket]
    exact bracketed_extended h
  rename_i hbracket
  rw [if_neg hbracket]
  simp only [List.take_append_of_le_length (nameLength_le a)]
  exact h

/-- A lexeme is found in front of each rest with which no name and no number goes on. -/
theorem lexeme_of_ends (hb : Ends b) (h : lexeme start c a = .ok (kind, n)) :
    lexeme start c (a ++ b) = .ok (kind, n) := by
  cases b with
  | nil => rwa [List.append_nil]
  | cons d b => exact lexeme_extended (severs_of_isBreak (hb d rfl)) h

/-! ## Texts as pieces -/

/-- A text that has tokens keeps them in front of a break, and what is behind has its own. -/
theorem tokensFrom_append_of_ends {cs rest : List Char} {ts : List Token}
    (h : tokensFrom start cs = .ok ts) (hrest : Ends rest) :
    tokensFrom start (cs ++ rest) = (tokensFrom (start + byteSize cs) rest).map (ts ++ ·) := by
  induction start, cs using scan_induction generalizing ts with
  | nil start =>
    rw [tokensFrom_nil] at h
    cases h
    change tokensFrom start rest = (tokensFrom start rest).map ([] ++ ·)
    cases tokensFrom start rest <;> rfl
  | blank start c cs hc ih =>
    rw [tokensFrom_blank hc] at h
    rw [List.cons_append, tokensFrom_blank hc, ih h, byteSize, Nat.add_assoc]
  | stuck start c cs e hc hstuck =>
    rw [tokensFrom_stuck hc hstuck] at h
    cases h
  | lexeme start c cs kind n hc hlexeme ih =>
    rw [tokensFrom_lexeme hc hlexeme] at h
    obtain ⟨more, hmore, rfl⟩ := map_eq_ok_iff.mp h
    have hn := lexeme_le hlexeme
    have hsize : start + byteSize (c :: cs.take n) + byteSize (cs.drop n) =
        start + byteSize (c :: cs) := by
      rw [Nat.add_assoc, ← byteSize_append, List.cons_append, List.take_append_drop]
    rw [List.cons_append, tokensFrom_lexeme hc (lexeme_of_ends hrest hlexeme),
      List.take_append_of_le_length hn, List.drop_append_of_le_length hn, ih hmore, hsize]
    cases tokensFrom (start + byteSize (c :: cs)) rest <;> rfl

/-- Each text that has tokens is a piece. -/
theorem scans_of_tokensFrom {cs : List Char} {ts : List Token} (h : tokensFrom start cs = .ok ts) :
    Scans Ends cs (ts.map Token.kind) := by
  intro start' rest hrest
  obtain ⟨ts', hts', hkinds⟩ := exists_tokensFrom_shift h start'
  exact ⟨ts', start' + byteSize cs, hkinds, tokensFrom_append_of_ends hts' hrest⟩

/-! ## Separators -/

theorem Scans.comma {cs : List Char} {ks : List TokenKind} (h : Scans Ends cs ks) :
    Scans Ends (',' :: cs) (.comma :: ks) :=
  (scans_paren .comma (by decide) rfl fun _ => rfl).append h fun _ _ => trivial

/-- A word between blanks, in front of a piece. -/
theorem Scans.behind {word : String} {cs : List Char} {ks : List TokenKind}
    (hword : Scans Ends word.toList [.ident word]) (h : Scans Ends cs ks) :
    Scans Ends (' ' :: (word.toList ++ ' ' :: cs)) (.ident word :: ks) := by
  have hblank : Scans Anything [' '] [] := .blank (by decide)
  have hrest : Scans Ends (' ' :: cs) ks := hblank.append h fun _ _ => trivial
  exact hblank.append (hword.append_break hrest (by decide)) fun _ _ => trivial

/-- Pieces with a separator between them, which is one token. -/
theorem scans_intercalate {sep : String} {f : String → String} {g : String → List TokenKind}
    (hbreak : ∃ c body, sep.toList = c :: body ∧ isBreak c)
    (hsep : ∀ {cs ks}, Scans Ends cs ks → Scans Ends (sep.toList ++ cs) (kind :: ks))
    (first : String) (more : List String) (h : ∀ s ∈ first :: more, Scans Ends (f s).toList (g s)) :
    Scans Ends (sep.intercalate ((first :: more).map f)).toList
      (g first ++ more.flatMap fun s => kind :: g s) := by
  induction more generalizing first with
  | nil => simpa using h
  | cons second more ih =>
    obtain ⟨hfirst, hmore⟩ := List.forall_mem_cons.mp h
    have hrest := hsep (ih second hmore)
    obtain ⟨c, body, hlist, hc⟩ := hbreak
    rw [List.map_cons, List.map_cons, String.intercalate_cons_cons, ← List.map_cons,
      String.toList_append, String.toList_append, List.append_assoc, List.flatMap_cons,
      List.cons_append]
    rw [hlist] at hrest ⊢
    exact hfirst.append_break hrest hc

end PipeSql.Query
