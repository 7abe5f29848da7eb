import PipeSql.Proofs.Query.Expr.Spelled
import PipeSql.Proofs.Query.Pieces

/-! # Tokens set apart

A lexeme is found in the text that it takes up, without what is behind it. Main statement: the
source texts of the tokens of a text, with a blank between each two, have the same tokens. -/

namespace PipeSql.Query

open PipeSql.Text

variable {source rest : List Char} {c : Char} {start n : Nat} {kind : TokenKind} {ts : List Token}

/-! ## Lexemes on their own -/

theorem head?_take_any {p : Char → Bool} (h : (rest.take n).head?.any p) : rest.head?.any p := by
  cases n with
  | zero => simp at h
  | succ n => simpa [List.head?_take] using h

theorem signAt_take (h : signAt start c rest = .ok (kind, n)) :
    signAt start c (rest.take n) = .ok (kind, n) := by
  unfold signAt at h
  split at h
  · rename_i sign hpair
    cases h
    have hhead : (rest.take 1).head? = rest.head? := by simp [List.head?_take]
    rw [signAt, hhead, hpair]
  · split at h
    · rename_i sign hsign
      cases h
      rw [List.take_zero, signAt, hsign]
      rfl
    · cases h

/-- A lexeme is found without what is behind it. -/
theorem lexeme_take (h : lexeme start c rest = .ok (kind, n)) :
    lexeme start c (rest.take n) = .ok (kind, n) := by
  have hn := lexeme_le h
  have hsplit : rest.take n ++ rest.drop n = rest := List.take_append_drop n rest
  have hlength : n ≤ (rest.take n).length := by simp [hn]
  unfold lexeme at h
  split at h
  · rename_i hquote
    split at h
    · cases h
    · rename_i value m hquoted
      cases h
      rw [← hsplit] at hquoted
      rw [lexeme, if_pos hquote, quoted?_cut hquoted hlength]
  rename_i hquote
  split at h
  · rename_i hbracket
    rw [← hsplit] at h
    rw [lexeme, if_neg hquote, if_pos hbracket]
    exact bracketed_cut h hlength
  rename_i hbracket
  split at h
  · rename_i hdigit
    dsimp only at h
    split at h
    · rename_i hnumeral
      cases h
      have htake : rest.take (rest.takeWhile continuesNumber).length =
          rest.takeWhile continuesNumber :=
        (List.prefix_iff_eq_take.mp (List.takeWhile_prefix continuesNumber)).symm
      rw [List.length_cons, Nat.add_sub_cancel, htake,
        lexeme_number start _ (startsNumber_takeWhile hdigit)] <;> rw [List.takeWhile_idem]
      exact hnumeral
    · cases h
  rename_i hdigit
  have hdigit' : ¬(c.isDigit || (c == '.' && (rest.take n).head?.any Char.isDigit)) := by
    rw [Bool.or_eq_true, Bool.and_eq_true] at hdigit ⊢
    exact mt (Or.imp_right (And.imp_right head?_take_any)) hdigit
  rw [lexeme, if_neg hquote, if_neg hbracket, if_neg hdigit']
  split at h
  · rename_i hname
    cases h
    have hlength : nameLength (rest.take (nameLength rest)) = nameLength rest := by
      rw [nameLength_take, List.length_take, Nat.min_eq_left (nameLength_le rest)]
    simp only [hname, if_true, hlength, List.take_take, Nat.min_self]
  · rename_i hname
    rw [if_neg hname, signAt_take h]

/-- The text that a lexeme takes up is a piece of one token. -/
theorem scans_lexeme (hc : isBlank c = false) (h : lexeme start c rest = .ok (kind, n)) :
    Scans Ends (c :: rest.take n) [kind] := by
  refine .of_lexeme hc fun start' behind hbehind => ?_
  rw [List.length_take, Nat.min_eq_left (lexeme_le h)]
  exact lexeme_of_ends hbehind (lexeme_shift (lexeme_take h) start')

/-! ## Sources of tokens -/

/-- The source text of each token is a piece of just this token. -/
theorem scans_source_of_tokensFrom (before : List Char)
    (h : tokensFrom (byteSize before) rest = .ok ts) :
    ∀ token ∈ ts, Scans Ends (token.source (before ++ rest)) [token.kind] := by
  generalize hstart : byteSize before = start at h
  induction start, rest using scan_induction generalizing before ts with
  | nil start =>
    rw [tokensFrom_nil] at h
    cases h
    simp
  | blank start c rest hc ih =>
    rw [tokensFrom_blank hc] at h
    have hmore := ih (before ++ [c]) (by simp [byteSize, hstart]) h
    rwa [List.append_assoc] at hmore
  | stuck start c rest e hc hstuck =>
    rw [tokensFrom_stuck hc hstuck] at h
    cases h
  | lexeme start c rest kind n hc hlexeme ih =>
    rw [tokensFrom_lexeme hc hlexeme] at h
    subst hstart
    obtain ⟨more, hmore, rfl⟩ := map_eq_ok_iff.mp h
    have hsplit : before ++ c :: rest = before ++ (c :: rest.take n ++ rest.drop n) := by
      rw [List.cons_append, List.take_append_drop]
    have hbehind := ih (before ++ c :: rest.take n) (byteSize_append _ _) hmore
    rw [List.append_assoc, ← hsplit] at hbehind
    refine List.forall_mem_cons.mpr ⟨?_, hbehind⟩
    rw [hsplit, Token.source, slice_append]
    exact scans_lexeme hc hlexeme

/-- The source texts of the tokens, with a blank between each two. -/
def setApart (source : List Char) (ts : List Token) : List Char :=
  [' '].intercalate (ts.map (Token.source source))

/-- Pieces that are set apart stay pieces. -/
theorem scans_setApart (h : ∀ token ∈ ts, Scans Ends (token.source source) [token.kind]) :
    Scans Ends (setApart source ts) (ts.map Token.kind) := by
  induction ts with
  | nil => exact .nil
  | cons token ts ih =>
    obtain ⟨htoken, hts⟩ := List.forall_mem_cons.mp h
    cases ts with
    | nil => simpa [setApart] using htoken
    | cons next more =>
      have hblank : Scans Anything [' '] [] := .blank (by decide)
      have hbehind : Scans Ends (' ' :: setApart source (next :: more))
          ((next :: more).map Token.kind) := hblank.append (ih hts) fun _ _ => trivial
      have hjoined : setApart source (token :: next :: more) =
          token.source source ++ ' ' :: setApart source (next :: more) := by
        simp [setApart, List.intercalate_cons_cons]
      rw [hjoined]
      exact htoken.append_break hbehind (by decide)

/-- A text that has tokens keeps them, but for their positions, when their source texts are set
apart. -/
theorem tokens_setApart (h : tokens source = .ok ts) :
    ∃ ts', tokens (setApart source ts) = .ok ts' ∧ ts'.map Token.kind = ts.map Token.kind :=
  (scans_setApart (scans_source_of_tokensFrom [] h)).tokens_eq

/-- The tokens of `a.b.5<=>1e3$c!='x\\'y'['p q']`. -/
def denseTokens : List Token :=
  [⟨.ident "a.b", 0, 3⟩, ⟨.number ".5", 3, 5⟩, ⟨.lessEqual, 5, 7⟩, ⟨.greater, 7, 8⟩,
    ⟨.number "1e3", 8, 11⟩, ⟨.ident "$c", 11, 13⟩, ⟨.notEqual, 13, 15⟩, ⟨.text "x'y", 15, 21⟩,
    ⟨.quotedIdent "p q", 21, 28⟩]

/-- A name in front of a number that starts with a dot, signs that run into each other, a number in
front of a name, and literals with quotes and blanks in them. -/
theorem tokens_setApart_dense :
    tokens "a.b.5<=>1e3$c!='x\\'y'['p q']".toList = .ok denseTokens ∧
      ∃ ts, tokens "a.b .5 <= > 1e3 $c != 'x\\'y' ['p q']".toList = .ok ts ∧
        ts.map Token.kind = denseTokens.map Token.kind := by
  have hts : tokens "a.b.5<=>1e3$c!='x\\'y'['p q']".toList = .ok denseTokens := by cbv
  have hapart : setApart "a.b.5<=>1e3$c!='x\\'y'['p q']".toList denseTokens =
      "a.b .5 <= > 1e3 $c != 'x\\'y' ['p q']".toList := by decide
  exact ⟨hts, hapart ▸ tokens_setApart hts⟩

end PipeSql.Query
