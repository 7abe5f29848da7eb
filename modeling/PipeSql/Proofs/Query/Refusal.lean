import PipeSql.Proofs.Query.Spans

/-! # Where a text is refused

A text that has no tokens is refused at one of its boundaries. Where a literal is not closed, its
opening quote stands there: what is in front of the quote has tokens of its own. -/

namespace PipeSql.Query

open PipeSql.Text

/-! ## Texts that are cut

What is scanned in front of a quote, a bracket or a break is scanned without it as well. -/

section Cut

variable {a b : List Char} {d : Char}

/-- A character at which names, numbers and signs end. -/
structure Severs (d : Char) : Prop where
  name : continuesName d = false
  number : continuesNumber d = false
  sign : ∀ c, pairSign? c d = none

namespace Severs

theorem startsName (hd : Severs d) : startsName d = false :=
  eq_false_of_ne_true fun h => by simpa [hd.name] using continuesName_of_startsName h

theorem not_dot (hd : Severs d) : d ≠ '.' := by
  rintro rfl
  cases hd.number

theorem isDigit (hd : Severs d) : d.isDigit = false :=
  eq_false_of_ne_true fun h => by simpa [continuesNumber, Char.isAlphanum, h] using hd.number

end Severs

/-- Only a few characters end a sign of two. -/
theorem pairSign?_eq_none (hd : d ∉ ['=', '>', '&', '|']) (c : Char) : pairSign? c d = none := by
  unfold pairSign?
  split
  case h_8 => rfl
  all_goals simp at hd

theorem severs_of_isBreak (hd : isBreak d) : Severs d := by
  simp only [isBreak, Bool.or_eq_true, beq_iff_eq] at hd
  rcases hd with ((rfl | rfl) | rfl) | rfl <;>
    exact ⟨by decide, by decide, pairSign?_eq_none (by decide)⟩

/-- Quotes and the bracket in front of a name in quotes, which start lexemes of their own. -/
def opensLexeme (c : Char) : Bool :=
  isQuote c || c == '['

theorem opensLexeme_iff {c : Char} : opensLexeme c ↔ (c = '"' ∨ c = '\'') ∨ c = '[' := by
  simp [opensLexeme, isQuote]

theorem severs_of_opensLexeme (hd : opensLexeme d) : Severs d := by
  rcases opensLexeme_iff.mp hd with (rfl | rfl) | rfl <;>
    exact ⟨by decide, by decide, pairSign?_eq_none (by decide)⟩

theorem head?_any_cut {p : Char → Bool} (hd : p d = false) :
    (a ++ d :: b).head?.any p = a.head?.any p := by
  cases a <;> simp [hd]

theorem takeWhile_number_cut (hd : Severs d) :
    (a ++ d :: b).takeWhile continuesNumber = a.takeWhile continuesNumber := by
  induction a with
  | nil => simp [hd.number]
  | cons c a ih => simp [List.takeWhile_cons, ih]

theorem nameLength_cut (hd : Severs d) : nameLength (a ++ d :: b) = nameLength a := by
  induction a with
  | nil => simp [nameLength, hd.name, hd.not_dot]
  | cons c a ih =>
    rw [List.cons_append, nameLength, nameLength, ih, head?_any_cut hd.startsName]

theorem signAt_cut (start : Nat) (c : Char) (hd : Severs d) :
    signAt start c (a ++ d :: b) = signAt start c a := by
  have hpair : (a ++ d :: b).head?.bind (pairSign? c) = a.head?.bind (pairSign? c) := by
    cases a <;> simp [hd.sign]
  rw [signAt, signAt, hpair]

theorem quoted?_pos {quote : Char} {cs value : List Char} {n : Nat}
    (h : quoted? quote cs = some (value, n)) : 0 < n := by
  unfold quoted? at h
  split at h
  · cases h
  · cases h
  · obtain ⟨_, -, heq⟩ := Option.map_eq_some_iff.mp h
    cases heq
    exact Nat.succ_pos _
  · split at h
    · cases h
      exact Nat.one_pos
    · obtain ⟨_, -, heq⟩ := Option.map_eq_some_iff.mp h
      cases heq
      exact Nat.succ_pos _

/-- A literal that is closed in front of the cut is closed without what is behind it. -/
theorem quoted?_cut {quote : Char} {value : List Char} {n : Nat}
    (h : quoted? quote (a ++ b) = some (value, n)) (hn : n ≤ a.length) :
    quoted? quote a = some (value, n) := by
  induction a using literal_induction quote generalizing value n with
  | nil =>
    have hpos := quoted?_pos h
    simp only [List.length_nil] at hn
    omega
  | lone =>
    cases b with
    | nil => exact h
    | cons c b =>
      rw [List.singleton_append, quoted?] at h
      obtain ⟨_, -, heq⟩ := Option.map_eq_some_iff.mp h
      cases heq
      simp only [List.length_singleton] at hn
      omega
  | escaped c rest ih =>
    rw [List.cons_append, List.cons_append, quoted?] at h
    obtain ⟨⟨inner, m⟩, hinner, heq⟩ := Option.map_eq_some_iff.mp h
    cases heq
    rw [quoted?, ih hinner (by simpa using hn)]
    rfl
  | closed hquote rest =>
    rw [List.cons_append, quoted?_plain hquote, if_pos rfl] at h
    rw [quoted?_plain hquote, if_pos rfl, h]
  | plain c rest hslash hother ih =>
    rw [List.cons_append, quoted?_plain hslash, if_neg hother] at h
    obtain ⟨⟨inner, m⟩, hinner, heq⟩ := Option.map_eq_some_iff.mp h
    cases heq
    rw [quoted?_plain hslash, if_neg hother, ih hinner (by simpa using hn)]
    rfl

theorem bracketed_cut {start n : Nat} {kind : TokenKind}
    (h : bracketed start (a ++ b) = .ok (kind, n)) (hn : n ≤ a.length) :
    bracketed start a = .ok (kind, n) := by
  unfold bracketed at h
  split at h
  · cases h
  rename_i quote more hmore
  split at h
  case isFalse => cases h
  rename_i hquote
  split at h
  · cases h
  rename_i name m hquoted
  split at h
  case isFalse => cases h
  rename_i hclose
  cases h
  -- the cut is behind the closing bracket
  cases a with
  | nil =>
    simp only [List.length_nil] at hn
    omega
  | cons first front =>
    obtain ⟨rfl, hsplit⟩ := List.cons.inj hmore
    obtain rfl : more = front ++ b := hsplit.symm
    have hm : m < front.length := by
      simp only [List.length_cons] at hn
      omega
    rw [List.head?_drop, List.getElem?_append_left hm, ← List.head?_drop] at hclose
    rw [bracketed]
    simp only [hquote, if_true, quoted?_cut hquoted (Nat.le_of_lt hm), hclose]

/-- A lexeme that stands in front of the cut is found without what is behind it. -/
theorem lexeme_cut {start n : Nat} {c : Char} {kind : TokenKind} (hd : Severs d)
    (h : lexeme start c (a ++ d :: b) = .ok (kind, n)) (hn : n ≤ a.length) :
    lexeme start c a = .ok (kind, n) := by
  unfold lexeme at h ⊢
  rw [head?_any_cut hd.isDigit, takeWhile_number_cut hd, nameLength_cut hd,
    signAt_cut start c hd] at h
  split at h
  · rename_i hquote
    rw [if_pos hquote]
    split at h
    · cases h
    · rename_i value m hquoted
      cases h
      rw [quoted?_cut hquoted hn]
  rename_i hquote
  rw [if_neg hquote]
  split at h
  · rename_i hbracket
    rw [if_pos hbracket]
    exact bracketed_cut h hn
  rename_i hbracket
  rw [if_neg hbracket]
  simp only [List.take_append_of_le_length (nameLength_le a)] at h
  exact h

/-- What is no literal ends at the cut, whether it is a lexeme or not. -/
theorem lexeme_append {start : Nat} {c : Char} (hc : opensLexeme c = false) (hd : Severs d) :
    lexeme start c (a ++ d :: b) = lexeme start c a := by
  simp only [opensLexeme, Bool.or_eq_false_iff, beq_eq_false_iff_ne] at hc
  unfold lexeme
  simp only [hc.1, hc.2, head?_any_cut hd.isDigit, takeWhile_number_cut hd, nameLength_cut hd,
    signAt_cut start c hd, List.take_append_of_le_length (nameLength_le a), Bool.false_eq_true,
    if_false]

/-- A text without literals is scanned up to the cut, and from there what is behind it. -/
theorem tokensFrom_append {start : Nat} {cs : List Char} (hcs : ∀ c ∈ cs, opensLexeme c = false)
    (hd : Severs d) :
    tokensFrom start (cs ++ d :: b) = (tokensFrom start cs).bind fun ts =>
      (tokensFrom (start + byteSize cs) (d :: b)).map (ts ++ ·) := by
  induction start, cs using scan_induction with
  | nil start =>
    rw [tokensFrom_nil]
    change tokensFrom start (d :: b) = (tokensFrom start (d :: b)).map ([] ++ ·)
    cases tokensFrom start (d :: b) <;> rfl
  | blank start c rest hc ih =>
    rw [List.cons_append, tokensFrom_blank hc, tokensFrom_blank hc,
      ih fun c hc => hcs c (List.mem_cons_of_mem _ hc), byteSize, Nat.add_assoc]
  | stuck start c rest e hc hstuck =>
    have hstuck' := lexeme_append (b := b) (hcs c List.mem_cons_self) hd ▸ hstuck
    rw [List.cons_append, tokensFrom_stuck hc hstuck, tokensFrom_stuck hc hstuck']
    rfl
  | lexeme start c rest kind n hc hlexeme ih =>
    have hlexeme' := lexeme_append (b := b) (hcs c List.mem_cons_self) hd ▸ hlexeme
    have hn := lexeme_le hlexeme
    have hsize : start + byteSize (c :: rest.take n) + byteSize (rest.drop n) =
        start + byteSize (c :: rest) := by
      rw [Nat.add_assoc, ← byteSize_append, List.cons_append, List.take_append_drop]
    rw [List.cons_append, tokensFrom_lexeme hc hlexeme, tokensFrom_lexeme hc hlexeme',
      List.take_append_of_le_length hn, List.drop_append_of_le_length hn,
      ih fun c hc => hcs c (List.mem_cons_of_mem _ (List.mem_of_mem_drop hc)), hsize]
    cases tokensFrom (start + byteSize (c :: rest.take n)) (rest.drop n) with
    | error e => rfl
    | ok ts => cases tokensFrom (start + byteSize (c :: rest)) (d :: b) <;> rfl

end Cut

/-! ## Where a text is refused -/

/-- A text whose first character has the position `start` is scanned up to where a literal may
open: to its end, or up to the bracket of a name at its end. -/
def Scanned (start : Nat) (cs : List Char) : Prop :=
  (∃ ts, tokensFrom start cs = .ok ts) ∨
    ∃ inner ts, cs = inner ++ ['['] ∧ tokensFrom start inner = .ok ts

/-- At the position stands a quote that opens a literal, in a text whose first character has the
position `start`: what is in front of it is scanned, and what is behind it does not close it. -/
def OpensLiteral (start : Nat) (cs : List Char) (position : Nat) : Prop :=
  ∃ before quote after, cs = before ++ quote :: after ∧ start + byteSize before = position ∧
    isQuote quote ∧ quoted? quote after = none ∧ Scanned start before

section Refused

variable {start n position : Nat} {c : Char} {rest front : List Char} {kind : TokenKind} {e : Error}

theorem Scanned.blank (hc : isBlank c) (h : Scanned (start + c.utf8Size) front) :
    Scanned start (c :: front) := by
  rcases h with ⟨ts, hts⟩ | ⟨inner, ts, rfl, hts⟩
  · exact .inl ⟨ts, by rw [tokensFrom_blank hc, hts]⟩
  · exact .inr ⟨c :: inner, ts, rfl, by rw [tokensFrom_blank hc, hts]⟩

theorem exists_tokensFrom_lexeme {body : List Char} (hc : isBlank c = false)
    (h : lexeme start c (body ++ front) = .ok (kind, body.length))
    (hfront : ∃ ts, tokensFrom (start + byteSize (c :: body)) front = .ok ts) :
    ∃ ts, tokensFrom start (c :: (body ++ front)) = .ok ts := by
  obtain ⟨ts, hts⟩ := hfront
  rw [tokensFrom_lexeme hc h, List.take_left, List.drop_left, hts]
  exact ⟨_, rfl⟩

theorem Scanned.lexeme {body after : List Char} {quote : Char} (hc : isBlank c = false)
    (hquote : isQuote quote)
    (h : lexeme start c (body ++ front ++ quote :: after) = .ok (kind, body.length))
    (hfront : Scanned (start + byteSize (c :: body)) front) :
    Scanned start (c :: (body ++ front)) := by
  have hsevers := severs_of_opensLexeme (d := quote) (by simp [opensLexeme, hquote])
  have hcut := lexeme_cut hsevers h (by simp)
  rcases hfront with hts | ⟨inner, ts, rfl, hts⟩
  · exact .inl (exists_tokensFrom_lexeme hc hcut hts)
  · -- the bracket in front of the quote is cut off as well
    rw [← List.append_assoc] at hcut
    obtain ⟨all, hall⟩ :=
      exists_tokensFrom_lexeme hc
        (lexeme_cut (severs_of_opensLexeme (by decide)) hcut (by simp)) ⟨ts, hts⟩
    exact .inr ⟨c :: (body ++ inner), all, by simp, hall⟩

theorem OpensLiteral.blank (hc : isBlank c) (h : OpensLiteral (start + c.utf8Size) rest position) :
    OpensLiteral start (c :: rest) position := by
  obtain ⟨before, quote, after, rfl, hposition, hquote, hopen, hscanned⟩ := h
  refine ⟨c :: before, quote, after, rfl, ?_, hquote, hopen, hscanned.blank hc⟩
  rw [← hposition, byteSize]
  omega

theorem OpensLiteral.lexeme (hc : isBlank c = false) (h : lexeme start c rest = .ok (kind, n))
    (hrest : OpensLiteral (start + byteSize (c :: rest.take n)) (rest.drop n) position) :
    OpensLiteral start (c :: rest) position := by
  obtain ⟨before, quote, after, hsplit, hposition, hquote, hopen, hscanned⟩ := hrest
  have hlength : (rest.take n).length = n := by
    have := congrArg List.length hsplit
    simp only [List.length_drop, List.length_append, List.length_cons] at this
    rw [List.length_take]
    omega
  have hall : rest = rest.take n ++ before ++ quote :: after := by
    rw [List.append_assoc, ← hsplit, List.take_append_drop]
  refine ⟨c :: (rest.take n ++ before), quote, after, congrArg (c :: ·) hall, ?_, hquote, hopen, ?_⟩
  · rw [← hposition]
    simp only [byteSize, byteSize_append]
    omega
  · have hfound : Query.lexeme start c (rest.take n ++ before ++ quote :: after) =
        .ok (kind, (rest.take n).length) := by
      rw [← hall, hlength, h]
    exact hscanned.lexeme hc hquote hfound

/-- The ways to find no lexeme. -/
theorem lexeme_error_cases (h : Query.lexeme start c rest = .error e) :
    (∃ text, e = .unexpected text start) ∨
      ∃ position, e = .unterminated position ∧ OpensLiteral start (c :: rest) position := by
  unfold Query.lexeme at h
  split at h
  · rename_i hquote
    split at h
    · rename_i hopen
      cases h
      exact .inr ⟨start, rfl, [], c, rest, rfl, rfl, hquote, hopen, .inl ⟨[], tokensFrom_nil start⟩⟩
    · cases h
  split at h
  · rename_i hbracket
    subst hbracket
    unfold bracketed at h
    split at h
    · cases h
      exact .inl ⟨_, rfl⟩
    rename_i quote more
    split at h
    · rename_i hquote
      split at h
      · rename_i hopen
        cases h
        exact .inr ⟨start + 1, rfl, ['['], quote, more, rfl, rfl, hquote, hopen,
          .inr ⟨[], [], rfl, tokensFrom_nil start⟩⟩
      · split at h
        · cases h
        · cases h
          exact .inl ⟨_, rfl⟩
    · cases h
      exact .inl ⟨_, rfl⟩
  split at h
  · simp only at h
    split at h
    · cases h
    · cases h
      exact .inl ⟨_, rfl⟩
  split at h
  · cases h
  · unfold signAt at h
    split at h
    · cases h
    · split at h
      · cases h
      · cases h
        exact .inl ⟨_, rfl⟩

/-- The ways to find no tokens. -/
theorem tokensFrom_error_cases (h : tokensFrom start rest = .error e) :
    (∃ text before after, rest = before ++ after ∧
      e = .unexpected text (start + byteSize before)) ∨
      ∃ position, e = .unterminated position ∧ OpensLiteral start rest position := by
  induction start, rest using scan_induction with
  | nil start =>
    rw [tokensFrom_nil] at h
    cases h
  | blank start c rest hc ih =>
    rw [tokensFrom_blank hc] at h
    rcases ih h with ⟨text, before, after, rfl, rfl⟩ | ⟨position, rfl, hopens⟩
    · exact .inl ⟨text, c :: before, after, rfl, by rw [byteSize, Nat.add_assoc]⟩
    · exact .inr ⟨position, rfl, hopens.blank hc⟩
  | stuck start c rest e' hc hstuck =>
    rw [tokensFrom_stuck hc hstuck] at h
    cases h
    rcases lexeme_error_cases hstuck with ⟨text, rfl⟩ | hopens
    · exact .inl ⟨text, [], c :: rest, rfl, rfl⟩
    · exact .inr hopens
  | lexeme start c rest kind n hc hlexeme ih =>
    rw [tokensFrom_lexeme hc hlexeme] at h
    have hrest := map_eq_error_iff.mp h
    rcases ih hrest with ⟨text, before, after, hsplit, rfl⟩ | ⟨position, rfl, hopens⟩
    · refine .inl ⟨text, c :: rest.take n ++ before, after, ?_, ?_⟩
      · rw [List.cons_append, List.cons_append, List.append_assoc, ← hsplit,
          List.take_append_drop]
      · rw [byteSize_append, Nat.add_assoc]
    · exact .inr ⟨position, rfl, hopens.lexeme hc hlexeme⟩

end Refused

/-- The position to which an error points. -/
def Error.position? : Error → Option Nat
  | .misfit _ position | .unterminated position => some position
  | _ => none

/-- If the error points anywhere, then to a boundary of the text, and where a literal is not closed,
to the quote that opens it. -/
structure Error.Placed (text : List Char) (e : Error) : Prop where
  boundary : ∀ position, e.position? = some position →
    Boundary text position ∧ position ≤ byteSize text
  opens : ∀ position, e = .unterminated position → OpensLiteral 0 text position

namespace Error

variable {text : List Char} {position : Nat}

theorem placed_misfit {cause : Misfit} (h : Boundary text position) :
    (misfit cause position).Placed text where
  boundary _ heq := by
    cases heq
    exact ⟨h, h.le⟩
  opens _ heq := by cases heq

theorem placed_unterminated (h : OpensLiteral 0 text position) :
    (unterminated position).Placed text where
  boundary _ heq := by
    cases heq
    obtain ⟨before, quote, after, rfl, rfl, -⟩ := h
    have hboundary := boundary_append before (quote :: after)
    rw [Nat.zero_add]
    exact ⟨hboundary, hboundary.le⟩
  opens _ heq := by
    cases heq
    exact h

theorem placed_of_position?_eq_none {e : Error} (h : e.position? = none) : e.Placed text where
  boundary position heq := by simp [h] at heq
  opens position heq := by
    subst heq
    cases h

end Error

theorem placed_of_tokens {text : List Char} {e : Error} (h : tokens text = .error e) :
    e.Placed text := by
  rcases tokensFrom_error_cases h with ⟨source, before, after, rfl, rfl⟩ | ⟨position, rfl, hopens⟩
  · rw [Nat.zero_add]
    exact Error.placed_misfit (boundary_append before after)
  · exact Error.placed_unterminated hopens

end PipeSql.Query
