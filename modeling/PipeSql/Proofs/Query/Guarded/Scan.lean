import PipeSql.Proofs.Query.Spans

/-! # Scanning by positions

The scan of a text that reads its characters by index and cuts it at byte offsets, where an index
out of range, an offset inside of a character, a difference below zero and a step that does not go
on are no result at all. Main statement: it has the result of the scan. -/

namespace PipeSql.Query

open PipeSql.Text

/-! ## Guarded computations -/

/-- A computation that reads by positions. It comes to a result or to an error, and to nothing
where a position is not one of those that there are. -/
abbrev Guarded (α : Type) := ExceptT Error Option α

namespace Guarded

variable {α β : Type}

/-- What is read at a position, if this is one of those that there are. -/
def within (x? : Option α) : Guarded α :=
  ExceptT.mk (x?.map .ok)

/-- A computation that reads nothing by position. -/
def plain (y : Except Error α) : Guarded α :=
  ExceptT.mk (some y)

section Outcomes

variable {x : Guarded α} {f : α → Guarded β} {x? : Option α} {y : Except Error α} {a : α}
  {e : Error}

theorem run_within_bind (h : x? = some a) : (within x? >>= f).run = (f a).run := by
  subst h
  rfl

theorem run_bind_ok (h : x.run = some (.ok a)) : (x >>= f).run = (f a).run := by
  change (x.run >>= ExceptT.bindCont f) = _
  rw [h]
  rfl

theorem run_bind_error (h : x.run = some (.error e)) : (x >>= f).run = some (.error e) := by
  change (x.run >>= ExceptT.bindCont f) = _
  rw [h]
  rfl

end Outcomes

/-! ## The scan -/

section Scan

variable (text : List Char)

/-- The characters of a text, each with its position; the first has the position `start`. -/
def charsFrom (start : Nat) : List Char → List (Nat × Char)
  | [] => []
  | c :: rest => (start, c) :: charsFrom (start + c.utf8Size) rest

def chars : List (Nat × Char) :=
  charsFrom 0 text

/-- The position of the character with an index; behind the last one, that of the end. -/
def offsetAt (i : Nat) : Nat :=
  ((chars text)[i]?.map Prod.fst).getD (byteSize text)

/-- A difference that is not below zero. -/
def minus? (a b : Nat) : Option Nat :=
  if b ≤ a then some (a - b) else none

/-- The index, from `i` on, at which a run of characters ends. Whether it goes on with a character
is told by this and the next one. -/
def runEnd (goesOn : Char → Option Char → Bool) (i : Nat) : Guarded Nat :=
  if _h : i < (chars text).length then do
    let (_, c) ← within (chars text)[i]?
    if goesOn c ((chars text)[i + 1]?.map Prod.snd) then runEnd goesOn (i + 1) else return i
  else return i
  termination_by (chars text).length - i

/-- Reads a text literal from the index `i` on, where `value` is read already. Its opening quote has
the index `first` and the given position. -/
def literalFrom (first position : Nat) (quote : Char) (value : List Char) (i : Nat) :
    Guarded (List Char × Nat) :=
  if _h : i < (chars text).length then do
    let (_, c) ← within (chars text)[i]?
    if c = '\\' then
      match (chars text)[i + 1]? with
      | none => throw (.unterminated position)
      | some (_, d) => literalFrom first position quote (value ++ [unescaped d]) (i + 2)
    else if c = quote then return (value, ← within (minus? (i + 1) first))
    else literalFrom first position quote (value ++ [c]) (i + 1)
  else throw (.unterminated position)
  termination_by (chars text).length - i

/-- Reads the text literal whose opening quote has the index `first`: its value, and the number of
its characters with both quotes. -/
def literal (first position : Nat) : Guarded (List Char × Nat) := do
  let (_, quote) ← within (chars text)[first]?
  literalFrom text first position quote [] (first + 1)

/-- The error that quotes a text from a position to its end. -/
def unexpectedFrom {α : Type} (position : Nat) : Guarded α := do
  throw (.unexpected (← within (slice? text position (byteSize text))) position)

/-- The name in quotes and brackets whose opening bracket has the index `first`. -/
def bracketed (first : Nat) : Guarded (TokenKind × Nat) := do
  let (position, _) ← within (chars text)[first]?
  match (chars text)[first + 1]? with
  | none => unexpectedFrom text position
  | some (inner, quote) =>
    if isQuote quote then
      let (name, n) ← literal text (first + 1) inner
      if (chars text)[first + 1 + n]?.map Prod.snd = some ']' then
        return (.quotedIdent (String.ofList name), n + 2)
      else unexpectedFrom text position
    else unexpectedFrom text position

/-- The lexeme that starts at the index `i` and the given position with `c`: its kind, and the
number of its characters. -/
def lexeme (i position : Nat) (c : Char) : Guarded (TokenKind × Nat) := do
  let next := (chars text)[i + 1]?.map Prod.snd
  if isQuote c then
    let (value, n) ← literal text i position
    return (.text (String.ofList value), n)
  else if c = '[' then bracketed text i
  else if c.isDigit || (c == '.' && next.any Char.isDigit) then
    let stop ← runEnd text (fun c _ => continuesNumber c) i
    let digits ← within (slice? text position (offsetAt text stop))
    if isNumeral digits then
      return (.number (String.ofList digits), ← within (minus? stop i))
    else throw (.unexpected digits position)
  else if startsName c then
    let stop ← runEnd text (fun c next => continuesName c || (c == '.' && next.any startsName)) i
    let name ← within (slice? text position (offsetAt text stop))
    return (.ident (String.ofList name), ← within (minus? stop i))
  else
    let (kind, n) ← plain (signAt position c next.toList)
    return (kind, n + 1)

/-- The tokens from the index `i` on. -/
def tokensFrom (i : Nat) : Guarded (List Token) :=
  if _h : i < (chars text).length then do
    let (position, c) ← within (chars text)[i]?
    if isBlank c then tokensFrom (i + 1)
    else
      let (kind, n) ← lexeme text i position c
      if _hn : 0 < n then
        let more ← tokensFrom (i + n)
        return ⟨kind, position, offsetAt text (i + n)⟩ :: more
      else within none
  else return []
  termination_by (chars text).length - i

/-- The tokens of a text. -/
def tokens : Guarded (List Token) :=
  tokensFrom text 0

end Scan

/-! ## Characters by index -/

section Chars

variable {text before rest : List Char}

theorem getElem?_charsFrom (start : Nat) (before rest : List Char) :
    (charsFrom start (before ++ rest))[before.length]? =
      rest.head?.map (start + byteSize before, ·) := by
  induction before generalizing start with
  | nil => cases rest <;> simp [charsFrom, byteSize]
  | cons c before ih => simp [charsFrom, ih, byteSize, Nat.add_assoc]

theorem getElem?_chars (h : text = before ++ rest) :
    (chars text)[before.length]? = rest.head?.map (byteSize before, ·) := by
  rw [h, chars, getElem?_charsFrom, Nat.zero_add]

theorem getElem?_chars_succ {c : Char} (h : text = before ++ c :: rest) :
    (chars text)[before.length + 1]? = rest.head?.map (byteSize (before ++ [c]), ·) := by
  have hall : text = (before ++ [c]) ++ rest := by simp [h]
  rw [← getElem?_chars hall, List.length_append, List.length_singleton]

theorem map_snd_getElem?_chars (h : text = before ++ rest) :
    (chars text)[before.length]?.map Prod.snd = rest.head? := by
  rw [getElem?_chars h]
  cases rest <;> rfl

theorem map_snd_getElem?_chars_succ {c : Char} (h : text = before ++ c :: rest) :
    (chars text)[before.length + 1]?.map Prod.snd = rest.head? := by
  rw [getElem?_chars_succ h]
  cases rest <;> rfl

theorem length_charsFrom (start : Nat) (cs : List Char) :
    (charsFrom start cs).length = cs.length := by
  induction cs generalizing start with
  | nil => rfl
  | cons c rest ih => rw [charsFrom, List.length_cons, List.length_cons, ih]

theorem length_chars (text : List Char) : (chars text).length = text.length :=
  length_charsFrom 0 text

theorem offsetAt_length (h : text = before ++ rest) :
    offsetAt text before.length = byteSize before := by
  rw [offsetAt, getElem?_chars h]
  cases rest <;> simp [h]

theorem minus?_add (a b : Nat) : minus? (a + b) a = some b := by
  simp [minus?]

end Chars

/-! ## Runs -/

/-- The number of characters in the run at the front of a text. -/
def runLength (goesOn : Char → Option Char → Bool) : List Char → Nat
  | [] => 0
  | c :: rest => if goesOn c rest.head? then runLength goesOn rest + 1 else 0

theorem runLength_number (cs : List Char) :
    runLength (fun c _ => continuesNumber c) cs = (cs.takeWhile continuesNumber).length := by
  induction cs with
  | nil => rfl
  | cons c rest ih =>
    rw [runLength, List.takeWhile_cons, ih]
    split <;> rfl

theorem runLength_name (cs : List Char) :
    runLength (fun c next => continuesName c || (c == '.' && next.any startsName)) cs =
      nameLength cs := by
  induction cs with
  | nil => rfl
  | cons c rest ih => rw [runLength, nameLength, ih]

section Runs

variable {text before rest : List Char}

theorem run_runEnd (goesOn : Char → Option Char → Bool) (h : text = before ++ rest) :
    (runEnd text goesOn before.length).run =
      some (.ok (before.length + runLength goesOn rest)) := by
  induction rest generalizing before with
  | nil =>
    rw [runEnd, dif_neg (by simp [length_chars, h])]
    rfl
  | cons c rest ih =>
    rw [runEnd, dif_pos (by simp [length_chars, h]), run_within_bind (getElem?_chars h)]
    simp only [map_snd_getElem?_chars_succ h, runLength]
    split
    · have hall : text = (before ++ [c]) ++ rest := by simp [h]
      have hrun := ih hall
      rw [List.length_append, List.length_singleton] at hrun
      rw [hrun]
      congr 2
      omega
    · rfl

end Runs

/-! ## Literals -/

section Literals

variable {text before rest : List Char} {quote c : Char} {first position : Nat} {value : List Char}

theorem run_literalFrom (h : text = before ++ rest) (hfirst : first ≤ before.length) :
    (literalFrom text first position quote value before.length).run =
      some (match quoted? quote rest with
        | none => .error (.unterminated position)
        | some (more, n) => .ok (value ++ more, before.length + n - first)) := by
  induction rest using literal_induction quote generalizing before value with
  | nil =>
    rw [literalFrom, dif_neg (by simp [length_chars, h])]
    rfl
  | lone =>
    rw [literalFrom, dif_pos (by simp [length_chars, h]), run_within_bind (getElem?_chars h)]
    simp only [getElem?_chars_succ h, if_true]
    rfl
  | escaped d rest ih =>
    rw [literalFrom, dif_pos (by simp [length_chars, h]), run_within_bind (getElem?_chars h)]
    simp only [getElem?_chars_succ h, if_true, List.head?_cons, Option.map_some]
    have hall : text = (before ++ ['\\', d]) ++ rest := by simp [h]
    have hlength : (before ++ ['\\', d]).length = before.length + 2 := by simp
    have hrun : (literalFrom text first position quote (value ++ [unescaped d]) _).run = _ :=
      ih hall (by omega)
    rw [hlength] at hrun
    rw [hrun, quoted?]
    cases quoted? quote rest with
    | none => rfl
    | some found =>
      obtain ⟨more, n⟩ := found
      simp
      omega
  | closed hquote rest =>
    rw [literalFrom, dif_pos (by simp [length_chars, h]), run_within_bind (getElem?_chars h)]
    simp only [hquote, if_false, if_true]
    have hminus : minus? (before.length + 1) first = some (before.length + 1 - first) :=
      if_pos (by omega)
    rw [run_within_bind hminus, quoted?_plain hquote, if_pos rfl]
    simp
  | plain c rest hslash hother ih =>
    rw [literalFrom, dif_pos (by simp [length_chars, h]), run_within_bind (getElem?_chars h)]
    simp only [hslash, hother, if_false]
    have hall : text = (before ++ [c]) ++ rest := by simp [h]
    have hlength : (before ++ [c]).length = before.length + 1 := by simp
    have hrun : (literalFrom text first position quote (value ++ [c]) _).run = _ :=
      ih hall (by omega)
    rw [hlength] at hrun
    rw [hrun, quoted?_plain hslash, if_neg hother]
    cases quoted? quote rest with
    | none => rfl
    | some found =>
      obtain ⟨more, n⟩ := found
      simp
      omega

theorem run_literal (h : text = before ++ quote :: rest) :
    (literal text before.length position).run =
      some (match quoted? quote rest with
        | none => .error (.unterminated position)
        | some (value, n) => .ok (value, n + 1)) := by
  rw [literal, run_within_bind (getElem?_chars h)]
  have hall : text = (before ++ [quote]) ++ rest := by simp [h]
  have hlength : (before ++ [quote]).length = before.length + 1 := by simp
  have hrun : (literalFrom text before.length position quote [] _).run = _ :=
    run_literalFrom hall (by omega)
  rw [hlength] at hrun
  rw [hrun]
  cases quoted? quote rest with
  | none => rfl
  | some found =>
    obtain ⟨more, n⟩ := found
    simp
    omega

end Literals

/-! ## Lexemes -/

section Lexemes

variable {text before rest : List Char} {c : Char}

theorem run_unexpectedFrom {α : Type} (h : text = before ++ rest) :
    (unexpectedFrom text (byteSize before) : Guarded α).run =
      some (.error (.unexpected rest (byteSize before))) := by
  have hslice : slice? text (byteSize before) (byteSize text) = some rest := by
    simpa [h] using slice?_append before rest []
  rw [unexpectedFrom, run_within_bind hslice]
  rfl

theorem run_bracketed (h : text = before ++ '[' :: rest) :
    (bracketed text before.length).run =
      some ((Query.bracketed (byteSize before) rest).map fun (kind, n) => (kind, n + 1)) := by
  rw [bracketed, run_within_bind (getElem?_chars h)]
  simp only [getElem?_chars_succ h]
  cases rest with
  | nil => exact run_unexpectedFrom h
  | cons quote more =>
    simp only [List.head?_cons, Option.map_some, Query.bracketed]
    split
    case isFalse => exact run_unexpectedFrom h
    have hall : text = (before ++ ['[']) ++ quote :: more := by simp [h]
    have hlength : (before ++ ['[']).length = before.length + 1 := by simp
    have hliteral : (literal text _ (byteSize (before ++ ['[']))).run = _ := run_literal hall
    rw [hlength] at hliteral
    cases hquoted : quoted? quote more with
    | none =>
      rw [hquoted] at hliteral
      rw [run_bind_error hliteral, byteSize_append]
      rfl
    | some found =>
      obtain ⟨name, n⟩ := found
      rw [hquoted] at hliteral
      rw [run_bind_ok hliteral]
      have hle := quoted?_le hquoted
      have hbehind : text = (before ++ '[' :: quote :: more.take n) ++ more.drop n := by simp [h]
      have hclose := map_snd_getElem?_chars hbehind
      have hlength : (before ++ '[' :: quote :: more.take n).length =
          before.length + 1 + (n + 1) := by
        simp only [List.length_append, List.length_cons, List.length_take]
        omega
      rw [hlength] at hclose
      simp only [hclose]
      split
      · rfl
      · exact run_unexpectedFrom h

theorem continuesNumber_of_startsNumber {next : Option Char}
    (h : c.isDigit || (c == '.' && next.any Char.isDigit)) : continuesNumber c := by
  simp only [Bool.or_eq_true, Bool.and_eq_true, beq_iff_eq] at h
  rcases h with h | ⟨rfl, -⟩
  · simp [continuesNumber, Char.isAlphanum, h]
  · decide

/-- The source of a run of characters. -/
theorem slice?_run {n : Nat} (h : text = before ++ rest) (hn : n ≤ rest.length) :
    slice? text (byteSize before) (offsetAt text (before.length + n)) = some (rest.take n) := by
  have hall : text = (before ++ rest.take n) ++ rest.drop n := by simp [h]
  have hlength : (before ++ rest.take n).length = before.length + n := by
    rw [List.length_append, List.length_take, Nat.min_eq_left hn]
  rw [← hlength, offsetAt_length hall, hall, List.append_assoc]
  exact slice?_append before (rest.take n) (rest.drop n)

theorem run_lexeme (h : text = before ++ c :: rest) :
    (lexeme text before.length (byteSize before) c).run =
      some ((Query.lexeme (byteSize before) c rest).map fun (kind, n) => (kind, n + 1)) := by
  rw [lexeme, Query.lexeme]
  simp only [map_snd_getElem?_chars_succ h]
  split
  · have hliteral : (literal text before.length (byteSize before)).run = _ := run_literal h
    cases hquoted : quoted? c rest with
    | none =>
      rw [hquoted] at hliteral
      rw [run_bind_error hliteral]
      rfl
    | some found =>
      rw [hquoted] at hliteral
      rw [run_bind_ok hliteral]
      rfl
  split
  · rename_i hbracket
    subst hbracket
    exact run_bracketed h
  split
  · rename_i hdigit
    have hc : continuesNumber c := continuesNumber_of_startsNumber hdigit
    have hrun := run_runEnd (fun c _ => continuesNumber c) h
    rw [runLength_number, List.takeWhile_cons, if_pos hc] at hrun
    have hsource : (c :: rest).take (c :: rest.takeWhile continuesNumber).length =
        c :: rest.takeWhile continuesNumber := by
      rw [List.length_cons, List.take_succ_cons,
        ← List.prefix_iff_eq_take.mp (List.takeWhile_prefix continuesNumber)]
    have hslice := slice?_run h (n := (c :: rest.takeWhile continuesNumber).length)
      (by simpa using (List.takeWhile_prefix continuesNumber).length_le)
    rw [run_bind_ok hrun, run_within_bind hslice, hsource]
    split
    · rw [run_within_bind (minus?_add _ _)]
      rfl
    · rfl
  split
  · rename_i hname
    have hc := continuesName_of_startsName hname
    have hrun := run_runEnd
      (fun c next => continuesName c || (c == '.' && next.any startsName)) h
    rw [runLength_name, nameLength, hc, Bool.true_or, if_pos rfl] at hrun
    have hslice := slice?_run h (n := nameLength rest + 1)
      (by simpa using nameLength_le rest)
    rw [run_bind_ok hrun, run_within_bind hslice, List.take_succ_cons,
      run_within_bind (minus?_add _ _)]
    rfl
  · have hsign :
        signAt (byteSize before) c rest.head?.toList = signAt (byteSize before) c rest := by
      cases rest <;> rfl
    rw [hsign]
    cases signAt (byteSize before) c rest <;> rfl

end Lexemes

/-! ## Tokens -/

theorem run_tokensFrom {text before rest : List Char} (h : text = before ++ rest) :
    (tokensFrom text before.length).run = some (Query.tokensFrom (byteSize before) rest) := by
  generalize hstart : byteSize before = start
  induction start, rest using scan_induction generalizing before with
  | nil start =>
    rw [tokensFrom, dif_neg (by simp [length_chars, h]), tokensFrom_nil]
    rfl
  | blank start c rest hc ih =>
    rw [tokensFrom, dif_pos (by simp [length_chars, h]), run_within_bind (getElem?_chars h)]
    have hall : text = (before ++ [c]) ++ rest := by simp [h]
    have hrest := ih hall (by simp [byteSize, hstart])
    rw [List.length_append, List.length_singleton] at hrest
    simp only [hc, if_true]
    rw [hrest, tokensFrom_blank hc]
  | stuck start c rest e hc hstuck =>
    subst hstart
    rw [tokensFrom, dif_pos (by simp [length_chars, h]), run_within_bind (getElem?_chars h)]
    have hlexeme := run_lexeme h
    rw [hstuck] at hlexeme
    simp only [hc, Bool.false_eq_true, if_false]
    rw [run_bind_error hlexeme, tokensFrom_stuck hc hstuck]
  | lexeme start c rest kind n hc hfound ih =>
    subst hstart
    rw [tokensFrom, dif_pos (by simp [length_chars, h]), run_within_bind (getElem?_chars h)]
    have hlexeme := run_lexeme h
    rw [hfound] at hlexeme
    simp only [hc, Bool.false_eq_true, if_false]
    rw [run_bind_ok hlexeme, dif_pos (Nat.succ_pos n)]
    have hlength : (before ++ c :: rest.take n).length = before.length + (n + 1) := by
      have hle := lexeme_le hfound
      simp only [List.length_append, List.length_cons, List.length_take]
      omega
    have hall : text = (before ++ c :: rest.take n) ++ rest.drop n := by simp [h]
    have hrest := ih hall (byteSize_append _ _)
    have hstop := offsetAt_length hall
    rw [hlength] at hrest hstop
    rw [tokensFrom_lexeme hc hfound, ← byteSize_append, hstop]
    cases hmore : Query.tokensFrom (byteSize (before ++ c :: rest.take n)) (rest.drop n) with
    | error e =>
      rw [byteSize_append] at hmore
      rw [hmore] at hrest
      rw [run_bind_error hrest]
      rfl
    | ok more =>
      rw [byteSize_append] at hmore
      rw [hmore] at hrest
      rw [run_bind_ok hrest]
      rfl

/-- All that the scan reads by position is there, so that it has the tokens of the text. -/
theorem run_tokens (text : List Char) : (tokens text).run = some (Query.tokens text) :=
  run_tokensFrom (List.nil_append text).symm

end Guarded

end PipeSql.Query
