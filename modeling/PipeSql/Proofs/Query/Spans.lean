import PipeSql.Proofs.Query.Scan
import PipeSql.Proofs.Text.Boundary

/-! # Where tokens stand

The tokens of a text stand in it one behind the other, and all that is left around them is blank. -/

namespace PipeSql.Query

open PipeSql.Text

/-! ## Layout -/

/-- The text `rest`, which stands behind `before`, consists of blanks and of texts that the tokens
stand for; their offsets count from the start of `before`. -/
inductive Laid : List Char → List Char → List Token → Prop where
  | nil (before) : Laid before [] []
  | blank {before rest ts c} : isBlank c → Laid (before ++ [c]) rest ts →
      Laid before (c :: rest) ts
  | token {before source rest ts} (kind) : source ≠ [] → Laid (before ++ source) rest ts →
      Laid before (source ++ rest) (⟨kind, byteSize before, byteSize (before ++ source)⟩ :: ts)

theorem laid_of_tokensFrom {before rest : List Char} {ts : List Token}
    (h : tokensFrom (byteSize before) rest = .ok ts) : Laid before rest ts := by
  generalize hstart : byteSize before = start at h
  induction start, rest using scan_induction generalizing before ts with
  | nil start =>
    rw [tokensFrom_nil] at h
    cases h
    exact .nil before
  | blank start c rest hc ih =>
    rw [tokensFrom_blank hc] at h
    exact .blank hc (ih (by simp [byteSize, hstart]) h)
  | stuck start c rest e hc hstuck =>
    rw [tokensFrom_stuck hc hstuck] at h
    cases h
  | lexeme start c rest kind n hc hlexeme ih =>
    rw [tokensFrom_lexeme hc hlexeme] at h
    subst hstart
    obtain ⟨more, hmore, rfl⟩ := map_eq_ok_iff.mp h
    have hlaid := ih (byteSize_append before (c :: rest.take n)) hmore
    simpa using Laid.token kind (List.cons_ne_nil c (rest.take n)) hlaid

theorem byteSize_pos {cs : List Char} (h : cs ≠ []) : 0 < byteSize cs := by
  obtain ⟨c, rest, rfl⟩ := List.exists_cons_of_ne_nil h
  exact Nat.lt_of_lt_of_le c.utf8Size_pos (Nat.le_add_right _ _)

/-- The tokens have sources in the text that are not empty, each behind the ones before it. -/
structure Spans (text : List Char) (ts : List Token) : Prop where
  nonempty : ∀ token ∈ ts, token.start < token.stop
  inside : ∀ token ∈ ts, token.stop ≤ byteSize text
  start : ∀ token ∈ ts, Boundary text token.start
  stop : ∀ token ∈ ts, Boundary text token.stop
  ordered : ts.Pairwise fun token later => token.stop ≤ later.start

/-- The source of the token goes over the offset. -/
def Token.Covers (token : Token) (offset : Nat) : Prop :=
  token.start ≤ offset ∧ offset < token.stop

/-- The tokens stand in the text, and whatever of it belongs to none of them is blank. -/
structure Covering (text : List Char) (ts : List Token) : Prop extends Spans text ts where
  blank : ∀ before c after, text = before ++ c :: after →
    (∀ token ∈ ts, ¬token.Covers (byteSize before)) → isBlank c

namespace Laid

variable {before rest : List Char} {ts : List Token}

theorem le_start (h : Laid before rest ts) : ∀ token ∈ ts, byteSize before ≤ token.start := by
  induction h with
  | nil before => simp
  | blank hc _ ih =>
    intro token htoken
    exact Nat.le_trans (by simp) (ih token htoken)
  | token kind hne _ ih =>
    intro token htoken
    rcases List.mem_cons.mp htoken with rfl | htoken
    · exact Nat.le_refl _
    · exact Nat.le_trans (by simp) (ih token htoken)

theorem spans (h : Laid before rest ts) : Spans (before ++ rest) ts := by
  induction h with
  | nil before => exact ⟨by simp, by simp, by simp, by simp, .nil⟩
  | blank hc _ ih => simpa using ih
  | @token before source rest ts kind hne hrest ih =>
    rw [List.append_assoc] at ih
    have hstart := boundary_append before (source ++ rest)
    have hstop := boundary_append (before ++ source) rest
    rw [List.append_assoc] at hstop
    have hpos := byteSize_pos hne
    exact
      { nonempty := List.forall_mem_cons.mpr ⟨by simpa using hpos, ih.nonempty⟩
        inside := List.forall_mem_cons.mpr ⟨hstop.le, ih.inside⟩
        start := List.forall_mem_cons.mpr ⟨hstart, ih.start⟩
        stop := List.forall_mem_cons.mpr ⟨hstop, ih.stop⟩
        ordered := List.pairwise_cons.mpr ⟨hrest.le_start, ih.ordered⟩ }

theorem isBlank_of_not_covers (h : Laid before rest ts) {front after : List Char} {c : Char}
    (hrest : rest = front ++ c :: after)
    (hnone : ∀ token ∈ ts, ¬token.Covers (byteSize (before ++ front))) : isBlank c := by
  induction h generalizing front with
  | nil before => simp at hrest
  | @blank before rest ts d hd _ ih =>
    rcases List.cons_eq_append_iff.mp hrest with ⟨rfl, hsplit⟩ | ⟨front, rfl, hsplit⟩
    · obtain ⟨rfl, -⟩ := List.cons.inj hsplit
      exact hd
    · exact ih hsplit (by simpa using hnone)
  | @token before source rest ts kind hne _ ih =>
    have hbehind : ∀ token ∈ ts, ¬token.Covers (byteSize (before ++ front)) :=
      fun token htoken => hnone token (List.mem_cons_of_mem _ htoken)
    rcases List.append_eq_append_iff.mp hrest with ⟨gap, rfl, hsplit⟩ | ⟨gap, rfl, hsplit⟩
    · exact ih hsplit (by simpa using hbehind)
    · cases gap with
      | nil =>
        have hfront : rest = [] ++ c :: after := hsplit.symm
        exact ih hfront (by simpa using hbehind)
      | cons d gap =>
        -- the character stands in the source of the first token
        obtain ⟨rfl, -⟩ := List.cons.inj hsplit
        refine absurd ⟨?_, ?_⟩ (hnone _ List.mem_cons_self)
        · simp
        · simpa using byteSize_pos (List.cons_ne_nil c gap)

end Laid

/-- The tokens of a text cover it up to blanks. -/
theorem covering_of_tokens {text : List Char} {ts : List Token} (h : tokens text = .ok ts) :
    Covering text ts := by
  have hlaid : Laid [] text ts := laid_of_tokensFrom h
  exact ⟨hlaid.spans, fun _ _ _ hsplit hnone => hlaid.isBlank_of_not_covers hsplit hnone⟩

namespace Spans

variable {text : List Char} {ts part : List Token}

theorem sublist (h : Spans text ts) (hpart : part.Sublist ts) : Spans text part where
  nonempty token htoken := h.nonempty token (hpart.subset htoken)
  inside token htoken := h.inside token (hpart.subset htoken)
  start token htoken := h.start token (hpart.subset htoken)
  stop token htoken := h.stop token (hpart.subset htoken)
  ordered := h.ordered.sublist hpart

/-- The first token starts at a boundary, and so does the text, where there is no token. -/
theorem boundary_head (h : Spans text ts) :
    Boundary text ((ts.head?.map Token.start).getD 0) := by
  cases ts with
  | nil => exact boundary_zero text
  | cons first rest => exact h.start first List.mem_cons_self

theorem head_le_getLast {first last : Token} (h : Spans text ts) (hfirst : ts.head? = some first)
    (hlast : ts.getLast? = some last) : first.start ≤ last.stop := by
  obtain ⟨rest, rfl⟩ := List.head?_eq_some_iff.mp hfirst
  have hmem := List.mem_of_getLast? hlast
  rcases List.mem_cons.mp hmem with rfl | hrest
  · exact Nat.le_of_lt (h.nonempty _ hmem)
  · have hordered := (List.pairwise_cons.mp h.ordered).1 last hrest
    have hfirst := h.nonempty first List.mem_cons_self
    have hlast := h.nonempty last hmem
    omega

end Spans

/-! ## The source text of a part -/

section Source

variable {before text : List Char} {ts : List Token}

theorem Laid.exists_first (h : Laid before text ts) (hne : text ≠ [])
    (hblank : ∀ c ∈ text.head?, isBlank c = false) :
    ∃ first, ts.head? = some first ∧ first.start = byteSize before := by
  cases h with
  | nil => exact absurd rfl hne
  | blank hc _ => simp [hc] at hblank
  | token kind _ _ => exact ⟨_, rfl, rfl⟩

theorem Laid.eq_nil (h : Laid before [] ts) : ts = [] := by
  generalize htext : ([] : List Char) = text at h
  cases h with
  | nil => rfl
  | blank => cases htext
  | token kind hne => simp [hne] at htext

theorem Laid.exists_last (h : Laid before text ts) (hne : text ≠ [])
    (hblank : ∀ c ∈ text.getLast?, isBlank c = false) :
    ∃ last, ts.getLast? = some last ∧ last.stop = byteSize (before ++ text) := by
  induction h with
  | nil => exact absurd rfl hne
  | @blank before rest ts c hc _ ih =>
    cases rest with
    | nil => simp [hc] at hblank
    | cons d rest =>
      obtain ⟨last, hlast, hstop⟩ := ih (List.cons_ne_nil d rest) (by simpa using hblank)
      exact ⟨last, hlast, by rw [hstop, List.append_assoc, List.singleton_append]⟩
  | @token before source rest ts kind _ hrest ih =>
    cases rest with
    | nil =>
      obtain rfl := hrest.eq_nil
      exact ⟨_, rfl, by simp⟩
    | cons d rest =>
      have hne : d :: rest ≠ [] := List.cons_ne_nil d rest
      obtain ⟨last, hlast, hstop⟩ := ih hne fun c hc =>
        hblank c (by rwa [List.getLast?_append_of_ne_nil source hne])
      refine ⟨last, ?_, by rw [hstop, List.append_assoc]⟩
      rw [List.getLast?_cons, hlast]
      rfl

/-- The tokens of a text without blanks at its ends stand from its start to its end. -/
theorem sourceOf_append (h : tokensFrom (byteSize before) text = .ok ts) (hne : text ≠ [])
    (hhead : ∀ c ∈ text.head?, isBlank c = false) (hend : ∀ c ∈ text.getLast?, isBlank c = false)
    (behind : List Char) : sourceOf (before ++ (text ++ behind)) ts = text := by
  have hlaid := laid_of_tokensFrom h
  obtain ⟨first, hfirst, hstart⟩ := hlaid.exists_first hne hhead
  obtain ⟨last, hlast, hstop⟩ := hlaid.exists_last hne hend
  rw [sourceOf, hfirst, hlast]
  simp only [hstart, hstop, byteSize_append]
  exact slice_append before text behind

end Source

end PipeSql.Query
