import PipeSql.Proofs.Sql.Lexical
import PipeSql.Text.Blank
import Mathlib.Data.List.Forall2

/-! # Texts that are woven from bare characters and quoted contents

Two texts are woven alike when they differ only in what stands between their quotes. Such texts
give tokens that differ only there. -/

namespace PipeSql.Sql

open Text
open Query (isQuote)

/-! ## Contents in place of one another -/

/-- Which quoted names and which texts may stand in the place of one another. -/
structure Exchange where
  names : String → String → Prop
  texts : String → String → Prop

/-- Two tokens are the same, or hold contents that stand in the place of one another. -/
inductive TokenKind.Alike (x : Exchange) : TokenKind → TokenKind → Prop where
  | same (kind) : Alike x kind kind
  | name {a b} : x.names a b → Alike x (.name a) (.name b)
  | text {a b} : x.texts a b → Alike x (.text a) (.text b)

/-- A piece of written SQL: a character that stands for itself, or a quoted name or text. -/
inductive Glyph where
  | bare (c : Char)
  | name (content : String)
  | text (content : String)

namespace Glyph

/-- The characters of a piece. -/
def written : Glyph → List Char
  | .bare c => [c]
  | .name content => (quoteName content).toList
  | .text content => (quoteText content).toList

/-- The token of a piece on its own. -/
def kind : Glyph → TokenKind
  | .bare c => .mark c
  | .name content => .name content
  | .text content => .text content

/-- The character of a bare piece. -/
def outline : Glyph → Option Char
  | .bare c => some c
  | _ => none

/-- Two pieces are the same but for their contents. -/
def Alike (x : Exchange) (g h : Glyph) : Prop :=
  TokenKind.Alike x g.kind h.kind

theorem Alike.refl {x : Exchange} (g : Glyph) : Alike x g g :=
  .same g.kind

theorem Alike.outline_eq {x : Exchange} {g h : Glyph} (halike : Alike x g h) :
    g.outline = h.outline := by
  cases g <;> cases h <;> first | rfl | cases halike <;> rfl

end Glyph

/-- The characters of pieces. -/
def written (gs : List Glyph) : List Char :=
  gs.flatMap Glyph.written

/-- Whether two pieces may stand side by side. -/
def meets : Option Char → Option Char → Bool
  | some a, some b => !opensComment a b
  | some a, none => frontsQuote a
  | none, b => b.isSome

/-- Pieces that give the same tokens side by side as one by one. -/
structure Even (outline : List (Option Char)) : Prop where
  bare : ∀ c, some c ∈ outline → isBare c
  chain : outline.IsChain fun a b => meets a b

variable {x : Exchange} {gs hs : List Glyph}

theorem outline_eq_of_alike (h : List.Forall₂ (Glyph.Alike x) gs hs) :
    gs.map Glyph.outline = hs.map Glyph.outline := by
  induction h with
  | nil => rfl
  | cons hglyph _ ih => rw [List.map_cons, List.map_cons, hglyph.outline_eq, ih]

/-! ## Tokens of pieces -/

/-- The tokens of pieces behind a run. -/
def kindsBehind (run : List Char) : List Glyph → List TokenKind
  | [] => kinds run
  | g :: gs =>
    match g.outline with
    | some c => kindsBehind (run ++ [c]) gs
    | none => kinds run ++ g.kind :: kindsBehind [] gs

theorem Glyph.eq_bare {g : Glyph} {c : Char} (h : g.outline = some c) : g = .bare c := by
  cases g <;> cases h
  rfl

/-- A quoted piece is one token, unless its quote follows. -/
theorem Glyph.kinds_quoted {g : Glyph} (h : g.outline = none) :
    ∃ q, isQuote q ∧ (∃ more, g.written = q :: more) ∧
      ∀ rest, rest.head? ≠ some q → kinds (g.written ++ rest) = g.kind :: kinds rest := by
  cases g with
  | bare c => cases h
  | name content =>
    refine ⟨'"', rfl, ?_, fun rest hrest => kinds_quoteName content hrest⟩
    simp [written, quoteName, enclosed]
  | text content =>
    refine ⟨'\'', rfl, ?_, fun rest hrest => kinds_quoteText content hrest⟩
    simp [written, quoteText, enclosed]

theorem Even.suffix {outline behind : List (Option Char)} (h : Even outline)
    (hsuffix : behind <:+ outline) : Even behind where
  bare c hc := h.bare c (hsuffix.subset hc)
  chain := h.chain.suffix hsuffix

theorem Even.run {q : Char} {run : List Char} {outline : List (Option Char)}
    (h : Even (run.map some ++ none :: outline)) : Run q run where
  bare c hc := h.bare c (List.mem_append_left _ (List.mem_map_of_mem hc))
  chain := by
    have hchain := (List.isChain_map some).mp h.chain.left_of_append
    exact hchain.imp fun a b hmeets => by simpa [meets] using hmeets
  fronts _ c hc := by
    have hjoint := (List.isChain_append.mp h.chain).2.2 (some c) (by simpa using hc) none rfl
    simpa [meets] using hjoint

/-- No quote stands behind a quoted piece. -/
theorem Even.head?_ne {gs : List Glyph} (h : Even (none :: gs.map Glyph.outline)) {q : Char}
    (hq : isQuote q) : (written gs).head? ≠ some q := by
  cases gs with
  | nil => simp [written]
  | cons g gs =>
    have hmeets := (List.isChain_cons_cons.mp h.chain).1
    obtain ⟨c, hc⟩ := Option.isSome_iff_exists.mp hmeets
    have hbare := isQuote_of_isBare (h.bare c (by simp [hc]))
    have hne : c ≠ q := by
      rintro rfl
      simp [hq] at hbare
    simpa [written, Glyph.eq_bare hc, Glyph.written] using hne

/-- The tokens of pieces are those of the runs between the quotes, and one for each quoted piece. -/
theorem kinds_append_written {run : List Char} (h : Even (run.map some ++ gs.map Glyph.outline)) :
    kinds (run ++ written gs) = kindsBehind run gs := by
  induction gs generalizing run with
  | nil => simp [written, kindsBehind]
  | cons g gs ih =>
    have hwritten : written (g :: gs) = g.written ++ written gs := List.flatMap_cons
    rw [kindsBehind]
    cases hg : g.outline with
    | some c =>
      have hrun : Even ((run ++ [c]).map some ++ gs.map Glyph.outline) := by
        simpa [hg] using h
      have hall := ih hrun
      rw [hwritten, Glyph.eq_bare hg, Glyph.written, ← List.append_assoc, hall]
    | none =>
      rw [List.map_cons, hg] at h
      have hquoted : Even (none :: gs.map Glyph.outline) := h.suffix (List.suffix_append _ _)
      have htail : kinds ([] ++ written gs) = kindsBehind [] gs :=
        ih (hquoted.suffix (List.suffix_cons _ _))
      obtain ⟨q, hq, ⟨more, hmore⟩, hkinds⟩ := Glyph.kinds_quoted hg
      have hfirst : kinds (run ++ (g.written ++ written gs)) =
          kinds run ++ kinds (g.written ++ written gs) := by
        rw [hmore, List.cons_append]
        exact kinds_append (separates_of_isQuote hq) _ h.run
      rw [hwritten, hfirst, hkinds _ (hquoted.head?_ne hq)]
      simp only
      rw [← htail, List.nil_append]

/-- The tokens of pieces from the start of a text. -/
theorem kinds_written (heven : Even (gs.map Glyph.outline)) :
    kinds (written gs) = kindsBehind [] gs :=
  @kinds_append_written gs [] heven

theorem kindsBehind_alike (run : List Char) (h : List.Forall₂ (Glyph.Alike x) gs hs) :
    List.Forall₂ (TokenKind.Alike x) (kindsBehind run gs) (kindsBehind run hs) := by
  induction h generalizing run with
  | nil => exact List.forall₂_same.mpr fun kind _ => .same kind
  | @cons g h gs hs hglyph _ ih =>
    rw [kindsBehind, kindsBehind, ← hglyph.outline_eq]
    cases g.outline with
    | some c => exact ih (run ++ [c])
    | none =>
      exact List.rel_append (List.forall₂_same.mpr fun kind _ => .same kind)
        (.cons hglyph (ih []))

/-- Each quoted piece is a token among the others. -/
theorem mem_kindsBehind (run : List Char) {g : Glyph} (hg : g ∈ gs) (hquoted : g.outline = none) :
    g.kind ∈ kindsBehind run gs := by
  induction gs generalizing run with
  | nil => cases hg
  | cons first gs ih =>
    rw [kindsBehind]
    rcases List.mem_cons.mp hg with rfl | hg
    · rw [hquoted]
      simp
    · cases first.outline with
      | some c => exact ih (run ++ [c]) hg
      | none => exact List.mem_append_right _ (List.mem_cons_of_mem _ (ih [] hg))

theorem mem_kinds_written (heven : Even (gs.map Glyph.outline)) {g : Glyph} (hg : g ∈ gs)
    (hquoted : g.outline = none) : g.kind ∈ kinds (written gs) := by
  rw [kinds_written heven]
  exact mem_kindsBehind [] hg hquoted

/-- Pieces that are alike one by one give tokens that are alike one by one. -/
theorem kinds_alike (heven : Even (gs.map Glyph.outline))
    (h : List.Forall₂ (Glyph.Alike x) gs hs) :
    List.Forall₂ (TokenKind.Alike x) (kinds (written gs)) (kinds (written hs)) := by
  rw [kinds_written heven, kinds_written (outline_eq_of_alike h ▸ heven)]
  exact kindsBehind_alike [] h

/-! ## Woven texts -/

/-- A piece in front of which and behind which nothing is asked for. -/
def opens : Option Char → Bool
  | some c => frontsQuote c
  | none => false

/-- A piece that is no blank. -/
def closes : Option Char → Bool
  | some c => !Text.isBlank c
  | none => true

/-- Two texts are written in pieces that are alike. -/
structure Weaves (x : Exchange) (gs hs : List Glyph) (s t : String) : Prop where
  alike : List.Forall₂ (Glyph.Alike x) gs hs
  even : Even (gs.map Glyph.outline)
  left : s.toList = written gs
  right : t.toList = written hs

/-- Two texts are written in pieces that are alike, the last of which ends them as asked for. -/
def Woven (x : Exchange) (ends : Option Char → Bool) (s t : String) : Prop :=
  ∃ gs hs, Weaves x gs hs s t ∧ ∃ last ∈ (gs.map Glyph.outline).getLast?, ends last

/-- A constant that may stand behind every piece, and that ends as asked for. -/
def Trails (ends : Option Char → Bool) (s : String) : Prop :=
  Unquoted s.toList ∧ (∃ c ∈ s.toList.head?, c ∉ ['-', '/', '*']) ∧
    ∃ c ∈ s.toList.getLast?, ends (some c)

instance (ends : Option Char → Bool) (s : String) : Decidable (Trails ends s) :=
  inferInstanceAs (Decidable (_ ∧ _ ∧ _))

theorem meets_of_opens {a : Option Char} (b : Option Char) (h : opens a) : meets a b := by
  cases a with
  | none => cases h
  | some c =>
    cases b with
    | none => exact h
    | some d =>
      simp only [opens, frontsQuote, Bool.or_eq_true, beq_iff_eq] at h
      rcases h with (rfl | rfl) | rfl <;> simp [meets, opensComment]

theorem meets_of_trails {c : Char} (a : Option Char) (h : c ∉ ['-', '/', '*']) :
    meets a (some c) := by
  cases a with
  | none => rfl
  | some b =>
    simp only [List.mem_cons, List.not_mem_nil, or_false, not_or] at h
    simp [meets, opensComment, h]

theorem Unquoted.even {cs : List Char} (h : Unquoted cs) : Even (cs.map some) where
  bare c hc := h.bare c (by simpa using hc)
  chain := (List.isChain_map some).mpr (h.chain.imp fun a b hpair => by simp [meets, hpair])

theorem written_append (gs hs : List Glyph) : written (gs ++ hs) = written gs ++ written hs :=
  List.flatMap_append

theorem written_bare (cs : List Char) : written (cs.map .bare) = cs := by
  induction cs with
  | nil => rfl
  | cons c cs ih =>
    change c :: written (cs.map .bare) = c :: cs
    rw [ih]

theorem outline_bare (cs : List Char) : (cs.map Glyph.bare).map Glyph.outline = cs.map some := by
  rw [List.map_map]
  rfl

theorem Weaves.append {gs' hs' : List Glyph} {s s' t t' : String} (h : Weaves x gs hs s s')
    (h' : Weaves x gs' hs' t t') (hmeets : ∀ a ∈ (gs.map Glyph.outline).getLast?,
      ∀ b ∈ (gs'.map Glyph.outline).head?, meets a b) :
    Weaves x (gs ++ gs') (hs ++ hs') (s ++ t) (s' ++ t') where
  alike := List.rel_append h.alike h'.alike
  even := by
    rw [List.map_append]
    refine ⟨fun c hc => ?_, List.isChain_append.mpr ⟨h.even.chain, h'.even.chain, hmeets⟩⟩
    exact (List.mem_append.mp hc).elim (h.even.bare c) (h'.even.bare c)
  left := by rw [String.toList_append, h.left, h'.left, written_append]
  right := by rw [String.toList_append, h.right, h'.right, written_append]

theorem weaves_const {s : String} (h : Unquoted s.toList) :
    Weaves x (s.toList.map .bare) (s.toList.map .bare) s s where
  alike := List.forall₂_same.mpr fun g _ => .refl g
  even := by
    rw [outline_bare]
    exact h.even
  left := (written_bare _).symm
  right := (written_bare _).symm

namespace Woven

variable {ends ends' : Option Char → Bool} {s s' t t' : String}

theorem tokens (h : Woven x ends s t) :
    List.Forall₂ (TokenKind.Alike x) (kinds s.toList) (kinds t.toList) := by
  obtain ⟨gs, hs, hweaves, -⟩ := h
  rw [hweaves.left, hweaves.right]
  exact kinds_alike hweaves.even hweaves.alike

/-- A constant outside quotes. -/
theorem const (s : String) (h : Unquoted s.toList)
    (hlast : ∃ c ∈ s.toList.getLast?, ends (some c)) : Woven x ends s s := by
  obtain ⟨c, hc, hends⟩ := hlast
  refine ⟨_, _, weaves_const h, some c, ?_, hends⟩
  rw [outline_bare, List.getLast?_map, hc]
  rfl

/-- A text that is one quoted piece. -/
theorem glyph {g h : Glyph} (halike : g.Alike x h) (hg : g.outline = none) (hends : ends none)
    (hs : s.toList = g.written) (ht : t.toList = h.written) : Woven x ends s t := by
  refine ⟨[g], [h], ⟨.cons halike .nil, ⟨?_, ?_⟩, ?_, ?_⟩, none, by simp [hg], hends⟩
  · simp [hg]
  · exact List.isChain_singleton _
  · simp [written, hs]
  · simp [written, ht]

/-- Every piece may stand behind an opening one. -/
theorem append (h : Woven x opens s s') (h' : Woven x ends t t') :
    Woven x ends (s ++ t) (s' ++ t') := by
  obtain ⟨gs, hs, hweaves, last, hlast, hopens⟩ := h
  obtain ⟨gs', hs', hweaves', last', hlast', hends⟩ := h'
  refine ⟨_, _, hweaves.append hweaves' fun a ha b _ => ?_, last', ?_, hends⟩
  · obtain rfl : last = a := Option.some_inj.mp (hlast.symm.trans ha)
    exact meets_of_opens b hopens
  · rw [List.map_append, List.getLast?_append, hlast']
    rfl

/-- A constant that trails may stand behind every piece. -/
theorem trail (h : Woven x ends' s s') {t : String} (ht : Trails ends t) :
    Woven x ends (s ++ t) (s' ++ t) := by
  obtain ⟨gs, hs, hweaves, -⟩ := h
  obtain ⟨hplain, ⟨c, hhead, hc⟩, d, hlast, hends⟩ := ht
  refine ⟨_, _, hweaves.append (weaves_const hplain) fun a _ b hb => ?_, some d, ?_, hends⟩
  · rw [outline_bare, List.head?_map, hhead] at hb
    obtain rfl : some c = b := Option.some_inj.mp hb
    exact meets_of_trails a hc
  · rw [List.map_append, List.getLast?_append, outline_bare, List.getLast?_map, hlast]
    rfl

/-- Texts with a separator between them. -/
theorem intercalate {separator : String} (hseparator : Trails opens separator)
    {ss ts : List String} (h : List.Forall₂ (Woven x ends) ss ts) (hne : ss ≠ []) :
    Woven x ends (separator.intercalate ss) (separator.intercalate ts) := by
  induction h with
  | nil => exact absurd rfl hne
  | cons hfirst hrest ih =>
    cases hrest with
    | nil => simpa using hfirst
    | cons hsecond hrest =>
      rw [String.intercalate_cons_cons, String.intercalate_cons_cons]
      exact (hfirst.trail hseparator).append (ih (by simp))

end Woven

end PipeSql.Sql
