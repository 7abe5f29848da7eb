import PipeSql.Proofs.Sql.Pieces
import PipeSql.Proofs.Sql.Precedence
import PipeSql.Sql.Expr

/-! # Texts and the trees that they denote

Pieces of SQL whose tokens are read as a tree, put together as the templates of SQL put them
together. -/

namespace PipeSql.Sql

open Query (Ends Anything Spells isBreak)

/-- The text of an operator, with the blanks around it. -/
def SqlOperator.text : SqlOperator → String
  | .shared op => " " ++ symbol op ++ " "
  | .is => " IS "
  | .isNot => " IS NOT "
  | .escape => " ESCAPE "
  | .concat => " || "

/-- A text whose tokens are read as the tree wherever a break follows. -/
def Denotes (opening closing : Nat) (s : String) (tree : Tree) : Prop :=
  ∃ ks, Lexes Ends s.toList ks ∧ Reads opening closing ks tree

/-- A text whose tokens are read as arguments up to a closing parenthesis. -/
def DenotesAll (s : String) (trees : List Tree) : Prop :=
  ∃ ks, Lexes Ends s.toList ks ∧ ReadsAll ks trees

/-! ## Constant pieces -/

theorem lexes_constant {s : String} {ks : List TokenKind}
    (h : Unquoted s.toList ∧ kinds s.toList = ks) : Lexes Ends s.toList ks :=
  h.2 ▸ lexes_run h.1

theorem lexes_start {s : String} {ks : List TokenKind}
    (h : Unquoted s.toList ∧ (s.toList.getLast? = some ' ' ∨ s.toList.getLast? = some '(') ∧
      kinds s.toList = ks) : Lexes Anything s.toList ks :=
  h.2.2 ▸ lexes_front h.1 h.2.1

/-- What templates write in front of an operand, and its tokens. -/
def frontPieces : List (String × List TokenKind) :=
  [("NOT ", [.word "NOT"]), ("DISTINCT ", [.word "DISTINCT"]),
    ("CAST(", [.word "CAST", .mark '(']), ("CASE WHEN ", [.word "CASE", .word "WHEN"])]

/-- What templates write between two operands, and its tokens. -/
def middlePieces : List (String × List TokenKind) :=
  [(" AS ", [.word "AS"]), (" THEN ", [.word "THEN"]), (" ELSE ", [.word "ELSE"])]

/-- What templates write behind an operand, and its tokens. -/
def endPieces : List (String × List TokenKind) :=
  [(" IS NULL", [.word "IS", .word "NULL"]), (" END", [.word "END"])]

theorem lexes_frontPieces (piece : String × List TokenKind) (h : piece ∈ frontPieces) :
    Lexes Anything piece.1.toList piece.2 := by
  have hall : ∀ piece ∈ frontPieces, Unquoted piece.1.toList ∧
      (piece.1.toList.getLast? = some ' ' ∨ piece.1.toList.getLast? = some '(') ∧
        kinds piece.1.toList = piece.2 := by decide +kernel
  exact lexes_start (hall piece h)

theorem lexes_endPieces (piece : String × List TokenKind) (h : piece ∈ endPieces) :
    Lexes Ends piece.1.toList piece.2 := by
  have hall : ∀ piece ∈ endPieces, Unquoted piece.1.toList ∧ kinds piece.1.toList = piece.2 := by
    decide +kernel
  exact lexes_constant (hall piece h)

theorem lexes_close : Lexes Ends [')'] [.mark ')'] :=
  (lexes_mark (.inr (.inl rfl))).imp fun _ _ => trivial

/-- A piece that starts with a blank may stand behind any other. -/
theorem Lexes.trail {a b : String} {ks ks' : List TokenKind} (h : Lexes Ends a.toList ks)
    (h' : Lexes Ends b.toList ks') (hhead : b.toList.head? = some ' ') :
    Lexes Ends (a ++ b).toList (ks ++ ks') := by
  obtain ⟨cs, hcs⟩ := List.head?_eq_some_iff.mp hhead
  rw [String.toList_append, hcs]
  rw [hcs] at h'
  exact h.append_break h' rfl

/-- A constant piece that starts and ends with a blank gives these tokens. -/
def Parts (middle : String) (ks : List TokenKind) : Prop :=
  Unquoted middle.toList ∧ middle.toList.head? = some ' ' ∧ middle.toList.getLast? = some ' ' ∧
    kinds middle.toList = ks

instance (middle : String) (ks : List TokenKind) : Decidable (Parts middle ks) :=
  inferInstanceAs (Decidable (_ ∧ _))

theorem Lexes.parted {a middle b : String} {ks ks' between : List TokenKind}
    (h : Lexes Ends a.toList ks) (hmiddle : Parts middle between) (h' : Lexes Ends b.toList ks') :
    Lexes Ends (a ++ middle ++ b).toList (ks ++ (between ++ ks')) := by
  obtain ⟨hunquoted, hhead, hlast, rfl⟩ := hmiddle
  have hbehind := (lexes_front hunquoted (.inl hlast)).append_any h'
  rw [← String.toList_append] at hbehind
  rw [String.append_assoc]
  exact h.trail hbehind (by simp [hhead])

theorem parts_middlePieces : ∀ piece ∈ middlePieces, Parts piece.1 piece.2 := by
  decide +kernel

theorem SqlOperator.parts_text (op : SqlOperator) : Parts op.text op.kinds := by
  rcases op with ((_ | _ | _ | _ | _ | _ | _ | _) | (_ | _) | (_ | _ | _ | _ | _)) | _ | _ | _ | _
    <;> decide +kernel

namespace Denotes

variable {o c o' c' : Nat} {s s' a b : String} {t l r : Tree}

theorem mono (h : Denotes o c s t) (ho : o' ≤ o) (hc : c' ≤ c) : Denotes o' c' s t := by
  obtain ⟨ks, hlexes, hreads⟩ := h
  exact ⟨ks, hlexes, hreads.mono ho hc⟩

theorem tree?_eq (h : Denotes o c s t) : tree? (kinds s.toList) = some t := by
  obtain ⟨ks, hlexes, hreads⟩ := h
  rw [hlexes.kinds_eq, hreads.tree?_eq]

/-! ## Operands -/

theorem word {word : String} (hword : isWord word) (hoperand : isOperand word) :
    Denotes o c word (.leaf (.word word)) :=
  ⟨[.word word], lexes_word hword, .leaf (by simp) fun stack => stepOperand_word stack hoperand⟩

theorem quoted (value : String) : Denotes o c (quoteText value) (.leaf (.text value)) :=
  ⟨[.text value], lexes_quoteText value, .leaf (by simp) fun _ => rfl⟩

theorem number {digits : String} (h : Lexes Ends digits.toList [.number digits]) :
    Denotes o c digits (.leaf (.number digits)) :=
  ⟨[.number digits], h, .leaf (by simp) fun _ => rfl⟩

theorem negative {digits : String} (h : Spells (.number digits) digits) (hc : c ≤ 10) :
    Denotes o c ("-" ++ digits) (.unary .minus (.leaf (.number digits))) := by
  have hdigits : Reads 11 10 [.number digits] (.leaf (.number digits)) :=
    .leaf (by simp) fun _ => rfl
  have hminus : Reads o (min SqlPrefix.minus.precedence 10) [.mark '-', .number digits]
      (.unary .minus (.leaf (.number digits))) :=
    hdigits.unary (by simp) (fun _ => rfl) (by decide)
  exact ⟨_, lexes_negative h, hminus.mono (Nat.le_refl o) hc⟩

/-- Parentheses around an expression. -/
theorem group (h : Denotes 0 0 s t) : Denotes o c ("(" ++ s ++ ")") t := by
  obtain ⟨ks, hlexes, hreads⟩ := h
  refine ⟨.mark '(' :: (ks ++ [.mark ')']), ?_, hreads.group⟩
  have htext : ("(" ++ s ++ ")").toList = ['('] ++ (s.toList ++ [')']) := by simp
  rw [htext]
  exact (lexes_mark (.inl rfl)).append_any (hlexes.append_break lexes_close rfl)

/-! ## Operators -/

theorem binary {op : SqlOperator} (hop : op ≠ .is) (hleft : Denotes o c a l)
    (hright : Denotes o' c' b r) (hc : op.precedence ≤ c) (ho : op.precedence < o') :
    Denotes (min op.precedence o) (min op.precedence c') (a ++ op.text ++ b) (.binary op l r) := by
  obtain ⟨ks, hlexes, hreads⟩ := hleft
  obtain ⟨ks', hlexes', hreads'⟩ := hright
  exact ⟨ks ++ (op.kinds ++ ks'), hlexes.parted op.parts_text hlexes',
    hreads.binary (foldlM_kinds hop hreads'.starts) hreads' hc ho⟩

theorem isNull (h : Denotes o c s t) (hc : SqlOperator.is.precedence ≤ c) :
    Denotes (min SqlOperator.is.precedence o) SqlOperator.is.precedence (s ++ " IS NULL")
      (.binary .is t (.leaf (.word "NULL"))) := by
  obtain ⟨ks, hlexes, hreads⟩ := h
  have hnull : Reads 10 10 [.word "NULL"] (.leaf (.word "NULL")) :=
    .leaf (by simp) fun stack => stepOperand_word stack (by decide +kernel)
  have hbehind : Lexes Ends " IS NULL".toList [.word "IS", .word "NULL"] :=
    lexes_endPieces (_, _) List.mem_cons_self
  refine ⟨ks ++ ([.word "IS"] ++ [.word "NULL"]), hlexes.trail hbehind (by decide), ?_⟩
  exact (hreads.binary foldlM_isNull hnull hc (by decide)).mono (Nat.le_refl _) (by decide)

/-- A word in front of its operand. -/
theorem unary {op : SqlPrefix} {front word : String}
    (hfront : Lexes Anything front.toList [.word word])
    (hword : ∀ stack, stepOperand stack (.word word) = some (.operand (.unary op :: stack)))
    (h : Denotes o' c' s t) (ho : op.precedence < o') :
    Denotes o (min op.precedence c') (front ++ s) (.unary op t) := by
  obtain ⟨ks, hlexes, hreads⟩ := h
  refine ⟨[.word word] ++ ks, ?_, hreads.unary (by simp) hword ho⟩
  rw [String.toList_append]
  exact hfront.append_any hlexes

theorem not (h : Denotes 0 0 s t) :
    Denotes o SqlPrefix.not.precedence ("NOT (" ++ s ++ ")") (.unary .not t) := by
  have hgroup : Denotes 10 10 ("(" ++ s ++ ")") t := h.group
  have hfront : Lexes Anything "NOT ".toList [.word "NOT"] :=
    lexes_frontPieces (_, _) List.mem_cons_self
  have hword : ∀ stack, stepOperand stack (.word "NOT") = some (.operand (.unary .not :: stack)) :=
    fun _ => by simp [stepOperand]
  have htext : "NOT (" ++ s ++ ")" = "NOT " ++ ("(" ++ s ++ ")") := by
    simp [← String.append_assoc]
  rw [htext]
  exact hgroup.unary hfront hword (by decide)

theorem distinct (h : Denotes o' c' s t) (ho : 0 < o') :
    Denotes 0 0 ("DISTINCT " ++ s) (.unary .distinct t) := by
  have hfront : Lexes Anything "DISTINCT ".toList [.word "DISTINCT"] :=
    lexes_frontPieces ("DISTINCT ", _) (by simp [frontPieces])
  have hword : ∀ stack, stepOperand stack (.word "DISTINCT") =
      some (.operand (.unary .distinct :: stack)) :=
    fun _ => by simp [stepOperand]
  exact (h.unary hfront hword ho).mono (Nat.le_refl 0) (Nat.zero_le _)

/-! ## Calls -/

theorem all (h : Denotes 0 0 s t) : DenotesAll s [t] := by
  obtain ⟨ks, hlexes, hreads⟩ := h
  exact ⟨ks, hlexes, .one hreads⟩

theorem call {function : String} {ts : List Tree} (hword : isWord function)
    (hoperand : isOperand function) (h : DenotesAll s ts) :
    Denotes o c (function ++ "(" ++ s ++ ")") (.call function ts) := by
  obtain ⟨ks, hlexes, hreads⟩ := h
  have hopen := (lexes_mark (.inl rfl)).append_any (hlexes.append_break lexes_close rfl)
  have htext : (function ++ "(" ++ s ++ ")").toList =
      function.toList ++ '(' :: (s.toList ++ [')']) := by simp
  refine ⟨[.word function] ++ ([.mark '('] ++ (ks ++ [.mark ')'])), ?_, .call hoperand hreads⟩
  exact htext ▸ (lexes_word hword).append_break hopen rfl

theorem callNone {function : String} (hword : isWord function) (hoperand : isOperand function) :
    Denotes o c (function ++ "(" ++ ")") (.call function []) := by
  have hopen := (lexes_mark (.inl rfl)).append_any lexes_close
  have htext : (function ++ "(" ++ ")").toList = function.toList ++ '(' :: [')'] := by simp
  refine ⟨[.word function] ++ ([.mark '('] ++ [.mark ')']), ?_, .callNone hoperand⟩
  exact htext ▸ (lexes_word hword).append_break hopen rfl

theorem cast (h : Denotes 0 0 s t) {type : String} (htype : isWord type) :
    Denotes o c ("CAST(" ++ s ++ " AS " ++ type ++ ")") (.cast t type) := by
  obtain ⟨ks, hlexes, hreads⟩ := h
  have hfront : Lexes Anything "CAST(".toList [.word "CAST", .mark '('] :=
    lexes_frontPieces ("CAST(", _) (by simp [frontPieces])
  have htype : Lexes Ends (type ++ ")").toList [.word type, .mark ')'] := by
    rw [String.toList_append]
    exact (lexes_word htype).append_break lexes_close rfl
  have has : Parts " AS " [.word "AS"] := parts_middlePieces (_, _) List.mem_cons_self
  have hall := hfront.append_any (hlexes.parted has htype)
  exact ⟨_, by simpa using hall, hreads.cast type⟩

theorem choice {a b s : String} {t₁ t₂ t₃ : Tree} (h₁ : Denotes 0 0 a t₁) (h₂ : Denotes 0 0 b t₂)
    (h₃ : Denotes 0 0 s t₃) :
    Denotes o c ("CASE WHEN " ++ a ++ " THEN " ++ b ++ " ELSE " ++ s ++ " END")
      (.choice t₁ t₂ t₃) := by
  obtain ⟨ks₁, hlexes₁, hreads₁⟩ := h₁
  obtain ⟨ks₂, hlexes₂, hreads₂⟩ := h₂
  obtain ⟨ks₃, hlexes₃, hreads₃⟩ := h₃
  have hfront : Lexes Anything "CASE WHEN ".toList [.word "CASE", .word "WHEN"] :=
    lexes_frontPieces ("CASE WHEN ", _) (by simp [frontPieces])
  have hend : Lexes Ends (s ++ " END").toList (ks₃ ++ [.word "END"]) :=
    hlexes₃.trail (lexes_endPieces (" END", _) (by simp [endPieces])) (by decide)
  have hthen : Parts " THEN " [.word "THEN"] :=
    parts_middlePieces (" THEN ", _) (by simp [middlePieces])
  have helse : Parts " ELSE " [.word "ELSE"] :=
    parts_middlePieces (" ELSE ", _) (by simp [middlePieces])
  have hinner := hlexes₂.parted helse hend
  rw [String.append_assoc] at hinner
  have hall := hfront.append_any (hlexes₁.parted hthen hinner)
  exact ⟨_, by simpa using hall, hreads₁.choice hreads₂ hreads₃⟩

end Denotes

namespace DenotesAll

variable {s s' : String} {t : Tree} {ts : List Tree}

theorem cons (h : Denotes 0 0 s t) (hts : DenotesAll s' ts) :
    DenotesAll (s ++ ", " ++ s') (t :: ts) := by
  obtain ⟨ks, hlexes, hreads⟩ := h
  obtain ⟨ks', hlexes', hreads'⟩ := hts
  have hcomma := (lexes_mark (.inr (.inr rfl))).append_any (lexes_blank.append_any hlexes')
  have htext : (s ++ ", " ++ s').toList = s.toList ++ ',' :: ' ' :: s'.toList := by simp
  refine ⟨ks ++ ([.mark ','] ++ ([] ++ ks')), ?_, .more hreads hreads'⟩
  exact htext ▸ hlexes.append_break hcomma rfl

/-- A call that a template writes in one piece with its arguments. -/
theorem apply {function text : String} {o c : Nat} (h : DenotesAll s ts)
    (htext : function ++ "(" ++ s ++ ")" = text) (hword : isWord function)
    (hoperand : isOperand function) : Denotes o c text (.call function ts) :=
  htext ▸ .call hword hoperand h

theorem intercalate {ss : List String} (h : List.Forall₂ (Denotes 0 0) ss ts) (hne : ss ≠ []) :
    DenotesAll (", ".intercalate ss) ts := by
  induction h with
  | nil => exact absurd rfl hne
  | @cons s t ss ts hfirst hrest ih =>
    cases hrest with
    | nil => exact hfirst.all
    | cons hsecond hrest =>
      rw [String.intercalate_cons_cons, String.append_assoc, ← String.append_assoc]
      exact .cons hfirst (ih (by simp))

end DenotesAll

theorem denotes_plainCall {function : String} {ss : List String} {ts : List Tree} {o c : Nat}
    (hword : isWord function) (hoperand : isOperand function)
    (h : List.Forall₂ (Denotes 0 0) ss ts) :
    Denotes o c (plainCall function ss) (.call function ts) := by
  rw [plainCall]
  cases h with
  | nil =>
    rw [String.intercalate_nil, String.append_empty]
    exact .callNone hword hoperand
  | cons hfirst hrest => exact .call hword hoperand (.intercalate (.cons hfirst hrest) (by simp))

end PipeSql.Sql
