import PipeSql.Proofs.Sql.Denotation
import PipeSql.Proofs.Query.Expr.Spelled

/-! # What expressions mean in SQL

The tree that an expression stands for, and the pieces of its SQL, one template after the other:
each denotes its tree where no operator beside an argument takes a part of that argument. -/

namespace PipeSql.Sql

open Query (Column Expr Operator Ends Spells)

/-! ## Trees -/

/-- A column, behind its table where one is given. -/
def columnTree (column : Column) : Tree :=
  match column.table with
  | some table => .member table (nameKind column.name)
  | none => .leaf (nameKind column.name)

/-- A number, the sign in front of it apart. -/
def numberTree (digits : String) : Tree :=
  match digits.toList with
  | '-' :: rest => .unary .minus (.leaf (.number (String.ofList rest)))
  | _ => .leaf (.number digits)

/-- A pattern, with the mark that escapes its wildcards where one is needed. -/
def patternTree (op : Operator) (right : Expr) (tree : Tree) : Tree :=
  if escapeText op right = "" then tree else .binary .escape tree (.leaf (.text "\\"))

/-- The call of a scalar function: what it is for all of each argument. -/
def callTree (function : String) (arguments : List Tree) : Tree :=
  match Builtin.ofName? function, arguments with
  | some .length, [a] => .call "length" [a]
  | some .lower, [a] => .call "lower" [a]
  | some .upper, [a] => .call "upper" [a]
  | some (.cast type), [a] => .cast a (Dialect.sqlite.castType type)
  | some .isEmpty, [a] =>
    .binary (.shared (.connect .or)) (.binary .is a (.leaf (.word "NULL")))
      (.binary (.shared (.compare .equal)) a (.leaf (.text "")))
  | some .isNotEmpty, [a] =>
    .binary (.shared (.connect .and)) (.binary .isNot a (.leaf (.word "NULL")))
      (.binary (.shared (.compare .notEqual)) a (.leaf (.text "")))
  | some .concat, a :: rest => rest.foldl (.binary .concat) a
  | some .substring, [a, start] =>
    .call "substr" [a, .binary (.shared (.compute .add)) start (.leaf (.number "1"))]
  | some .substring, [a, start, length] =>
    .call "substr" [a, .binary (.shared (.compute .add)) start (.leaf (.number "1")), length]
  | some .choice, [condition, a, b] => .choice condition a b
  | some .negation, [a] => .unary .not a
  | _, _ => .call function arguments

/-- The call of an aggregate. -/
def aggregateTree (function : String) (arguments : List Tree) : Tree :=
  match function.toLower, arguments with
  | "count", [] => .call "count" [.leaf (.mark '*')]
  | "dcount", [a] => .call "count" [.unary .distinct a]
  | "countif", [condition] =>
    .call "sum" [.choice condition (.leaf (.number "1")) (.leaf (.number "0"))]
  | "make_bag", arguments => .call Dialect.sqlite.objectAggregate arguments
  | "make_list", arguments => .call Dialect.sqlite.arrayAggregate arguments
  | "make_set", [a] => .call Dialect.sqlite.arrayAggregate [.unary .distinct a]
  | _, arguments => .call function arguments

mutual

/-- What an expression is in SQL, each operand and each argument a part of its own. -/
def treeOf : Expr → Tree
  | .column c => columnTree c
  | .text value => .leaf (.text value)
  | .number digits => numberTree digits
  | .bool value => .leaf (.word (boolText value))
  | .binary op left right =>
    .binary (.shared op) (treeOf left) (patternTree op right (treeOf right))
  | .call function arguments => callTree function (treesOf arguments)
  | .aggregate function arguments => aggregateTree function (treesOf arguments)

/-- The trees of a list of expressions. -/
def treesOf : List Expr → List Tree
  | [] => []
  | e :: es => treeOf e :: treesOf es

end

theorem treesOf_eq_map (es : List Expr) : treesOf es = es.map treeOf := by
  induction es with
  | nil => rfl
  | cons e es ih => rw [treesOf, ih, List.map_cons]

/-! ## How far an expression stays whole -/

/-- An expression in a place of strength `least` stays whole behind operators that bind looser than
this. -/
def opening (least : Nat) : Expr → Nat
  | .binary op left _ =>
    if strength op < least then 10
    else min (SqlOperator.shared op).precedence (opening (leftStrength op) left)
  | _ => 10

/-- An expression in a place of strength `least` stays whole in front of operators that bind no
tighter than this. The `NOT` of a negation takes all that follows up to an operator as loose. -/
def closing (least : Nat) : Expr → Nat
  | .binary op _ right =>
    if strength op < least then 10
    else min (SqlOperator.shared op).precedence (closing (rightStrength op) right)
  | .call function [_] =>
    if Builtin.ofName? function = some .negation then SqlPrefix.not.precedence else 10
  | _ => 10

/-- Operators that bind tighter in the query language do so in SQL. -/
theorem precedence_lt {op op' : Operator} (h : strength op < strength op') :
    (SqlOperator.shared op).precedence < (SqlOperator.shared op').precedence := by
  revert h
  rcases op with (_ | _ | _ | _ | _ | _ | _ | _) | (_ | _) | (_ | _ | _ | _ | _) <;>
    rcases op' with (_ | _ | _ | _ | _ | _ | _ | _) | (_ | _) | (_ | _ | _ | _ | _) <;> decide

theorem precedence_pos (op : Operator) : 0 < (SqlOperator.shared op).precedence := by
  rcases op with (_ | _ | _ | _ | _ | _ | _ | _) | (_ | _) | (_ | _ | _ | _ | _) <;> decide

theorem precedence_lt_ten (op : SqlOperator) : op.precedence < 10 := by
  rcases op with ((_ | _ | _ | _ | _ | _ | _ | _) | (_ | _) | (_ | _ | _ | _ | _)) | _ | _ | _ | _
    <;> decide

theorem strength_le_leftStrength (op : Operator) : strength op ≤ leftStrength op := by
  rcases op with (_ | _ | _ | _ | _ | _ | _ | _) | (_ | _) | (_ | _ | _ | _ | _) <;> decide

theorem opening_pos (least : Nat) (e : Expr) : 0 < opening least e := by
  induction e using Expr.tree_induction generalizing least with
  | binary op left right ihl _ =>
    rw [opening]
    split
    · decide
    · exact lt_min (precedence_pos op) (ihl _)
  | _ => simp [opening]

/-- In a place that asks for more than the strength of an operator, an expression stays whole
behind it. -/
theorem precedence_lt_opening {op : Operator} {least : Nat} (h : strength op < least) (e : Expr) :
    (SqlOperator.shared op).precedence < opening least e := by
  induction e using Expr.tree_induction generalizing least with
  | binary op' left right ihl _ =>
    rw [opening]
    split
    · exact precedence_lt_ten _
    · rename_i hleast
      have hop : strength op < strength op' := by omega
      exact lt_min (precedence_lt hop) (ihl (hop.trans_le (strength_le_leftStrength op')))
  | _ => simpa [opening] using precedence_lt_ten _

/-! ## Operands -/

theorem reserved_of_keyword? {word : String} {keyword : Keyword}
    (h : keyword? word = some keyword) : reserved.contains word.toLower := by
  unfold keyword? at h
  split at h
  case h_15 => cases h
  all_goals
    rename_i hword
    rw [hword]
    decide

theorem isOperand_of_not_reserved {word : String} (h : reserved.contains word.toLower = false) :
    isOperand word := by
  have hkeyword : keyword? word = none := by
    by_contra hne
    obtain ⟨keyword, hkeyword⟩ := Option.ne_none_iff_exists'.mp hne
    rw [reserved_of_keyword? hkeyword] at h
    cases h
  simp [isOperand, hkeyword]

theorem denotes_column (column : Column) (o c : Nat) :
    Denotes o c (columnText column) (columnTree column) := by
  have hname : ∃ name, nameKind column.name = .word name ∨ nameKind column.name = .name name := by
    unfold nameKind
    split
    · exact ⟨_, .inl rfl⟩
    · exact ⟨_, .inr rfl⟩
  have hoperand : ∀ stack, stepOperand stack (nameKind column.name) =
      some (.behind stack (.leaf (nameKind column.name))) := by
    intro stack
    unfold nameKind
    split
    · rename_i hplain
      simp only [Bool.and_eq_true, Bool.not_eq_true'] at hplain
      exact stepOperand_word stack (isOperand_of_not_reserved hplain.2)
    · rfl
  refine ⟨columnKinds column, lexes_columnText column, ?_⟩
  obtain ⟨_ | table, name⟩ := column
  · obtain ⟨_, hkind | hkind⟩ := hname
    · exact .leaf (by simp [hkind]) hoperand
    · exact .leaf (by simp [hkind]) hoperand
  · exact .member hname

theorem denotes_number {digits : String} (h : Expr.Spelled (.number digits)) (o : Nat) :
    Denotes o 10 digits (numberTree digits) := by
  cases h with
  | number hdigits =>
    have htree : numberTree digits = .leaf (.number digits) := by
      unfold numberTree
      split
      · rename_i hsign
        exact absurd hsign (hdigits.unsigned _)
      · rfl
    rw [htree]
    exact .number (lexes_number hdigits)
  | @negative digits hdigits =>
    have htree : numberTree ("-" ++ digits) = .unary .minus (.leaf (.number digits)) := by
      simp [numberTree]
    rw [htree]
    exact .negative hdigits (Nat.le_refl 10)

theorem denotes_bool (value : Bool) (o c : Nat) :
    Denotes o c (boolText value) (.leaf (.word (boolText value))) := by
  cases value <;> exact .word (by decide) (by decide +kernel)

/-! ## Operators -/

/-- A pattern and the mark behind it, as the right operand of an operator. -/
theorem denotes_pattern {op : Operator} {right : Expr} {least o c : Nat}
    (ho : (SqlOperator.shared op).precedence < o)
    (h : Denotes o c (exprText .sqlite least right) (treeOf right)) :
    ∃ o' c', (SqlOperator.shared op).precedence < o' ∧
      min (SqlOperator.shared op).precedence c ≤ c' ∧
      Denotes o' c' (exprText .sqlite least right ++ escapeText op right)
        (patternTree op right (treeOf right)) := by
  by_cases hnone : escapeText op right = ""
  · refine ⟨o, c, ho, Nat.min_le_right _ _, ?_⟩
    rw [hnone, String.append_empty, patternTree, if_pos hnone]
    exact h
  · obtain ⟨pattern, rfl, hop, hescape⟩ : ∃ pattern, right = .text pattern ∧
        (op = .compare .like ∨ op = .compare .unlike) ∧
        escapeText op right = SqlOperator.escape.text ++ quoteText "\\" := by
      unfold escapeText at hnone ⊢
      split at hnone <;> simp_all <;> decide
    have hpattern : Denotes 10 10 (quoteText pattern) (.leaf (.text pattern)) := .quoted pattern
    have hmark : Denotes 10 10 (quoteText "\\") (.leaf (.text "\\")) := .quoted "\\"
    have hbinary := hpattern.binary (by decide : SqlOperator.escape ≠ .is) hmark (by decide)
      (by decide)
    have hlooser : (SqlOperator.shared op).precedence < SqlOperator.escape.precedence := by
      rcases hop with rfl | rfl <;> decide
    refine ⟨_, _, lt_min hlooser (precedence_lt_ten _),
      (Nat.min_le_left _ _).trans (le_min hlooser.le (precedence_lt_ten _).le), ?_⟩
    rw [hescape, patternTree, if_neg hnone, exprText, treeOf, ← String.append_assoc]
    exact hbinary

theorem denotes_binary {op : Operator} {left right : Expr}
    (hclosing : (SqlOperator.shared op).precedence ≤ closing (leftStrength op) left)
    (hleft : Denotes (opening (leftStrength op) left) (closing (leftStrength op) left)
      (exprText .sqlite (leftStrength op) left) (treeOf left))
    (hright : Denotes (opening (rightStrength op) right) (closing (rightStrength op) right)
      (exprText .sqlite (rightStrength op) right) (treeOf right)) (least : Nat) :
    Denotes (opening least (.binary op left right)) (closing least (.binary op left right))
      (exprText .sqlite least (.binary op left right)) (treeOf (.binary op left right)) := by
  obtain ⟨o, c, ho, hc, hpattern⟩ :=
    denotes_pattern (precedence_lt_opening (Nat.lt_succ_self (strength op)) right) hright
  have hbinary := hleft.binary (by simp : SqlOperator.shared op ≠ .is) hpattern hclosing ho
  have htext : exprText .sqlite (leftStrength op) left ++ " " ++ symbol op ++ " " ++
      exprText .sqlite (rightStrength op) right ++ escapeText op right =
      exprText .sqlite (leftStrength op) left ++ (SqlOperator.shared op).text ++
        (exprText .sqlite (rightStrength op) right ++ escapeText op right) := by
    simp only [SqlOperator.text, String.append_assoc]
  rw [exprText, treeOf, opening, closing, htext]
  by_cases hloose : strength op < least
  · simp only [hloose, if_true, decide_true, parenthesized]
    exact (hbinary.mono (Nat.zero_le _) (Nat.zero_le _)).group
  · simp only [hloose, if_false, decide_false, parenthesized, Bool.false_eq_true]
    exact hbinary.mono le_rfl (le_min (Nat.min_le_left _ _) hc)

/-! ## Templates -/

theorem forall₂_arguments {arguments : List Expr}
    (h : ∀ a ∈ arguments, Denotes 0 0 (exprText .sqlite 0 a) (treeOf a)) :
    List.Forall₂ (Denotes 0 0) (arguments.map (exprText .sqlite 0)) (arguments.map treeOf) := by
  rw [List.forall₂_map_left_iff, List.forall₂_map_right_iff, List.forall₂_same]
  exact h

/-- Arguments between the marks of concatenation, behind a text that is there already. -/
theorem denotes_concat {rest : List Expr} {o c : Nat} {s : String} {t : Tree}
    (hrest : ∀ a ∈ rest, Denotes (opening 0 a) (closing 0 a) (exprText .sqlite 0 a) (treeOf a))
    (hbehind : ∀ a ∈ rest, SqlOperator.concat.precedence < opening 0 a)
    (hfront : ∀ a ∈ rest.dropLast, SqlOperator.concat.precedence ≤ closing 0 a)
    (h : Denotes o c s t) (hc : rest ≠ [] → SqlOperator.concat.precedence ≤ c) :
    Denotes 0 0 (" || ".intercalate (s :: rest.map (exprText .sqlite 0)))
      ((rest.map treeOf).foldl (.binary .concat) t) := by
  induction rest generalizing o c s t with
  | nil => exact h.mono (Nat.zero_le o) (Nat.zero_le c)
  | cons a rest ih =>
    simp only [List.forall_mem_cons] at hrest hbehind
    have hjoined := h.binary (by simp) hrest.1 (hc (by simp)) hbehind.1
    have hlast : rest ≠ [] → (a :: rest).dropLast = a :: rest.dropLast := fun hne =>
      List.dropLast_cons_of_ne_nil hne
    refine ih hrest.2 hbehind.2 (fun b hb => hfront b ?_) hjoined fun hne => ?_
    · rw [hlast (by rintro rfl; cases hb)]
      exact List.mem_cons_of_mem a hb
    · exact le_min le_rfl (hfront a (by simp [hlast hne]))

/-- A test of an argument for `NULL` and one for the empty text, with a connective between them. -/
theorem denotes_tests {connective : Query.Connective} {compare : Query.Comparison}
    {o c o₁ c₁ o' c' : Nat} {s null : String} {t test : Tree} (h : Denotes o c s t)
    (hnull : Denotes o₁ c₁ (s ++ null) test)
    (hconnective : (SqlOperator.shared (.connect connective)).precedence ≤ c₁)
    (hcompare : (SqlOperator.shared (.compare compare)).precedence ≤ c)
    (ho : (SqlOperator.shared (.connect connective)).precedence < o) :
    Denotes o' c' ("(" ++ (s ++ null ++ (SqlOperator.shared (.connect connective)).text ++
        (s ++ (SqlOperator.shared (.compare compare)).text ++ quoteText "")) ++ ")")
      (.binary (.shared (.connect connective)) test
        (.binary (.shared (.compare compare)) t (.leaf (.text "")))) := by
  have hempty : Denotes 10 10 (quoteText "") (.leaf (.text "")) := .quoted ""
  have hcompared := h.binary (by simp : SqlOperator.shared (.compare compare) ≠ .is) hempty
    hcompare (precedence_lt_ten _)
  have hlooser : (SqlOperator.shared (.connect connective)).precedence <
      (SqlOperator.shared (.compare compare)).precedence := by
    cases connective <;> cases compare <;> decide
  have hall := hnull.binary (by simp : SqlOperator.shared (.connect connective) ≠ .is) hcompared
    hconnective (lt_min hlooser ho)
  exact (hall.mono (Nat.zero_le _) (Nat.zero_le _)).group

theorem denotes_isEmpty {o c o' c' : Nat} {s : String} {t : Tree} (h : Denotes o c s t)
    (hc : SqlOperator.is.precedence ≤ c)
    (ho : (SqlOperator.shared (.connect .or)).precedence < o) :
    Denotes o' c' ("(" ++ s ++ " IS NULL OR " ++ s ++ " = '')")
      (.binary (.shared (.connect .or)) (.binary .is t (.leaf (.word "NULL")))
        (.binary (.shared (.compare .equal)) t (.leaf (.text "")))) := by
  have htext : "(" ++ s ++ " IS NULL OR " ++ s ++ " = '')" =
      "(" ++ (s ++ " IS NULL" ++ (SqlOperator.shared (.connect .or)).text ++
        (s ++ (SqlOperator.shared (.compare .equal)).text ++ quoteText "")) ++ ")" := by
    rw [← String.toList_inj]
    simp [SqlOperator.text, symbol, quoteText, Text.enclosed, Text.doubled]
  exact htext ▸ denotes_tests h (h.isNull hc) (by decide) hc ho

theorem denotes_isNotEmpty {o c o' c' : Nat} {s : String} {t : Tree} (h : Denotes o c s t)
    (hc : SqlOperator.isNot.precedence ≤ c)
    (ho : (SqlOperator.shared (.connect .and)).precedence < o) :
    Denotes o' c' ("(" ++ s ++ " IS NOT NULL AND " ++ s ++ " <> '')")
      (.binary (.shared (.connect .and)) (.binary .isNot t (.leaf (.word "NULL")))
        (.binary (.shared (.compare .notEqual)) t (.leaf (.text "")))) := by
  have hnull : Denotes 10 10 "NULL" (.leaf (.word "NULL")) :=
    .word (by decide) (by decide +kernel)
  have hpresent := h.binary (by decide : SqlOperator.isNot ≠ .is) hnull hc (by decide)
  have htext : "(" ++ s ++ " IS NOT NULL AND " ++ s ++ " <> '')" =
      "(" ++ (s ++ (SqlOperator.isNot.text ++ "NULL") ++
        (SqlOperator.shared (.connect .and)).text ++
        (s ++ (SqlOperator.shared (.compare .notEqual)).text ++ quoteText "")) ++ ")" := by
    rw [← String.toList_inj]
    simp [SqlOperator.text, symbol, quoteText, Text.enclosed, Text.doubled]
  rw [String.append_assoc] at hpresent
  exact htext ▸ denotes_tests h hpresent (by decide) hc ho

/-- An offset that counts from one. -/
theorem denotes_offset {o c : Nat} {s : String} {t : Tree} (h : Denotes o c s t)
    (hc : (SqlOperator.shared (.compute .add)).precedence ≤ c) :
    Denotes 0 0 (s ++ " + 1")
      (.binary (.shared (.compute .add)) t (.leaf (.number "1"))) := by
  have hone : Denotes 10 10 "1" (.leaf (.number "1")) :=
    .number (lexes_constant (by decide +kernel))
  have hsum := h.binary (by simp : SqlOperator.shared (.compute .add) ≠ .is) hone hc (by decide)
  have htext : s ++ " + 1" = s ++ (SqlOperator.shared (.compute .add)).text ++ "1" := by
    rw [← String.toList_inj]
    simp [SqlOperator.text, symbol]
  rw [htext]
  exact hsum.mono (Nat.zero_le _) (Nat.zero_le _)

theorem denotes_aggregateText {function : String} {arguments : List Expr} (hword : isWord function)
    (hoperand : isOperand function)
    (h : ∀ a ∈ arguments, Denotes (opening 0 a) 0 (exprText .sqlite 0 a) (treeOf a)) (o c : Nat) :
    Denotes o c (aggregateText .sqlite function (arguments.map (exprText .sqlite 0)))
      (aggregateTree function (arguments.map treeOf)) := by
  have hforall := forall₂_arguments fun a ha => (h a ha).mono (Nat.zero_le _) (Nat.zero_le _)
  have hplain : Denotes o c (plainCall function (arguments.map (exprText .sqlite 0)))
      (.call function (arguments.map treeOf)) := denotes_plainCall hword hoperand hforall
  unfold aggregateText aggregateTree
  generalize function.toLower = name
  by_cases hbag : name = "make_bag"
  · subst hbag
    exact denotes_plainCall (by decide) (by decide +kernel) hforall
  by_cases hlist : name = "make_list"
  · subst hlist
    exact denotes_plainCall (by decide) (by decide +kernel) hforall
  -- the other aggregates of SQL's own have at most one argument
  rcases arguments with _ | ⟨a, _ | ⟨b, rest⟩⟩
  · by_cases hcount : name = "count"
    · subst hcount
      have hrows : Lexes Ends "count(*)".toList
          [.word "count", .mark '(', .mark '*', .mark ')'] := lexes_constant (by decide +kernel)
      exact ⟨_, hrows, .callAll (by decide +kernel)⟩
    · simpa [hbag, hlist, hcount] using hplain
  · have halone := (h a (by simp)).mono (Nat.zero_le _) (Nat.zero_le 0)
    have hdistinct := (h a (by simp)).distinct (opening_pos 0 a)
    by_cases hdcount : name = "dcount"
    · subst hdcount
      exact hdistinct.all.apply (by rw [← String.toList_inj]; simp) (by decide)
        (by decide +kernel)
    by_cases hcountif : name = "countif"
    · subst hcountif
      have hone : Denotes 0 0 "1" (.leaf (.number "1")) :=
        .number (lexes_constant (by decide +kernel))
      have hzero : Denotes 0 0 "0" (.leaf (.number "0")) :=
        .number (lexes_constant (by decide +kernel))
      have hchoice : Denotes 0 0 _ _ := halone.choice hone hzero
      exact hchoice.all.apply (by rw [← String.toList_inj]; simp) (by decide)
        (by decide +kernel)
    by_cases hset : name = "make_set"
    · subst hset
      exact hdistinct.all.apply (by rw [← String.toList_inj]; simp) (by decide)
        (by decide +kernel)
    simpa [hbag, hlist, hdcount, hcountif, hset] using hplain
  · simpa [hbag, hlist] using hplain

end PipeSql.Sql
