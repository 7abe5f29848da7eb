import PipeSql.Proofs.Sql.Lexical
import PipeSql.Query.Expr

/-! # SQL expressions, read by precedence

The tree that the tokens of an expression stand for. They are read from the left: an operator first
takes the operands of all pending operators that bind at least as tightly as it does, then waits for
its own right operand. -/

namespace PipeSql.Sql

open Query

/-! ## Trees -/

/-- The operators between two operands: those of the query language, and those of SQL alone. -/
inductive SqlOperator where
  | shared (op : Operator)
  | is | isNot | escape | concat
  deriving DecidableEq, Repr

/-- The operators in front of an operand; `DISTINCT` stands in front of an argument. -/
inductive SqlPrefix where
  | distinct | not | minus
  deriving DecidableEq, Repr

/-- What an SQL expression stands for. -/
inductive Tree where
  | leaf (kind : TokenKind)
  | member (table : String) (name : TokenKind)
  | unary (op : SqlPrefix) (operand : Tree)
  | binary (op : SqlOperator) (left right : Tree)
  | call (function : String) (arguments : List Tree)
  | cast (operand : Tree) (type : String)
  | choice (condition yes no : Tree)

/-- How tightly an operator binds in SQL: `OR`, `AND`, `NOT`, the tests for equality and the
patterns, the tests for order, `ESCAPE`, sums, products, `||` and the sign. -/
def SqlOperator.precedence : SqlOperator → Nat
  | .shared (.connect .or) => 1
  | .shared (.connect .and) => 2
  | .shared (.compare op) =>
    match op with
    | .less | .greater | .lessEqual | .greaterEqual => 5
    | .equal | .notEqual | .like | .unlike => 4
  | .is | .isNot => 4
  | .escape => 6
  | .shared (.compute op) =>
    match op with
    | .add | .subtract => 7
    | .multiply | .divide | .modulo => 8
  | .concat => 9

def SqlPrefix.precedence : SqlPrefix → Nat
  | .distinct => 0
  | .not => 3
  | .minus => 10

/-! ## Words -/

/-- The words that stand for themselves in an expression. -/
inductive Keyword where
  | and | or | not | like | is | escape | distinct
  | cast | as | case | when | then | else | end
  deriving DecidableEq, Repr

/-- The keyword that a word is, in any case of its letters. -/
def keyword? (word : String) : Option Keyword :=
  match word.toLower with
  | "and" => some .and
  | "or" => some .or
  | "not" => some .not
  | "like" => some .like
  | "is" => some .is
  | "escape" => some .escape
  | "distinct" => some .distinct
  | "cast" => some .cast
  | "as" => some .as
  | "case" => some .case
  | "when" => some .when
  | "then" => some .then
  | "else" => some .else
  | "end" => some .end
  | _ => none

@[simp] theorem keyword?_written :
    keyword? "AND" = some .and ∧ keyword? "OR" = some .or ∧ keyword? "NOT" = some .not ∧
    keyword? "LIKE" = some .like ∧ keyword? "IS" = some .is ∧ keyword? "ESCAPE" = some .escape ∧
    keyword? "DISTINCT" = some .distinct ∧ keyword? "CAST" = some .cast ∧
    keyword? "AS" = some .as ∧ keyword? "CASE" = some .case ∧ keyword? "WHEN" = some .when ∧
    keyword? "THEN" = some .then ∧ keyword? "ELSE" = some .else ∧ keyword? "END" = some .end ∧
    keyword? "NULL" = none := by
  decide +kernel

/-- A word that is an operand, or the name of a function. -/
def isOperand (word : String) : Bool :=
  match keyword? word with
  | some .not | some .distinct | some .cast | some .case => false
  | _ => true

/-! ## Steps -/

/-- What waits for the operand that is read next. -/
inductive Frame where
  | group
  | call (function : String) (arguments : List Tree)
  | cast | when
  | thenIs (condition : Tree)
  | elseIs (condition yes : Tree)
  | unary (op : SqlPrefix)
  | binary (op : SqlOperator) (left : Tree)

/-- The first tokens of operators that may have another one. -/
inductive OperatorStart where
  | less | greater | bar | is | not
  deriving DecidableEq, Repr

/-- The operator of two tokens. -/
def OperatorStart.joined? : OperatorStart → TokenKind → Option SqlOperator
  | .less, .mark '=' => some (.shared (.compare .lessEqual))
  | .less, .mark '>' => some (.shared (.compare .notEqual))
  | .greater, .mark '=' => some (.shared (.compare .greaterEqual))
  | .bar, .mark '|' => some .concat
  | .is, .word word => if keyword? word = some .not then some .isNot else none
  | .not, .word word =>
    if keyword? word = some .like then some (.shared (.compare .unlike)) else none
  | _, _ => none

/-- The operator of the first token alone. -/
def OperatorStart.alone? : OperatorStart → Option SqlOperator
  | .less => some (.shared (.compare .less))
  | .greater => some (.shared (.compare .greater))
  | .is => some .is
  | .bar | .not => none

/-- Where the reading of an expression stands, with the frames that wait, innermost first. -/
inductive Progress where
  | operand (stack : List Frame)
  | behind (stack : List Frame) (tree : Tree)
  | operator (start : OperatorStart) (stack : List Frame) (tree : Tree)
  | member (stack : List Frame) (table : String)
  | cast (stack : List Frame)
  | type (stack : List Frame) (tree : Tree)
  | close (stack : List Frame) (tree : Tree)
  | case (stack : List Frame)

/-- Gives a tree to the pending operators of at least a precedence. -/
def reduce (least : Nat) : List Frame → Tree → List Frame × Tree
  | .unary op :: stack, tree =>
    if least ≤ op.precedence then reduce least stack (.unary op tree)
    else (.unary op :: stack, tree)
  | .binary op left :: stack, tree =>
    if least ≤ op.precedence then reduce least stack (.binary op left tree)
    else (.binary op left :: stack, tree)
  | stack, tree => (stack, tree)

/-- Lets an operator wait for its right operand. -/
def shift (op : SqlOperator) (stack : List Frame) (tree : Tree) : List Frame :=
  let (stack, left) := reduce op.precedence stack tree
  .binary op left :: stack

/-- Reads a token where an operand is expected. -/
def stepOperand (stack : List Frame) : TokenKind → Option Progress
  | .mark '(' => some (.operand (.group :: stack))
  | .mark '-' => some (.operand (.unary .minus :: stack))
  | .mark '*' =>
    match stack with
    | .call _ [] :: _ => some (.behind stack (.leaf (.mark '*')))
    | _ => none
  | .mark ')' =>
    match stack with
    | .call function [] :: stack => some (.behind stack (.call function []))
    | _ => none
  | .mark _ => none
  | .word word =>
    match keyword? word with
    | some .not => some (.operand (.unary .not :: stack))
    | some .distinct => some (.operand (.unary .distinct :: stack))
    | some .cast => some (.cast stack)
    | some .case => some (.case stack)
    | _ => some (.behind stack (.leaf (.word word)))
  | kind => some (.behind stack (.leaf kind))

/-- Reads a word behind an operand. -/
def stepWord (stack : List Frame) (tree : Tree) (word : Keyword) : Option Progress :=
  match word, reduce 0 stack tree with
  | .and, _ => some (.operand (shift (.shared (.connect .and)) stack tree))
  | .or, _ => some (.operand (shift (.shared (.connect .or)) stack tree))
  | .like, _ => some (.operand (shift (.shared (.compare .like)) stack tree))
  | .escape, _ => some (.operand (shift .escape stack tree))
  | .is, _ => some (.operator .is stack tree)
  | .not, _ => some (.operator .not stack tree)
  | .as, (.cast :: stack, tree) => some (.type stack tree)
  | .then, (.when :: stack, tree) => some (.operand (.thenIs tree :: stack))
  | .else, (.thenIs condition :: stack, tree) => some (.operand (.elseIs condition tree :: stack))
  | .end, (.elseIs condition yes :: stack, tree) =>
    some (.behind stack (.choice condition yes tree))
  | _, _ => none

/-- Reads a mark behind an operand. -/
def stepMark (stack : List Frame) (tree : Tree) (c : Char) : Option Progress :=
  match c, reduce 0 stack tree with
  | '=', _ => some (.operand (shift (.shared (.compare .equal)) stack tree))
  | '+', _ => some (.operand (shift (.shared (.compute .add)) stack tree))
  | '-', _ => some (.operand (shift (.shared (.compute .subtract)) stack tree))
  | '*', _ => some (.operand (shift (.shared (.compute .multiply)) stack tree))
  | '/', _ => some (.operand (shift (.shared (.compute .divide)) stack tree))
  | '%', _ => some (.operand (shift (.shared (.compute .modulo)) stack tree))
  | '<', _ => some (.operator .less stack tree)
  | '>', _ => some (.operator .greater stack tree)
  | '|', _ => some (.operator .bar stack tree)
  | ')', (.group :: stack, tree) => some (.behind stack tree)
  | ')', (.call function arguments :: stack, tree) =>
    some (.behind stack (.call function (arguments ++ [tree])))
  | ',', (.call function arguments :: stack, tree) =>
    some (.operand (.call function (arguments ++ [tree]) :: stack))
  | '(', _ =>
    match tree with
    | .leaf (.word function) => some (.operand (.call function [] :: stack))
    | _ => none
  | '.', _ =>
    match tree with
    | .leaf (.name table) => some (.member stack table)
    | _ => none
  | _, _ => none

/-- Reads a token. -/
def step : Progress → TokenKind → Option Progress
  | .operand stack, kind => stepOperand stack kind
  | .behind stack tree, .word word => (keyword? word).bind (stepWord stack tree)
  | .behind stack tree, .mark c => stepMark stack tree c
  | .operator start stack tree, kind =>
    match start.joined? kind with
    | some op => some (.operand (shift op stack tree))
    | none => start.alone?.bind fun op => stepOperand (shift op stack tree) kind
  | .member stack table, .name name => some (.behind stack (.member table (.name name)))
  | .member stack table, .word name => some (.behind stack (.member table (.word name)))
  | .cast stack, .mark '(' => some (.operand (.cast :: stack))
  | .type stack tree, .word type => some (.close stack (.cast tree type))
  | .close stack tree, .mark ')' => some (.behind stack tree)
  | .case stack, .word word =>
    if keyword? word = some .when then some (.operand (.when :: stack)) else none
  | _, _ => none

section Equations

variable (stack : List Frame) (tree : Tree)

@[simp] theorem step_operand (kind : TokenKind) :
    step (.operand stack) kind = stepOperand stack kind :=
  rfl

theorem stepOperand_word {word : String} (h : isOperand word) :
    stepOperand stack (.word word) = some (.behind stack (.leaf (.word word))) := by
  unfold isOperand at h
  unfold stepOperand
  split at h
  case h_5 => simp only
  all_goals cases h

@[simp] theorem step_word (word : String) :
    step (.behind stack tree) (.word word) = (keyword? word).bind (stepWord stack tree) :=
  rfl

@[simp] theorem step_mark (c : Char) :
    step (.behind stack tree) (.mark c) = stepMark stack tree c :=
  rfl

theorem step_operator (start : OperatorStart) (kind : TokenKind) :
    step (.operator start stack tree) kind =
      match start.joined? kind with
      | some op => some (.operand (shift op stack tree))
      | none => start.alone?.bind fun op => stepOperand (shift op stack tree) kind :=
  rfl

end Equations

/-- The tree of all tokens of an expression. -/
def tree? (kinds : List TokenKind) : Option Tree :=
  match kinds.foldlM step (.operand []) with
  | some (.behind stack tree) =>
    match reduce 0 stack tree with
    | ([], tree) => some tree
    | _ => none
  | _ => none

/-! ## Tokens that are read as a tree -/

/-- No operator of at least a precedence waits for the operand. -/
def Fits (opening : Nat) (stack : List Frame) : Prop :=
  ∀ least, opening ≤ least → ∀ tree, reduce least stack tree = (stack, tree)

/-- The tokens are read as the tree behind operators below the precedence `opening`, and in front
of those up to the precedence `closing`. -/
structure Reads (opening closing : Nat) (ks : List TokenKind) (tree : Tree) : Prop where
  starts : ∃ kind ∈ ks.head?, kind ≠ TokenKind.mark '=' ∧ kind ≠ TokenKind.mark '>'
  run : ∀ stack, Fits opening stack → ∃ stack' tree',
    ks.foldlM step (.operand stack) = some (.behind stack' tree') ∧
      ∀ least ≤ closing, reduce least stack' tree' = reduce least stack tree

/-- The tokens are read as arguments up to a closing parenthesis. -/
def ReadsAll (ks : List TokenKind) (trees : List Tree) : Prop :=
  ∀ function done stack,
    (ks ++ [TokenKind.mark ')']).foldlM step (.operand (.call function done :: stack)) =
      some (.behind stack (.call function (done ++ trees)))

theorem Fits.mono {opening opening' : Nat} {stack : List Frame} (h : Fits opening stack)
    (hle : opening ≤ opening') : Fits opening' stack :=
  fun least hleast => h least (hle.trans hleast)

theorem fits_binary {op : SqlOperator} {opening : Nat} (h : op.precedence < opening) (left : Tree)
    (stack : List Frame) : Fits opening (.binary op left :: stack) := by
  intro least hleast tree
  rw [reduce, if_neg (by omega)]

theorem fits_unary {op : SqlPrefix} {opening : Nat} (h : op.precedence < opening)
    (stack : List Frame) : Fits opening (.unary op :: stack) := by
  intro least hleast tree
  rw [reduce, if_neg (by omega)]

namespace Reads

variable {o c o' c' : Nat} {ks ks' : List TokenKind} {t left right : Tree}

theorem mono (h : Reads o c ks t) (ho : o' ≤ o) (hc : c' ≤ c) : Reads o' c' ks t := by
  refine ⟨h.starts, fun stack hstack => ?_⟩
  obtain ⟨stack', tree', hrun, hreduce⟩ := h.run stack (hstack.mono ho)
  exact ⟨stack', tree', hrun, fun least hleast => hreduce least (hleast.trans hc)⟩

theorem tree?_eq (h : Reads o c ks t) : tree? ks = some t := by
  have hempty : ∀ least tree, reduce least [] tree = ([], tree) := fun _ _ => rfl
  obtain ⟨stack', tree', hrun, hreduce⟩ := h.run [] fun least _ tree => hempty least tree
  rw [tree?, hrun]
  simp only [hreduce 0 (Nat.zero_le c), hempty]

/-- One token that is an operand. -/
theorem leaf {kind : TokenKind} (hstart : kind ≠ .mark '=' ∧ kind ≠ .mark '>')
    (h : ∀ stack, stepOperand stack kind = some (.behind stack (.leaf kind))) :
    Reads o c [kind] (.leaf kind) :=
  ⟨⟨kind, rfl, hstart⟩, fun stack _ => ⟨stack, .leaf kind, by simp [h], fun _ _ => rfl⟩⟩

/-- A column behind the name of its table. -/
theorem member {table : String} {kind : TokenKind}
    (hkind : ∃ name, kind = .word name ∨ kind = .name name) :
    Reads o c [.name table, .mark '.', kind] (.member table kind) := by
  refine ⟨⟨_, rfl, by simp⟩, fun stack _ => ⟨stack, .member table kind, ?_, fun _ _ => rfl⟩⟩
  obtain ⟨name, rfl | rfl⟩ := hkind <;> simp [stepOperand, stepMark, step]

theorem unary {kind : TokenKind} {op : SqlPrefix}
    (hstart : kind ≠ .mark '=' ∧ kind ≠ .mark '>')
    (hkind : ∀ stack, stepOperand stack kind = some (.operand (.unary op :: stack)))
    (h : Reads o' c' ks t) (ho : op.precedence < o') :
    Reads o (min op.precedence c') (kind :: ks) (.unary op t) := by
  refine ⟨⟨kind, rfl, hstart⟩, fun stack _ => ?_⟩
  obtain ⟨stack', tree', hrun, hreduce⟩ := h.run (.unary op :: stack) (fits_unary ho stack)
  refine ⟨stack', tree', ?_, fun least hleast => ?_⟩
  · rw [List.foldlM_cons, step, hkind]
    exact hrun
  · rw [hreduce least (hleast.trans (Nat.min_le_right _ _)), reduce,
      if_pos (hleast.trans (Nat.min_le_left _ _))]

/-- An operator between its operands. In front of it the left one is whole, and behind it the right
one is. -/
theorem binary {op : SqlOperator} {between : List TokenKind} (hleft : Reads o c ks left)
    (hop : ∀ stack tree, (between ++ ks').foldlM step (.behind stack tree) =
      ks'.foldlM step (.operand (shift op stack tree)))
    (hright : Reads o' c' ks' right) (hc : op.precedence ≤ c) (ho : op.precedence < o') :
    Reads (min op.precedence o) (min op.precedence c') (ks ++ (between ++ ks'))
      (.binary op left right) := by
  refine ⟨?_, fun stack hstack => ?_⟩
  · obtain ⟨kind, hkind, hstart⟩ := hleft.starts
    exact ⟨kind, List.mem_head?_append_of_mem_head? hkind, hstart⟩
  · obtain ⟨stack₁, tree₁, hrun₁, hreduce₁⟩ :=
      hleft.run stack (hstack.mono (Nat.min_le_right _ _))
    have hshift : shift op stack₁ tree₁ = .binary op left :: stack := by
      rw [shift, hreduce₁ _ hc, hstack _ (Nat.min_le_left _ _)]
    obtain ⟨stack₂, tree₂, hrun₂, hreduce₂⟩ :=
      hright.run (.binary op left :: stack) (fits_binary ho left stack)
    refine ⟨stack₂, tree₂, ?_, fun least hleast => ?_⟩
    · rw [List.foldlM_append, hrun₁]
      exact (hop stack₁ tree₁).trans (hshift ▸ hrun₂)
    · rw [hreduce₂ least (hleast.trans (Nat.min_le_right _ _)), reduce,
        if_pos (hleast.trans (Nat.min_le_left _ _))]

/-- Parentheses around an expression. -/
theorem group (h : Reads 0 0 ks t) : Reads o c (.mark '(' :: (ks ++ [.mark ')'])) t := by
  refine ⟨⟨_, rfl, by decide⟩, fun stack _ => ?_⟩
  obtain ⟨stack', tree', hrun, hreduce⟩ := h.run (.group :: stack) fun _ _ _ => rfl
  have hclose : stepMark stack' tree' ')' = some (.behind stack t) := by
    simp [stepMark, hreduce 0 (Nat.le_refl 0), reduce]
  refine ⟨stack, t, ?_, fun _ _ => rfl⟩
  simp [stepOperand, hrun, hclose]

end Reads

/-! ## Operators -/

/-- The tokens of an operator. -/
def SqlOperator.kinds : SqlOperator → List TokenKind
  | .shared (.compare op) =>
    match op with
    | .equal => [.mark '=']
    | .notEqual => [.mark '<', .mark '>']
    | .less => [.mark '<']
    | .greater => [.mark '>']
    | .lessEqual => [.mark '<', .mark '=']
    | .greaterEqual => [.mark '>', .mark '=']
    | .like => [.word "LIKE"]
    | .unlike => [.word "NOT", .word "LIKE"]
  | .shared (.connect .and) => [.word "AND"]
  | .shared (.connect .or) => [.word "OR"]
  | .shared (.compute op) =>
    match op with
    | .add => [.mark '+']
    | .subtract => [.mark '-']
    | .multiply => [.mark '*']
    | .divide => [.mark '/']
    | .modulo => [.mark '%']
  | .is => [.word "IS"]
  | .isNot => [.word "IS", .word "NOT"]
  | .escape => [.word "ESCAPE"]
  | .concat => [.mark '|', .mark '|']

/-- An operand behind `<` or `>` is no part of the operator. -/
theorem OperatorStart.joined?_eq_none {kind : TokenKind}
    (h : kind ≠ .mark '=' ∧ kind ≠ .mark '>') :
    OperatorStart.less.joined? kind = none ∧ OperatorStart.greater.joined? kind = none := by
  constructor <;> unfold joined? <;> split <;> simp_all

/-- An operator waits for the operand behind it. Behind `IS` an operand could still be a part of
the operator. -/
theorem foldlM_kinds {op : SqlOperator} {ks : List TokenKind} (hop : op ≠ .is)
    (hstarts : ∃ kind ∈ ks.head?, kind ≠ TokenKind.mark '=' ∧ kind ≠ TokenKind.mark '>')
    (stack : List Frame) (tree : Tree) :
    (op.kinds ++ ks).foldlM step (.behind stack tree) =
      ks.foldlM step (.operand (shift op stack tree)) := by
  obtain ⟨kind, hkind, hstart⟩ := hstarts
  obtain ⟨rest, rfl⟩ := List.head?_eq_some_iff.mp hkind
  obtain ⟨hless, hgreater⟩ := OperatorStart.joined?_eq_none hstart
  rcases op with ((_ | _ | _ | _ | _ | _ | _ | _) | (_ | _) | (_ | _ | _ | _ | _)) | _ | _ | _ | _
  case is => exact absurd rfl hop
  case shared.compare.less =>
    simp [SqlOperator.kinds, stepMark, step_operator, hless, OperatorStart.alone?]
  case shared.compare.greater =>
    simp [SqlOperator.kinds, stepMark, step_operator, hgreater, OperatorStart.alone?]
  all_goals
    simp [SqlOperator.kinds, stepMark, stepWord, step_operator, OperatorStart.joined?]

/-- The operand of a test for `NULL` may be all of a comparison. -/
theorem foldlM_isNull (stack : List Frame) (tree : Tree) :
    ([.word "IS", .word "NULL"] : List TokenKind).foldlM step (.behind stack tree) =
      [TokenKind.word "NULL"].foldlM step (.operand (shift .is stack tree)) := by
  simp [stepWord, step_operator, OperatorStart.joined?, OperatorStart.alone?]

/-! ## Calls -/

namespace ReadsAll

variable {ks ks' : List TokenKind} {t : Tree} {ts : List Tree}

theorem one (h : Reads 0 0 ks t) : ReadsAll ks [t] := by
  intro function done stack
  obtain ⟨stack', tree', hrun, hreduce⟩ := h.run (.call function done :: stack) fun _ _ _ => rfl
  have hclose : stepMark stack' tree' ')' =
      some (.behind stack (.call function (done ++ [t]))) := by
    simp [stepMark, hreduce 0 (Nat.le_refl 0), reduce]
  rw [List.foldlM_append, hrun]
  simp [hclose]

theorem more (h : Reads 0 0 ks t) (hts : ReadsAll ks' ts) :
    ReadsAll (ks ++ .mark ',' :: ks') (t :: ts) := by
  intro function done stack
  obtain ⟨stack', tree', hrun, hreduce⟩ := h.run (.call function done :: stack) fun _ _ _ => rfl
  have hcomma : stepMark stack' tree' ',' =
      some (.operand (.call function (done ++ [t]) :: stack)) := by
    simp [stepMark, hreduce 0 (Nat.le_refl 0), reduce]
  rw [List.append_assoc, List.foldlM_append, hrun]
  simpa [hcomma] using hts function (done ++ [t]) stack

end ReadsAll

namespace Reads

variable {o c : Nat} {ks ks₁ ks₂ ks₃ : List TokenKind} {t t₁ t₂ t₃ : Tree} {ts : List Tree}
  {function : String}

theorem call (hfunction : isOperand function) (h : ReadsAll ks ts) :
    Reads o c (.word function :: .mark '(' :: (ks ++ [.mark ')'])) (.call function ts) := by
  refine ⟨⟨_, rfl, by simp⟩, fun stack _ => ⟨stack, _, ?_, fun _ _ => rfl⟩⟩
  simpa [stepOperand_word, stepMark, hfunction] using h function [] stack

theorem callNone (hfunction : isOperand function) :
    Reads o c [.word function, .mark '(', .mark ')'] (.call function []) := by
  refine ⟨⟨_, rfl, by simp⟩, fun stack _ => ⟨stack, _, ?_, fun _ _ => rfl⟩⟩
  rw [List.foldlM_cons, step_operand, stepOperand_word stack hfunction]
  simp [stepMark, stepOperand]

/-- The call of a function on all rows. -/
theorem callAll (hfunction : isOperand function) :
    Reads o c [.word function, .mark '(', .mark '*', .mark ')']
      (.call function [.leaf (.mark '*')]) := by
  refine ⟨⟨_, rfl, by simp⟩, fun stack _ => ⟨stack, _, ?_, fun _ _ => rfl⟩⟩
  rw [List.foldlM_cons, step_operand, stepOperand_word stack hfunction]
  simp [stepMark, stepOperand, reduce]

theorem cast (h : Reads 0 0 ks t) (type : String) :
    Reads o c (.word "CAST" :: .mark '(' :: (ks ++ [.word "AS", .word type, .mark ')']))
      (.cast t type) := by
  refine ⟨⟨_, rfl, by simp⟩, fun stack _ => ⟨stack, _, ?_, fun _ _ => rfl⟩⟩
  obtain ⟨stack', tree', hrun, hreduce⟩ := h.run (.cast :: stack) fun _ _ _ => rfl
  have hword : stepWord stack' tree' .as = some (.type stack t) := by
    simp [stepWord, hreduce 0 (Nat.le_refl 0), reduce]
  have hopen : step (.cast stack) (.mark '(') = some (.operand (.cast :: stack)) := rfl
  have htype : step (.type stack t) (.word type) = some (.close stack (.cast t type)) := rfl
  have hclose : step (.close stack (.cast t type)) (.mark ')') =
      some (.behind stack (.cast t type)) := rfl
  simp [stepOperand, hrun, hword, hopen, htype, hclose]

/-- A choice, whose parts stand between words. -/
theorem choice (h₁ : Reads 0 0 ks₁ t₁) (h₂ : Reads 0 0 ks₂ t₂) (h₃ : Reads 0 0 ks₃ t₃) :
    Reads o c (.word "CASE" :: .word "WHEN" :: (ks₁ ++ .word "THEN" ::
      (ks₂ ++ .word "ELSE" :: (ks₃ ++ [.word "END"])))) (.choice t₁ t₂ t₃) := by
  refine ⟨⟨_, rfl, by simp⟩, fun stack _ => ⟨stack, _, ?_, fun _ _ => rfl⟩⟩
  obtain ⟨stack₁, tree₁, hrun₁, hreduce₁⟩ := h₁.run (.when :: stack) fun _ _ _ => rfl
  obtain ⟨stack₂, tree₂, hrun₂, hreduce₂⟩ := h₂.run (.thenIs t₁ :: stack) fun _ _ _ => rfl
  obtain ⟨stack₃, tree₃, hrun₃, hreduce₃⟩ := h₃.run (.elseIs t₁ t₂ :: stack) fun _ _ _ => rfl
  have hstep₁ : stepWord stack₁ tree₁ .then = some (.operand (.thenIs t₁ :: stack)) := by
    simp [stepWord, hreduce₁ 0 (Nat.le_refl 0), reduce]
  have hstep₂ : stepWord stack₂ tree₂ .else = some (.operand (.elseIs t₁ t₂ :: stack)) := by
    simp [stepWord, hreduce₂ 0 (Nat.le_refl 0), reduce]
  have hstep₃ : stepWord stack₃ tree₃ .end = some (.behind stack (.choice t₁ t₂ t₃)) := by
    simp [stepWord, hreduce₃ 0 (Nat.le_refl 0), reduce]
  have hwhen : step (.case stack) (.word "WHEN") = some (.operand (.when :: stack)) := by
    simp [step]
  simp [stepOperand, hwhen, hrun₁, hrun₂, hrun₃, hstep₁, hstep₂, hstep₃]

end Reads

end PipeSql.Sql
