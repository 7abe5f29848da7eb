import PipeSql.Proofs.Plan.Items
import PipeSql.Proofs.Rows.Stage

/-! # Outputs of a select list

The value that a select list gives under each name, and how resolving a name in the scope of the
list keeps the value that the name has in the row of the stages. -/

namespace PipeSql

open Query

variable {V : Type*}

/-! ## Values under a name -/

/-- The value of a select item, which the wildcard does not have. -/
def SelectItem.value? (M : Meaning V) (group : List (Row V)) (row : Row V) :
    SelectItem → Option V
  | .everything => none
  | .value expr _ => expr.value? M group row
  | .aggregate of => (Expr.aggregate of.function of.arguments).value? M group row

/-- The list starts with the wildcard. -/
def startsWithAll : List SelectItem → Bool
  | .everything :: _ => true
  | _ => false

/-- The value that select items give under a name: that of the first item of the name, or else
that of the column which the wildcard shows. -/
def outputOf? (M : Meaning V) (group : List (Row V)) (row : Row V) (items : List SelectItem)
    (name : String) : Option V :=
  match namedItem? items name with
  | some item => item.value? M group row
  | none => if startsWithAll items then row name else none

/-- The value that a plan gives under a name in a row of a group. -/
def Plan.output? (M : Meaning V) (plan : Plan) (group : List (Row V)) (row : Row V)
    (name : String) : Option V :=
  outputOf? M group row plan.select.listed name

theorem startsWithAll_overwrite {item : SelectItem} {name : String}
    (hitem : item.outputName? = some name) (items : List SelectItem) :
    startsWithAll (overwrite name item items) = startsWithAll items := by
  have hnot : ∀ rest, startsWithAll (item :: rest) = false := by
    intro rest
    cases item <;> simp_all [startsWithAll, SelectItem.outputName?]
  cases items with
  | nil => exact hnot []
  | cons first rest =>
    rw [overwrite]
    split
    · rename_i hfirst
      cases first <;> simp_all [startsWithAll, SelectItem.outputName?]
    · cases first <;> rfl

/-- Overwriting gives the new item under its name, and leaves all other outputs as they were. -/
theorem outputOf?_overwrite (M : Meaning V) (group : List (Row V)) (row : Row V)
    {item : SelectItem} {name : String} (hitem : item.outputName? = some name)
    (items : List SelectItem) (other : String) :
    outputOf? M group row (overwrite name item items) other =
      if other = name then item.value? M group row else outputOf? M group row items other := by
  unfold outputOf?
  rw [namedItem?_overwrite hitem, startsWithAll_overwrite hitem]
  by_cases h : other = name <;> simp [h]

/-- Items that are no wildcard give the row of their outputs. -/
theorem outputOf?_eq_ofOutputs {M : Meaning V} {group : List (Row V)} {row : Row V}
    {items : List SelectItem} {outputs : List (Option String × V)}
    (h : List.Forall₂ (fun item output => item ≠ .everything ∧ item.outputName? = output.1 ∧
      item.value? M group row = some output.2) items outputs) (name : String) :
    outputOf? M group row items name = Row.ofOutputs outputs name := by
  have hstart : startsWithAll items = false := by
    cases h with
    | nil => rfl
    | @cons item _ rest _ hitem _ =>
      cases item <;> simp_all [startsWithAll]
  unfold outputOf? namedItem?
  rw [hstart]
  clear hstart
  induction h with
  | nil => rfl
  | @cons item output items outputs hitem hrest ih =>
    obtain ⟨label, value⟩ := output
    obtain ⟨-, hname, hvalue⟩ := hitem
    cases label with
    | none => simpa [hname, Row.ofOutputs] using ih
    | some label =>
      by_cases h : label = name
      · simp [hname, h, hvalue, Row.ofOutputs, Row.set]
      · have hne : name ≠ label := fun he => h he.symm
        simpa [hname, h, hne, Row.ofOutputs, Row.set] using ih

theorem isSome_ofOutputs {outputs : List (Option String × V)} {name : String}
    (h : some name ∈ outputs.map Prod.fst) : (Row.ofOutputs outputs name).isSome := by
  induction outputs with
  | nil => simp at h
  | cons output outputs ih =>
    obtain ⟨label, value⟩ := output
    cases label with
    | none => exact ih (by simpa using h)
    | some label =>
      by_cases hname : name = label
      · simp [Row.ofOutputs, Row.set, hname]
      · have hrest : some name ∈ outputs.map Prod.fst := by simpa [hname] using h
        simpa [Row.ofOutputs, Row.set, hname] using ih hrest

/-! ## What a select list shows -/

/-- Select items show a row of the stages: under each name they have the value of its column. The
row has the columns that are in reach. -/
structure Shows (M : Meaning V) (group : List (Row V)) (row : Row V) (items : List SelectItem)
    (current : Row V) (names : List String) : Prop where
  output : ∀ name, outputOf? M group row items name = current name
  defined : ∀ name ∈ names, (current name).isSome

/-- A scope in which the given items are the outputs of the stages so far, and nothing is joined. -/
structure Scope.Reads (scope : Scope) (items : List SelectItem) : Prop where
  output : ∀ name, scope.output? name = namedItem? items name
  keys : scope.keys = []

theorem Plan.scope_reads {plan : Plan} (h : plan.joins = []) :
    plan.scope.Reads plan.select.listed where
  output name := by
    cases hselect : plan.select with
    | wildcard => simp [scope, outputs, hselect, Scope.output?, SelectList.listed, namedItem?,
        SelectItem.outputName?]
    | items list => simp [scope, outputs, hselect, Scope.output?, SelectList.listed, namedItem?]
  keys := by simp [scope, h]

namespace Shows

variable {M : Meaning V} {group : List (Row V)} {row : Row V} {items : List SelectItem}
  {current : Row V} {names : List String} {scope : Scope}

/-- A name in reach that nothing computes is a column of the source. -/
theorem source_of_namedItem?_eq_none (h : Shows M group row items current names) {name : String}
    (hname : name ∈ names) (hnone : namedItem? items name = none) : row name = current name := by
  have houtput := h.output name
  have hdefined := h.defined name hname
  simp only [outputOf?, hnone] at houtput
  split at houtput
  · exact houtput
  · rw [← houtput] at hdefined
    simp at hdefined

/-- What a name in reach stands for has the value of its column. -/
theorem value?_resolveColumn (h : Shows M group row items current names)
    (hscope : scope.Reads items) {inSelect : Bool}
    (hplace : inSelect = true ∨ ∀ item ∈ items, item.RowItem fun _ => True) {column : Column}
    (hbare : column.table = none) (hname : column.name ∈ names) :
    (scope.resolveColumn inSelect column).value? M group row = current.column? column := by
  have hcurrent : current.column? column = current column.name := by
    rw [Row.column?, hbare]
  have hsource : (Expr.column column).value? M group row = row column.name := by
    rw [Expr.value?, Row.column?, hbare]
  rw [hcurrent, Scope.resolveColumn, hbare, hscope.output]
  cases hitem : namedItem? items column.name with
  | none =>
    have hqualify : scope.qualify column = column := by simp [Scope.qualify, hscope.keys]
    simp only [Option.isSome_none, Bool.false_eq_true, if_false, hqualify, hsource]
    exact h.source_of_namedItem?_eq_none hname hitem
  | some item =>
    have houtput := h.output column.name
    simp only [outputOf?, hitem] at houtput
    cases item with
    | everything => exact absurd hitem namedItem?_ne_everything
    | value expr label => simpa [SelectItem.value?] using houtput
    | aggregate of =>
      rcases hplace with rfl | hplace
      · simpa [SelectItem.value?] using houtput
      · cases hplace _ (mem_of_namedItem? hitem)

/-- An expression whose columns are in reach has the same value behind resolving. -/
theorem value?_resolve (h : Shows M group row items current names) (hscope : scope.Reads items)
    {inSelect : Bool} (hplace : inSelect = true ∨ ∀ item ∈ items, item.RowItem fun _ => True)
    {expr : Expr} (hgroup : expr.Scalar ∨ group = [row])
    (hbare : ∀ c ∈ expr.columns, c.table = none) (hnames : ∀ c ∈ expr.columns, c.name ∈ names) :
    (scope.resolve inSelect expr).value? M group row = expr.valueIn? M current := by
  refine Expr.value?_mapColumns (hgroup.imp_right fun hg => ⟨hg, rfl⟩) fun c hc => ?_
  exact h.value?_resolveColumn hscope hplace (hbare c hc) (hnames c hc)

/-- An expression whose columns are in reach has a value. -/
theorem isSome_valueIn? (h : Shows M group row items current names) {expr : Expr}
    (hbare : ∀ c ∈ expr.columns, c.table = none) (hnames : ∀ c ∈ expr.columns, c.name ∈ names) :
    (expr.valueIn? M current).isSome := by
  refine Expr.isSome_value? fun member hmember c hc => ?_
  have hcurrent : member = current := by simpa using hmember
  rw [hcurrent, Row.column?, hbare c hc]
  exact h.defined c.name (hnames c hc)

end Shows

end PipeSql
