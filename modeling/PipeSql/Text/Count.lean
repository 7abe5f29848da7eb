/-! Counts below 2⁶⁴ and their decimal spelling. -/

namespace PipeSql.Text

/-- The largest count, 2⁶⁴ - 1. -/
def maxCount : Nat := 18446744073709551615

/-- The number that a run of decimal digits spells. -/
def digitsValue (cs : List Char) : Nat :=
  cs.foldl (fun n c => 10 * n + (c.toNat - '0'.toNat)) 0

/-- A natural number: one or more decimal digits. -/
def natural? (cs : List Char) : Option Nat :=
  if cs.isEmpty || !cs.all Char.isDigit then none else some (digitsValue cs)

/-- A count: one or more decimal digits, maybe behind a plus sign, that spell at most
`maxCount`. -/
def count? (cs : List Char) : Option Nat :=
  (natural? (if cs.head? = some '+' then cs.tail else cs)).filter (· ≤ maxCount)

end PipeSql.Text
