/-!
The shortest decimal text of a binary floating-point number: the fewest digits that read back as
the number, and of these the nearest to it, written without an exponent.
-/

namespace PipeSql.Text

/-- A finite positive binary number `4 * m * 2 ^ q` with the width of the interval below it that
rounds to it; above it the width is `2`, in the same unit `2 ^ q`. -/
structure Binary where
  m : Nat
  q : Int
  below : Nat

/-- The number of fractions that the bits of a double can hold, 2⁵². -/
def fractions : Nat := 4503599627370496

/-- The binary number of the magnitude bits of a finite double, unless it is zero. At a power of
two the numbers below are twice as close. -/
def binary? (bits : Nat) : Option Binary :=
  let fraction : Nat := bits % fractions
  let exponent : Nat := bits / fractions
  if exponent = 0 then
    if fraction = 0 then none else some ⟨fraction, -1076, 2⟩
  else
    some ⟨fractions + fraction, Int.ofNat exponent - 1077,
      if fraction = 0 && exponent ≠ 1 then 1 else 2⟩

/-- The number `x * 2 ^ q / 10 ^ k` as a fraction of natural numbers. -/
def onGrid (x : Nat) (q k : Int) : Nat × Nat :=
  (x * Nat.pow 2 q.toNat * Nat.pow 10 (-k).toNat, Nat.pow 2 (-q).toNat * Nat.pow 10 k.toNat)

/-- The exponent of the first digit of a binary number. -/
def Binary.exponent (b : Binary) : Int :=
  let (num, den) := onGrid (4 * b.m) b.q (-400)
  ((Nat.toDigits 10 (num / den)).length : Int) - 401

/-- The multiple `d` of `10 ^ k` reads back as the number: it lies between the ends of the
interval, which belong to it when `m` is even. -/
def Binary.readsBack (b : Binary) (k : Int) (d : Nat) : Bool :=
  let (low, den) := onGrid (4 * b.m - b.below) b.q k
  let (high, _) := onGrid (4 * b.m + 2) b.q k
  if b.m % 2 = 0 then low ≤ d * den && d * den ≤ high else low < d * den && d * den < high

/-- Of the two multiples of `10 ^ k` around the number, the nearest that reads back. -/
def Binary.onGrid? (b : Binary) (k : Int) : Option Nat :=
  let (num, den) := onGrid (4 * b.m) b.q k
  let d := num / den
  match b.readsBack k d, b.readsBack k (d + 1) with
  | true, true => some (if 2 * (num - d * den) ≤ den then d else d + 1)
  | true, false => some d
  | false, true => some (d + 1)
  | false, false => none

/-- The fewest digits that read back, with the exponent of the last one. Seventeen always do. -/
def Binary.digits (b : Binary) : List Char × Int :=
  let grids := (List.range 17).map fun n => b.exponent - Int.ofNat n
  match grids.findSome? fun k => (b.onGrid? k).map fun d => (d, k) with
  | some (d, k) => (Nat.toDigits 10 d, k)
  | none => ([], 0)

/-- Digits and the exponent of the last one, written without an exponent. -/
def positional (digits : List Char) (k : Int) : List Char :=
  let kept := (digits.reverse.dropWhile (· == '0')).reverse
  let k := k + (digits.length - kept.length : Nat)
  if 0 ≤ k then kept ++ List.replicate k.toNat '0'
  else
    let places := (-k).toNat
    let padded := List.replicate (places + 1 - kept.length) '0' ++ kept
    padded.take (padded.length - places) ++ '.' :: padded.drop (padded.length - places)

/-- The text of a double. -/
def floatText (x : Float) : String :=
  let bits := x.toBits.toNat
  let magnitude := bits % (2048 * fractions)
  let sign := if bits < 2048 * fractions then "" else "-"
  if 2047 * fractions < magnitude then "NaN"
  else if magnitude = 2047 * fractions then sign ++ "inf"
  else
    match binary? magnitude with
    | none => sign ++ "0"
    | some b => sign ++ String.ofList (positional b.digits.1 b.digits.2)

end PipeSql.Text
