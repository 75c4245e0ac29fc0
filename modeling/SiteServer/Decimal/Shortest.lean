import SiteServer.Decimal.Binary64

/-! # The fewest decimal digits that read back as the same double.

Of the reals that round to a double, the end points included when its mantissa is even, the point
with the fewest significant digits is taken; of several, the nearest to the double. Where the double
lies halfway between two of them, a rule for ties decides. -/

namespace SiteServer.Decimal

/-- A decimal number `digits * 10 ^ exponent`. -/
structure Point where
  digits : Nat
  exponent : Int
  deriving DecidableEq, Repr

/-- Which of two points is taken when a number lies halfway between them: the one with an even last
digit, or the greater one. -/
inductive Tie where
  | even
  | up
  deriving DecidableEq, Repr

/-- The reals that round to one value, as numerators over a common denominator. -/
structure Interval where
  low : Nat
  value : Nat
  high : Nat
  denominator : Nat
  closed : Bool
  deriving DecidableEq, Repr

/-- The interval of a finite double that is not zero. -/
def Interval.ofBinary64 (x : Binary64) : Interval :=
  let scale := 1 <<< (x.power - 2).toNat
  let quarter := 4 * x.mantissa
  { low := (quarter - if x.isNarrowBelow then 1 else 2) * scale
    value := quarter * scale
    high := (quarter + 2) * scale
    denominator := 1 <<< (2 - x.power).toNat
    closed := x.mantissa % 2 = 0 }

/-- The power of ten of the leading digit of `value / denominator`. -/
def leadingExponent (value denominator : Nat) : Int :=
  if denominator ≤ value then ((Nat.toDigits 10 (value / denominator)).length : Int) - 1
  else -((List.range 400).findSome? fun (j : Nat) =>
    if denominator ≤ value * Nat.pow 10 j then some (j : Int) else none).getD 0

/-- A tie between a number and the next one falls to the former. -/
def Tie.keeps (tie : Tie) (below : Nat) : Bool :=
  tie = .even && below % 2 = 0

/-- The point of the grid with steps of `10 ^ step` that lies in the interval, the nearer of two. -/
def Interval.gridPoint? (i : Interval) (tie : Tie) (step : Int) : Option Point :=
  let up := Nat.pow 10 (-step).toNat
  let unit := i.denominator * Nat.pow 10 step.toNat
  let inside (d : Nat) : Bool :=
    if i.closed then i.low * up ≤ d * unit && d * unit ≤ i.high * up
    else i.low * up < d * unit && d * unit < i.high * up
  let below := i.value * up / unit
  let rest := 2 * (i.value * up - below * unit)
  let nearer := if rest < unit then below else if unit < rest then below + 1
    else if tie.keeps below then below else below + 1
  let other := if nearer = below then below + 1 else below
  if inside nearer then some ⟨nearer, step⟩ else if inside other then some ⟨other, step⟩ else none

/-- The shortest decimal that reads back as a finite double that is not zero, without its sign. -/
def shortest (tie : Tie) (x : Binary64) : Point :=
  let i := Interval.ofBinary64 x
  let leading := leadingExponent i.value i.denominator
  ((List.range 17).findSome? fun (k : Nat) => i.gridPoint? tie (leading - k)).getD ⟨x.mantissa, 0⟩

end SiteServer.Decimal
