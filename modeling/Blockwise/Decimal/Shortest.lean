import Blockwise.Decimal

/-!
# Shortest decimals

A double prints as the decimal with the fewest digits among those that read back to it, and of
those the nearest one; of two equally near the larger.  The decimals that read back to a
magnitude form an interval around it, with its ends if the mantissa is even.  Going from coarse
to fine powers of ten, the first grid with a point in the interval is the answer's, and a grid
with a point there has one among the two neighbours of the magnitude.
-/

namespace Blockwise
namespace Decimal

structure Interval where
  low : Nat
  value : Nat
  high : Nat
  denominator : Nat
  closed : Bool
  deriving Repr

namespace Interval

/-- The fractions that round to the magnitude.  The doubles below a power of two are twice as
dense as those above it, so there the lower half is half as wide. -/
def around (magnitude : Nat) : Interval :=
  let m := Double.mantissa magnitude
  let e := Double.exponent magnitude
  let below := if m = Double.binade ∧ Double.leastExponent < e then 1 else 2
  let unit := Nat.pow 2 e.toNat
  { low := (4 * m - below) * unit
    value := 4 * m * unit
    high := (4 * m + 2) * unit
    denominator := 4 * Nat.pow 2 (-e).toNat
    closed := m % 2 = 0 }

def inUnits (i : Interval) (exponent : Int) : Interval :=
  let up := Nat.pow 10 (-exponent).toNat
  { i with
    low := i.low * up
    value := i.value * up
    high := i.high * up
    denominator := i.denominator * Nat.pow 10 exponent.toNat }

def has (i : Interval) (n : Nat) : Bool :=
  let point := n * i.denominator
  if i.closed then i.low ≤ point && point ≤ i.high else i.low < point && point < i.high

/-- The whole number in the interval that is nearest to the value, the larger of two. -/
def whole? (i : Interval) : Option Nat :=
  let down := i.value / i.denominator
  let up := down + 1
  let upIsNear := i.denominator ≤ 2 * (i.value % i.denominator)
  match i.has down, i.has up with
  | true, true => some (if upIsNear then up else down)
  | true, false => some down
  | false, true => some up
  | false, false => none

end Interval

def search (i : Interval) (exponent : Int) : (steps : Nat) → Option Decimal
  | 0 => none
  | steps + 1 =>
      match (i.inUnits exponent).whole? with
      | some n => some ⟨n, exponent⟩
      | none => search i (exponent - 1) steps

/-- The shortest decimal that reads back to a finite magnitude.

Seventeen digits tell all doubles apart; the search starts at most two powers of ten above the
first digit. -/
def shortest (magnitude : Nat) : Decimal :=
  if magnitude = 0 then ⟨0, 0⟩
  else
    let i := Interval.around magnitude
    let length (n : Nat) : Int := (Nat.toDigits 10 n).length
    (search i (length i.value - length i.denominator + 1) 20).getD ⟨0, 0⟩

end Decimal
end Blockwise
