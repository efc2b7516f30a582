/-!
# Doubles by their bits

The bits of a double are a sign bit and a *magnitude* of 63 bits.  Below the magnitude of
infinity, a magnitude stands for a whole number of units, the unit being a power of two; above
it lie the values that are not numbers.  Everything here is exact arithmetic on natural
numbers, so that what is read from a text and what is written to one can be compared.
-/

namespace Blockwise
namespace Double

def signBit : Nat := 0x8000000000000000

def binade : Nat := 0x10000000000000

def infinity : Nat := 0x7FF * binade

def leastExponent : Int := -1074

def magnitude (x : Float) : Nat :=
  x.toBits.toNat % signBit

def isNegative (x : Float) : Bool :=
  signBit ≤ x.toBits.toNat

def ofMagnitude (negative : Bool) (magnitude : Nat) : Float :=
  Float.ofBits (UInt64.ofNat (magnitude + if negative then signBit else 0))

/-- How many units a finite magnitude counts. -/
def mantissa (magnitude : Nat) : Nat :=
  if magnitude / binade = 0 then magnitude else binade + magnitude % binade

/-- The power of two that is the unit of a finite magnitude. -/
def exponent (magnitude : Nat) : Int :=
  leastExponent + (magnitude / binade - 1 : Nat)

/-!
# The nearest double

A fraction is scaled by a power of two that its size says, and the whole number next to it is the
mantissa.
-/

/-- `num / den` as a whole number; a half goes to the even neighbour. -/
def roundHalfEven (num den : Nat) : Nat :=
  let quotient := num / den
  let twice := 2 * (num % den)
  if twice < den then quotient
  else if den < twice then quotient + 1
  else quotient + quotient % 2

def scale (num den : Nat) (exponent : Int) : Nat × Nat :=
  if 0 ≤ exponent then (num, den * Nat.pow 2 exponent.toNat)
  else (num * Nat.pow 2 (-exponent).toNat, den)

def log2Ratio (num den : Nat) : Int :=
  let guess : Int := (num.log2 : Int) - den.log2
  let (n, d) := scale num den guess
  if d ≤ n then guess else guess - 1

/-- The magnitude of the double nearest to `num / den`; a tie goes to the even mantissa.

A mantissa that rounding carries to the next power of two carries into the exponent by the
same addition, up to infinity. -/
def nearest (num den : Nat) : Nat :=
  if num = 0 then 0
  else
    let unit := max (log2Ratio num den - 52) leastExponent
    let (n, d) := scale num den unit
    min infinity ((unit - leastExponent).toNat * binade + roundHalfEven n d)

def toFraction (magnitude : Nat) : Nat × Nat :=
  let e := exponent magnitude
  (mantissa magnitude * Nat.pow 2 e.toNat, Nat.pow 2 (-e).toNat)

def product (a b : Nat) : Nat :=
  nearest ((toFraction a).1 * (toFraction b).1) ((toFraction a).2 * (toFraction b).2)

def ofInt (i : Int) : Float :=
  ofMagnitude (i < 0) (nearest i.natAbs 1)

@[simp] theorem nearest_zero (den : Nat) : nearest 0 den = 0 := rfl

end Double
end Blockwise
