import Blockwise.Double

/-!
# Decimals

A decimal is a natural coefficient and a power of ten.  It is what a numeral in a text says,
before it is rounded to a double, and what a double prints as.
-/

namespace Blockwise

structure Decimal where
  coefficient : Nat
  exponent : Int
  deriving DecidableEq, Repr

namespace Decimal

/-- The magnitude of the nearest double.

The first two tests only keep the powers of ten small: a decimal with so many places before
the point is beyond every finite double, and one with so few is nearer to zero than to the
smallest positive double. -/
def magnitude (d : Decimal) : Nat :=
  let places : Int := (Nat.toDigits 10 d.coefficient).length + d.exponent
  if d.coefficient = 0 then 0
  else if 310 < places then Double.infinity
  else if places < -330 then 0
  else if 0 ≤ d.exponent then Double.nearest (d.coefficient * Nat.pow 10 d.exponent.toNat) 1
  else Double.nearest d.coefficient (Nat.pow 10 (-d.exponent).toNat)

/-- The decimal in positional notation, never with an exponent. -/
def positional (d : Decimal) : List Char :=
  let digits := Nat.toDigits 10 d.coefficient
  if 0 ≤ d.exponent then digits ++ List.replicate d.exponent.toNat '0'
  else
    let places := (-d.exponent).toNat
    let padded := List.replicate (places + 1 - digits.length) '0' ++ digits
    padded.take (padded.length - places) ++ '.' :: padded.drop (padded.length - places)

end Decimal

/-!
# Numerals

The numerals that a text may hold: an optional sign, digits with at most one point among them,
and an optional power of ten.  Only ASCII digits count.
-/

structure Numeral where
  negative : Bool
  decimal : Decimal
  deriving DecidableEq, Repr

namespace Numeral

def digitsValue (digits : List Char) : Nat :=
  Nat.ofDigitChars 10 digits 0

def isDigits (cs : List Char) : Bool :=
  !cs.isEmpty && cs.all Char.isDigit

def splitSign : List Char → Bool × List Char
  | '-' :: cs => (true, cs)
  | '+' :: cs => (false, cs)
  | cs => (false, cs)

/-- A sign and digits, as an integer. -/
def integer? (cs : List Char) : Option Int :=
  let (negative, digits) := splitSign cs
  if isDigits digits then
    some (if negative then -(digitsValue digits : Int) else digitsValue digits)
  else none

/-- The power of ten at the end of a numeral: nothing, or `e` and an integer. -/
def power? : List Char → Option Int
  | [] => some 0
  | mark :: cs => if mark = 'e' ∨ mark = 'E' then integer? cs else none

def ofParts (whole fraction : List Char) (power : Int) : Decimal :=
  ⟨digitsValue (whole ++ fraction), power - fraction.length⟩

/-- A numeral without its sign.  Digits may be missing on one side of the point only. -/
def unsigned? (cs : List Char) : Option Decimal :=
  let whole := cs.takeWhile Char.isDigit
  match cs.dropWhile Char.isDigit with
  | '.' :: rest =>
      let fraction := rest.takeWhile Char.isDigit
      if whole.isEmpty && fraction.isEmpty then none
      else (power? (rest.dropWhile Char.isDigit)).map (ofParts whole fraction)
  | rest => if whole.isEmpty then none else (power? rest).map (ofParts whole [])

def ofChars? (cs : List Char) : Option Numeral :=
  let (negative, rest) := splitSign cs
  (unsigned? rest).map (Numeral.mk negative)

def toFloat (n : Numeral) : Float :=
  Double.ofMagnitude n.negative n.decimal.magnitude

end Numeral

end Blockwise
