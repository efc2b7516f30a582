import Blockwise.Decimal

/-!
# JSON values

The values that a JSON text stands for, with what a reader of charts asks of them beyond the
grammar.
-/

namespace Blockwise

/-- A JSON value.  A string is missing where its escapes leave half of a surrogate pair, since no
text holds that. -/
inductive Json where
  | null
  | bool (b : Bool)
  | natural (n : Nat)
  | decimal (text : List Char)
  | string (s : Option String)
  | array (items : List Json)
  | object (members : List (Option String × Json))
  deriving Inhabited

namespace Json

/-!
# The range of numbers

A number that is not a 64-bit word is read as its leading digits, as many as a word holds, times
a power of ten, and both factors are rounded to doubles before they are multiplied.  So the
largest number in range depends a little on how many digits it is written with.
-/

/-- The decimal with no more leading digits than fit a 64-bit word; the others are dropped. -/
def leading (coefficient : Nat) (exponent : Int) : Decimal :=
  if coefficient < UInt64.size then ⟨coefficient, exponent⟩
  else leading (coefficient / 10) (exponent + 1)
termination_by coefficient
decreasing_by
  have : 0 < UInt64.size := by decide
  omega

def greatestExponent : Int := 308

def isFinite (d : Decimal) : Bool :=
  d.coefficient = 0 || d.exponent ≤ 0 ||
    (d.exponent ≤ greatestExponent &&
      Double.product (Double.nearest d.coefficient 1) (Decimal.magnitude ⟨1, d.exponent⟩)
        < Double.infinity)

def inRange : Json → Bool
  | natural n => isFinite (leading n 0)
  | decimal text =>
      match Numeral.ofChars? text with
      | some n => isFinite (leading n.decimal.coefficient n.decimal.exponent)
      | none => false
  | _ => true

/-!
# Soundness

A value is sound if every string in it is a text, every number is in range, and lists and objects
nest no deeper than the depth.
-/

mutual

def isSound : (depth : Nat) → Json → Bool
  | _, null => true
  | _, bool _ => true
  | _, natural n => inRange (natural n)
  | _, decimal text => inRange (decimal text)
  | _, string s => s.isSome
  | depth, array items => 0 < depth && areSound (depth - 1) items
  | depth, object members => 0 < depth && membersAreSound (depth - 1) members

def areSound : (depth : Nat) → List Json → Bool
  | _, [] => true
  | depth, item :: rest => isSound depth item && areSound depth rest

def membersAreSound : (depth : Nat) → List (Option String × Json) → Bool
  | _, [] => true
  | depth, (key, value) :: rest =>
      key.isSome && isSound depth value && membersAreSound depth rest

end

def text (s : String) : Json :=
  string (some s)

def valuesOf (key : String) (members : List (Option String × Json)) : List Json :=
  (members.filter (fun m => m.1 = some key)).map Prod.snd

end Json

end Blockwise
