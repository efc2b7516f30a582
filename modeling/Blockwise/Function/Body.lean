import Blockwise.Value.Operator

/-!
# What the built-in functions compute

A body takes its numbers in one of four shapes.  The shape fixes how many arguments a call may
have, so no body is ever run on a number of arguments that it does not expect.
-/

namespace Blockwise

inductive Arity where
  | exactly (count : Nat)
  | atLeast (least : Nat)
  | between (least most : Nat)
  deriving DecidableEq, Repr

namespace Arity

def admits : Arity → Nat → Bool
  | exactly count, n => n == count
  | atLeast least, n => least ≤ n
  | between least most, n => least ≤ n && n ≤ most

end Arity

namespace Function

inductive Body where
  | one (f : Float → Except Cause Float)
  | two (f : Float → Float → Except Cause Float)
  | oneOrTwo (f : Float → Option Float → Except Cause Float)
  | oneOrMore (f : Float → List Float → Except Cause Float)

namespace Body

def arity : Body → Arity
  | one _ => .exactly 1
  | two _ => .exactly 2
  | oneOrTwo _ => .between 1 2
  | oneOrMore _ => .atLeast 1

/-- Runs the body; there is no result for a number of arguments that its shape excludes. -/
def run? : Body → List Float → Option (Except Cause Float)
  | one f, [x] => some (f x)
  | two f, [x, y] => some (f x y)
  | oneOrTwo f, [x] => some (f x none)
  | oneOrTwo f, [x, y] => some (f x (some y))
  | oneOrMore f, x :: rest => some (f x rest)
  | _, _ => none

theorem isSome_run? (b : Body) (xs : List Float) :
    (b.run? xs).isSome = b.arity.admits xs.length := by
  match b, xs with
  | one _, [] => rfl
  | one _, [_] => rfl
  | one _, _ :: _ :: rest => simp [run?, arity, Arity.admits]
  | two _, [] => rfl
  | two _, [_] => rfl
  | two _, [_, _] => rfl
  | two _, _ :: _ :: _ :: rest => simp [run?, arity, Arity.admits]
  | oneOrTwo _, [] => rfl
  | oneOrTwo _, [_] => rfl
  | oneOrTwo _, [_, _] => rfl
  | oneOrTwo _, _ :: _ :: _ :: rest => simp [run?, arity, Arity.admits]
  | oneOrMore _, [] => rfl
  | oneOrMore _, _ :: rest => simp [run?, arity, Arity.admits]

end Body

/-!
# Rounding

A half goes to the even neighbour.  Whole numbers beyond 32 bits are taken for the nearest one
within.
-/

/-- The nearest whole number; a half goes to the even neighbour.  Among numbers of this size no
fraction fits beside `2 ^ 52`, so the addition itself rounds. -/
def nearestWhole (x : Float) : Float :=
  let wide : Float := 4503599627370496
  if x.abs < wide then
    let whole := (x.abs + wide) - wide
    if Double.isNegative x then -whole else whole
  else x

def truncate (x : Float) : Float :=
  if x < 0 then x.ceil else x.floor

def fraction (x : Float) : Float :=
  x - truncate x

def isWhole (x : Float) : Bool :=
  fraction x == 0

def isOdd (x : Float) : Bool :=
  x - 2 * (x / 2).floor == 1

def toWord32 (x : Float) : Int :=
  if x ≥ 2147483647 then 2147483647
  else if x ≤ -2147483648 then -2147483648
  else x.toInt64.toInt

def powerBySquaring (base product : Float) (n : Nat) : Float :=
  let product := if n % 2 = 1 then product * base else product
  if n / 2 = 0 then product else powerBySquaring (base * base) product (n / 2)
termination_by n
decreasing_by omega

def powerOfTen (n : Int) : Float :=
  let power := powerBySquaring 10 1 n.natAbs
  if n < 0 then 1 / power else power

/-!
# The bodies

Each function computes on as many numbers as its shape says, and fails where it has no value.
-/

def arcBody (self : Function) (f : Float → Float) (x : Float) : Except Cause Float :=
  if -1 ≤ x && x ≤ 1 then .ok (f x) else .error (.outsideDomain self x)

def roundBody (x : Float) : Option Float → Except Cause Float
  | none => .ok (nearestWhole x)
  | some places =>
      if isWhole places then
        let scale := powerOfTen (toWord32 places)
        .ok (nearestWhole (x * scale) / scale)
      else .error (.outsideDomain .round places)

def logBody (x : Float) (base : Option Float) : Except Cause Float :=
  if x ≤ 0 then .error (.outsideDomain .log x)
  else
    match base with
    | none => .ok x.log
    | some b =>
        if b ≤ 0 || b == 1 then .error (.outsideDomain .log b)
        else .ok (x.log / b.log)

def signBody (x : Float) : Float :=
  if x > 0 then 1 else if x < 0 then -1 else 0

def sqrtBody (x : Float) : Except Cause Float :=
  if x < 0 then .error (.outsideDomain .sqrt x) else .ok x.sqrt

/-- The root of a number; a negative one has odd whole roots only. -/
def rootBody (x n : Float) : Except Cause Float :=
  if n == 0 then .error (.outsideDomain .root n)
  else if x ≥ 0 then .ok (x.pow (1 / n))
  else if isWhole n && isOdd n then .ok (-((-x).pow (1 / n)))
  else .error (.outsideDomain .root x)

/-- The larger number, the second of two equal ones; what is not a number counts for nothing. -/
def larger (a b : Float) : Float :=
  if a.isNaN || b ≥ a then b else a

def smaller (a b : Float) : Float :=
  if a.isNaN || b ≤ a then b else a

def negativeInfinity : Float := Double.ofMagnitude true Double.infinity

def positiveInfinity : Float := Double.ofMagnitude false Double.infinity

def body : Function → Body
  | mod => .two Arithmetic.floorMod
  | sin => .one fun x => .ok x.sin
  | cos => .one fun x => .ok x.cos
  | tan => .one fun x => .ok x.tan
  | arcsin => .one (arcBody .arcsin Float.asin)
  | arccos => .one (arcBody .arccos Float.acos)
  | arctan => .one fun x => .ok x.atan
  | floor => .one fun x => .ok x.floor
  | ceil => .one fun x => .ok x.ceil
  | round => .oneOrTwo roundBody
  | log => .oneOrTwo logBody
  | sign => .one fun x => .ok (signBody x)
  | sqrt => .one sqrtBody
  | root => .two rootBody
  | max => .oneOrMore fun x rest => .ok ((x :: rest).foldl larger negativeInfinity)
  | min => .oneOrMore fun x rest => .ok ((x :: rest).foldl smaller positiveInfinity)
  | abs => .one fun x => .ok x.abs

/-!
# Calls

The arguments of a call are counted, then looked at one by one.
-/

def checkCount (f : Function) (received : Nat) : Except Cause Unit :=
  match f.body.arity with
  | .exactly count =>
      if received = count then .ok () else .error (.wrongCount f count received)
  | .atLeast least =>
      if least ≤ received then .ok () else .error (.tooFew f least received)
  | .between least most =>
      if received < least then .error (.tooFew f least received)
      else if most < received then .error (.tooMany f most received)
      else .ok ()

/-- The arguments as numbers, or the value that ends the call: the first argument that is an
error or that is of another type.  Arguments are counted from `index`. -/
def numbers (f : Function) (index : Nat) : List Value → Except Value (List Float)
  | [] => .ok []
  | .number x :: rest => do
      let xs ← numbers f (index + 1) rest
      return x :: xs
  | .error fault :: _ => .error (.error fault)
  | other :: _ => .error (.ofCause (.badArgument f index other.type))

/-- Runs the function on evaluated arguments.  Their number has been checked before; there is no
value for a number that the check refuses. -/
def invoke (f : Function) (args : List Value) : Value :=
  match f.numbers 1 args with
  | .error v => v
  | .ok xs =>
      match f.body.run? xs with
      | some result => BinaryOp.ofResult result
      | none => .empty

end Function

end Blockwise
