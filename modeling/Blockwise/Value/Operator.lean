import Blockwise.Value

/-!
# Binary operators

The arithmetic, the comparisons and the concatenation of values.  The logical operators are not
here, because they do not always evaluate their right side.
-/

namespace Blockwise

inductive BinaryOp where
  | add
  | sub
  | mul
  | div
  | mod
  | pow
  | and
  | or
  | eq
  | ne
  | gt
  | lt
  | ge
  | le
  deriving DecidableEq, Repr

inductive UnaryOp where
  | negate
  | affirm
  | not
  deriving DecidableEq, Repr

namespace UnaryOp

def apply : UnaryOp → Value → Value
  | negate, v => v.negate
  | affirm, v => v.affirm
  | not, v => v.not

end UnaryOp

namespace Arithmetic

def floorMod (a b : Float) : Except Cause Float :=
  if b == 0 then .error .moduloByZero
  else .ok (a - b * (a / b).floor)

def divide (a b : Float) : Except Cause Float :=
  if b == 0 then .error .divisionByZero
  else .ok (a / b)

/-- A power that is a real number; a negative power of zero is a division by zero. -/
def power (a b : Float) : Except Cause Float :=
  if a == 0 && b < 0 then .error .divisionByZero
  else
    let result := a.pow b
    if result.isNaN then .error .notReal else .ok result

end Arithmetic

namespace BinaryOp

def text : BinaryOp → String
  | add => "+"
  | sub => "-"
  | mul => "*"
  | div => "/"
  | mod => "%"
  | pow => "^"
  | and => "and"
  | or => "or"
  | eq => "=="
  | ne => "!="
  | gt => ">"
  | lt => "<"
  | ge => ">="
  | le => "<="

def undefined (op : BinaryOp) (left right : Value) : Value :=
  .ofCause (.badOperands op.text left.type right.type)

def ofResult : Except Cause Float → Value
  | .ok x => .number x
  | .error c => .ofCause c

def onNumbers (op : BinaryOp) (a b : Float) : Value :=
  match op with
  | add => .number (a + b)
  | sub => .number (a - b)
  | mul => .number (a * b)
  | div => ofResult (Arithmetic.divide a b)
  | mod => ofResult (Arithmetic.floorMod a b)
  | pow => ofResult (Arithmetic.power a b)
  | eq => .boolean (a == b)
  | ne => .boolean (a != b)
  | gt => .boolean (a > b)
  | lt => .boolean (a < b)
  | ge => .boolean (a ≥ b)
  | le => .boolean (a ≤ b)
  | and | or => op.undefined (.number a) (.number b)

/-- Strings are compared character by character, by code point. -/
def onStrings (op : BinaryOp) (a b : String) : Value :=
  match op with
  | add => .string (a ++ b)
  | eq => .boolean (a == b)
  | ne => .boolean (a != b)
  | gt => .boolean (b < a)
  | lt => .boolean (a < b)
  | ge => .boolean (b ≤ a)
  | le => .boolean (a ≤ b)
  | sub | mul | div | mod | pow | and | or => op.undefined (.string a) (.string b)

def onBooleans (op : BinaryOp) (a b : Bool) : Value :=
  match op with
  | eq => .boolean (a == b)
  | ne => .boolean (a != b)
  | _ => op.undefined (.boolean a) (.boolean b)

/-- Operands of different types: they are never equal, and `+` joins texts if one of them is
a string. -/
def onMixed (op : BinaryOp) (left right : Value) : Value :=
  match op, left, right with
  | eq, _, _ => .boolean false
  | ne, _, _ => .boolean true
  | add, .string s, other => .string (s ++ other.text)
  | add, other, .string s => .string (other.text ++ s)
  | _, _, _ => op.undefined left right

/-- Applies the operator.  An error among the operands is the result, the left one first;
nothing is defined for the empty value. -/
def apply (op : BinaryOp) (left right : Value) : Value :=
  match left, right with
  | .error f, _ => .error f
  | _, .error f => .error f
  | .empty, _ => op.undefined left right
  | _, .empty => op.undefined left right
  | .number a, .number b => op.onNumbers a b
  | .string a, .string b => op.onStrings a b
  | .boolean a, .boolean b => op.onBooleans a b
  | _, _ => op.onMixed left right

@[simp] theorem apply_error_left (op : BinaryOp) (f : Fault) (v : Value) :
    op.apply (.error f) v = .error f := by
  cases v <;> rfl

end BinaryOp

end Blockwise
