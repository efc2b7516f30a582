import Blockwise.Fault.Cause

/-!
# Values

What an evaluation yields.  Errors are values too: an operation that meets one hands it on.
-/

namespace Blockwise

inductive Value where
  | empty
  | number (x : Float)
  | string (s : String)
  | boolean (b : Bool)
  | error (f : Fault)
  deriving DecidableEq, Inhabited

namespace Value

def type : Value → ValueType
  | empty => .empty
  | number _ => .number
  | string _ => .string
  | boolean _ => .boolean
  | error _ => .error

def isError : Value → Bool
  | error _ => true
  | _ => false

def ofCause (c : Cause) : Value :=
  error c.fault

/-- The text of a value in output and in concatenations. -/
def text : Value → String
  | empty => ""
  | number x => Number.text x
  | string s => s
  | boolean b => Token.boolText b
  | error f => f.summary

/-!
# Casts

A number is true unless it is zero, a string unless it is empty.  Nothing can be cast to the types
of no value and of errors.
-/

def invalidCast (source target : ValueType) : Value :=
  ofCause (.badCast source target)

def toBoolean : Value → Value
  | error f => error f
  | empty => invalidCast .empty .boolean
  | boolean b => boolean b
  | number x => boolean (x != 0)
  | string s => boolean (!s.isEmpty)

def toText : Value → Value
  | error f => error f
  | empty => invalidCast .empty .string
  | string s => string s
  | number x => string (Number.text x)
  | boolean b => string (Token.boolText b)

def toNumber : Value → Value
  | error f => error f
  | empty => invalidCast .empty .number
  | number x => number x
  | boolean b => number (if b then 1 else 0)
  | string s =>
      match Number.ofText? s with
      | some x => number x
      | none => ofCause (.badNumber s)

def cast (v : Value) : ValueType → Value
  | .boolean => v.toBoolean
  | .string => v.toText
  | .number => v.toNumber
  | .empty => invalidCast v.type .empty
  | .error => invalidCast v.type .error

/-!
# Unary operators

A sign works on numbers only, and `not` on whatever can be cast to a truth value.
-/

def not (v : Value) : Value :=
  match v.toBoolean with
  | boolean b => boolean (!b)
  | other => other

def negate : Value → Value
  | error f => error f
  | number x => number (-x)
  | other => ofCause (.badOperand "-" other.type)

def affirm : Value → Value
  | error f => error f
  | number x => number x
  | other => ofCause (.badOperand "+" other.type)

@[simp] theorem toBoolean_error (f : Fault) : (error f).toBoolean = error f := rfl

@[simp] theorem toText_error (f : Fault) : (error f).toText = error f := rfl

@[simp] theorem toNumber_error (f : Fault) : (error f).toNumber = error f := rfl

end Value

end Blockwise
