/-!
# Built-in functions

The names that a call may use without declaring them.  What each function computes is in
`Blockwise.Function.Body`.
-/

namespace Blockwise

inductive Function where
  | mod
  | sin
  | cos
  | tan
  | arcsin
  | arccos
  | arctan
  | floor
  | ceil
  | round
  | log
  | sign
  | sqrt
  | root
  | max
  | min
  | abs
  deriving DecidableEq, Repr

namespace Function

def name : Function → String
  | mod => "mod"
  | sin => "sin"
  | cos => "cos"
  | tan => "tan"
  | arcsin => "arcsin"
  | arccos => "arccos"
  | arctan => "arctan"
  | floor => "floor"
  | ceil => "ceil"
  | round => "round"
  | log => "log"
  | sign => "sign"
  | sqrt => "sqrt"
  | root => "root"
  | max => "max"
  | min => "min"
  | abs => "abs"

def all : List Function :=
  [mod, sin, cos, tan, arcsin, arccos, arctan, floor, ceil, round, log, sign, sqrt, root,
    max, min, abs]

theorem mem_all (f : Function) : f ∈ all := by
  cases f <;> decide

def ofName? (s : String) : Option Function :=
  all.find? (fun f => f.name = s)

theorem ofName?_name (f : Function) : ofName? f.name = some f := by
  cases f <;> decide +kernel

end Function

end Blockwise
