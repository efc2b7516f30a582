import Blockwise.Dictionary

/-!
# Faults

A fault is an error as the program passes it around and shows it: a kind, the key of a message
template and the arguments that fill the template.  Its wording is chosen only when a catalog
renders it.
-/

namespace Blockwise

inductive FaultKind where
  | syntaxError
  | compError
  | typeError
  | valueError
  | mathError
  | varError
  | callError
  | interrupted
  deriving DecidableEq, Repr

namespace FaultKind

def label : FaultKind → String
  | syntaxError => "syntax_error"
  | compError => "comp_error"
  | typeError => "type_error"
  | valueError => "value_error"
  | mathError => "math_error"
  | varError => "var_error"
  | callError => "call_error"
  | interrupted => "interrupted"

def key (k : FaultKind) : String :=
  "error.name." ++ k.label

end FaultKind

structure Fault where
  kind : FaultKind
  message : String
  args : Dictionary String
  deriving DecidableEq

namespace Fault

/-- A fault by its keys alone, as it reads where no catalog is at hand. -/
def summary (f : Fault) : String :=
  f.kind.key ++ ": " ++ f.message

/-- Whether the fault only says that a pending read was called off. -/
def isInterruption (f : Fault) : Bool :=
  f.kind = .interrupted

end Fault

end Blockwise
