import Blockwise.Decimal
import Blockwise.Run

/-!
# Options of the command line

A call names at most one chart file, and without one the demonstration chart is run.  Every option
may be given once, and its value is the next argument or follows an equals sign.
-/

namespace Blockwise

structure Options where
  chart : Option String
  delay : Option Nat
  headless : Bool
  catalog : Option String
  deriving DecidableEq, Repr

namespace Options

def none : Options where
  chart := .none
  delay := .none
  headless := false
  catalog := .none

def delayOr (o : Options) (standard : Nat) : Nat :=
  o.delay.getD standard

def withChart? (o : Options) (path : String) : Option Options :=
  if o.chart.isNone then some { o with chart := some path } else .none

/-- A delay is a whole number of 64 bits. -/
def withDelay? (o : Options) (text : String) : Option Options :=
  match o.delay, Numeral.integer? text.toList with
  | .none, some (.ofNat n) => if n < UInt64.size then some { o with delay := some n } else .none
  | _, _ => .none

def withHeadless? (o : Options) : Option Options :=
  if o.headless then .none else some { o with headless := true }

def withCatalog? (o : Options) (path : String) : Option Options :=
  if o.catalog.isNone then some { o with catalog := some path } else .none

def cutArgument (argument : String) : List Char × Option String :=
  match argument.toList.span (· ≠ '=') with
  | (name, _ :: value) => (name, some (String.ofList value))
  | (name, []) => (name, .none)

def addArguments? (o : Options) : List String → Option Options
  | [] => some o
  | argument :: rest =>
      match String.ofList (cutArgument argument).1, (cutArgument argument).2, rest with
      | "--headless", .none, rest => do addArguments? (← o.withHeadless?) rest
      | "--delay-ms", some value, rest => do addArguments? (← o.withDelay? value) rest
      | "--delay-ms", .none, value :: rest => do addArguments? (← o.withDelay? value) rest
      | "--catalog", some value, rest => do addArguments? (← o.withCatalog? value) rest
      | "--catalog", .none, value :: rest => do addArguments? (← o.withCatalog? value) rest
      | _, _, rest =>
          if argument.startsWith "-" then .none
          else do addArguments? (← o.withChart? argument) rest

def ofArguments? (arguments : List String) : Option Options :=
  none.addArguments? arguments

end Options

end Blockwise
