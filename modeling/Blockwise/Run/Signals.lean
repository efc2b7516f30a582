import Blockwise.Chart.Role

/-!
# Signals between a run and its supervisor

The worker that carries out a run and the supervisor that watches it share these values.  Each is
read and written on its own.  The worker announces the block that it is at, the reserved id before
it is at any, raises the failure of a block, and puts up what a pending read asks for.  The
supervisor pauses the run, requests a step from a worker that waits, cancels the run, and sets how
many milliseconds the worker rests after each block.
-/

namespace Blockwise

structure Signals where
  current : BlockId
  paused : Bool
  step : Bool
  failed : Bool
  cancelled : Bool
  delay : Nat
  prompt : Option String
  deriving DecidableEq, Repr

namespace Signals

def new (delay : Nat) : Signals where
  current := .reserved
  paused := false
  step := false
  failed := false
  cancelled := false
  delay := delay
  prompt := none

def current? (s : Signals) : Option BlockId :=
  if s.current = .reserved then none else some s.current

end Signals

end Blockwise
