import Blockwise.Run

/-!
# Runs at rest

A worker left alone comes to rest where it ends, where it waits for a line that nobody has sent,
where it is paused, or in a delay that the observer does not wait out.
-/

namespace Blockwise

/-- Someone who lets a worker run on: which delays they wait out, and how many steps they watch
at most. -/
structure Observer where
  waitsOut : Nat → Bool
  fuel : Nat

namespace Engine

/-- Whether no step of the worker would change anything that matters. -/
def isAtRest (waitsOut : Nat → Bool) (signals : Signals) (e : Engine) : Bool :=
  match e.phase with
  | .ended => true
  | .waiting _ _ _ => e.wires.input.isEmpty && e.wires.stops == 0 && !signals.cancelled
  | .pacing _ _ delay => delay != 0 && !waitsOut delay && !signals.cancelled
  | .holding _ _ | .held _ _ | .stepping _ _ =>
      signals.paused && !signals.step && !signals.cancelled
  | _ => false

end Engine

namespace Run

def isAtRest (waitsOut : Nat → Bool) (r : Run) : Bool :=
  r.engine.all (Engine.isAtRest waitsOut r.signals)

def settleFor (waitsOut : Nat → Bool) : (fuel : Nat) → Run → Run
  | 0, r => r
  | fuel + 1, r =>
      if r.isAtRest waitsOut then r
      else settleFor waitsOut fuel (r.work (Chance.inOrder true))

def settle (o : Observer) (r : Run) : Run :=
  settleFor o.waitsOut o.fuel r

def restingFor? (r : Run) : Option Nat :=
  match r.engine.map Engine.phase with
  | some (.pacing _ _ delay) => some delay
  | _ => none

def wake (r : Run) : Run :=
  if r.restingFor?.isSome then r.work (Chance.inOrder true) else r

/-- Stops the run: a cancelled worker comes to rest only by ending. -/
def stop (o : Observer) (r : Run) : Run :=
  (r.cancel.settle o).close r.earlierReason?

end Run

end Blockwise
