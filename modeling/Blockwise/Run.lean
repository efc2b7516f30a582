import Blockwise.Run.Worker

/-!
# Runs

A run as its supervisor sees it: started once, watched, paused and stopped.  A run is used only
once; after it has stopped it never runs again.  Its stage is the state as of the last call, for the
worker may have ended since.  There is an engine, the worker with its channels, from the start of
the run until it is stopped, and the known variables are those that the supervisor has been told of.
-/

namespace Blockwise

inductive StopReason where
  | finished
  | error
  | aborted
  | buildFailed
  deriving DecidableEq, Repr

inductive RunState where
  | idle
  | building
  | running
  | paused
  | stopped (reason : StopReason)
  deriving DecidableEq, Repr

structure Run where
  delay : Nat
  stage : RunState
  signals : Signals
  engine : Option Engine
  known : Dictionary Value

namespace Run

def defaultDelay : Nat := 500

def new (delay : Nat) : Run where
  delay := delay
  stage := .idle
  signals := .new delay
  engine := none
  known := ∅

/-!
# What the supervisor can ask

The state of a run is that of its stage, unless the worker has ended since.
-/

def isLive (r : Run) : Bool :=
  r.engine.any fun e => !e.phase.isEnded

def endReason? (r : Run) : Option StopReason :=
  if r.isLive then none
  else if r.signals.failed then some .error
  else if r.signals.cancelled then some .aborted
  else some .finished

def isActiveStage : RunState → Bool
  | .running | .paused => true
  | _ => false

def state (r : Run) : RunState :=
  if isActiveStage r.stage then
    match r.endReason? with
    | some reason => .stopped reason
    | none => if r.signals.paused then .paused else .running
  else r.stage

def isPaused (r : Run) : Bool :=
  r.state = .paused

def current? (r : Run) : Option BlockId :=
  r.signals.current?

def failed (r : Run) : Bool :=
  r.signals.failed

def prompt? (r : Run) : Option String :=
  r.signals.prompt

/-!
# What the supervisor can do

A call works on a run at the running stage only, and does nothing on any other.
-/

/-- Builds the chart and starts a worker on it, in the idle state only.  The errors of a chart
that does not build are returned, and then nothing is started. -/
def start (r : Run) (chart : Chart) : List BuildError × Run :=
  if r.stage = .idle then
    let r := { r with stage := .building }
    match Program.build chart with
    | .ok program => ([], { r with stage := .running, engine := some (.new program) })
    | .error errors => (errors, { r with stage := .stopped .buildFailed })
  else ([], r)

/-- A request for a step that is still open is dropped, so that it cannot undo a later pause. -/
def pause (r : Run) : Run :=
  if r.state = .running then
    { r with signals := { r.signals with step := false, paused := true } }
  else r

def resume (r : Run) : Run :=
  if r.state = .paused then
    { r with signals := { r.signals with step := false, paused := false } }
  else r

def advance (r : Run) : Run :=
  if r.state = .paused then
    { r with signals := { r.signals with step := true } }
  else r

def setDelay (r : Run) (delay : Nat) : Run :=
  { r with delay := delay, signals := { r.signals with delay := delay } }

def withEngine (r : Run) (f : Engine → Engine) : Run :=
  { r with engine := r.engine.map f }

def drainOutput (r : Run) : List String × Run :=
  match r.engine with
  | none => ([], r)
  | some e =>
      let (lines, output) := e.wires.output.drain
      (lines, { r with engine := some { e with wires := { e.wires with output := output } } })

def drainErrors (r : Run) : List Fault × Run :=
  match r.engine with
  | none => ([], r)
  | some e =>
      let (faults, errors) := e.wires.errors.drain
      (faults, { r with engine := some { e with wires := { e.wires with errors := errors } } })

def drainUpdates (r : Run) : List (String × Value) × Run :=
  match r.engine with
  | none => ([], r)
  | some e =>
      let (pairs, updates) := e.wires.updates.drain
      (pairs,
        { r with
          engine := some { e with wires := { e.wires with updates := updates } }
          known := r.known.insertAll pairs })

def submit (r : Run) (line : String) : Bool × Run :=
  if r.isLive then
    (true, r.withEngine fun e =>
      { e with wires := { e.wires with input := e.wires.input.send line } })
  else (false, r)

/-!
# Stopping

Stopping tells the worker to end, waits until it has, and gives up the channels.
-/

def cancel (r : Run) : Run :=
  let signalled := { r with signals := { r.signals with cancelled := true, paused := false } }
  signalled.withEngine fun e => { e with wires := { e.wires with stops := e.wires.stops + 1 } }

def close (r : Run) (reason : Option StopReason) : Run :=
  let stage := match r.stage with
    | .stopped r => .stopped r
    | _ => .stopped (reason.getD .aborted)
  { r with stage := stage, signals := { r.signals with prompt := none }, engine := none }

/-- The reason for which a run that is about to be stopped has already ended. -/
def earlierReason? (r : Run) : Option StopReason :=
  if isActiveStage r.stage then r.endReason? else none

/-!
# The worker at work

The worker takes one step at a time, and its supervisor may do anything in between.
-/

def work (chance : Chance) (r : Run) : Run :=
  match r.engine with
  | none => r
  | some e =>
      let (signals, e') := e.step chance r.signals
      { r with signals := signals, engine := some e' }

end Run

end Blockwise
