import Blockwise.Evaluation
import Blockwise.Program
import Blockwise.Run.Channel
import Blockwise.Run.Signals

/-!
# The worker

The worker carries out a program block by block: it evaluates the block it is at, publishes the
variables, rests for the delay, waits while the run is paused, and moves on.  Its work is cut
into steps, each of which reads or writes at most one of the things that it shares with the
supervisor, so that whatever the supervisor does in between is covered by doing it between two
steps.
-/

namespace Blockwise

/-- The channels of a run: lines that the program wrote, faults that ended it, the variables after
each block, and lines for its reads.  Requests to stop are counted until a read takes them. -/
structure Wires where
  output : Channel String
  errors : Channel Fault
  updates : Channel (String × Value)
  input : Channel String
  stops : Nat

namespace Wires

def new : Wires where
  output := .empty
  errors := .empty
  updates := .empty
  input := .empty
  stops := 0

end Wires

/-- What is left of the evaluation of a block. -/
abbrev Talk := Dialogue (Value × Store)

inductive Wait where
  | stops
  | cancellation
  | line
  deriving DecidableEq, Repr

/-- Where the worker stands.  It announces a block (`entering`, `moving`), looks it up, checks
whether the run is cancelled and evaluates the block.  In a read it waits with the prompt up, and
takes the prompt down when it has its answer.  It sends the variables one by one, looks up the delay
and rests for it.  Then it asks whether the run is paused (`holding`); in a pause it asks whether
the run is cancelled (`held`) and takes a request for a step (`stepping`), by turns.  Past the pause
it asks once more whether the run is cancelled, and goes on (`leaving`).  A worker whose block has
failed raises the signal, sends the fault and quits. -/
inductive Phase where
  | entering
  | arriving
  | checking (step : Step)
  | talking (step : Step) (talk : Talk)
  | waiting (step : Step) (wait : Wait) (next : Except Fault String → Talk)
  | answering (step : Step) (talk : Talk)
  | publishing (step : Step) (value : Value) (rest : List (String × Value))
  | timing (step : Step) (value : Value)
  | pacing (step : Step) (value : Value) (delay : Nat)
  | holding (step : Step) (value : Value)
  | held (step : Step) (value : Value)
  | stepping (step : Step) (value : Value)
  | leaving (step : Step) (value : Value)
  | moving (target : BlockId)
  | failing (fault : Fault)
  | reporting (fault : Fault)
  | quitting
  | ended

namespace Phase

/-- Where a fault leads: an interruption ends the run quietly. -/
def ofFault (fault : Fault) : Phase :=
  if fault.isInterruption then ended else failing fault

/-- Where the block's value leads. -/
def ofChoice (successor : Successor) (value : Value) : Phase :=
  match successor with
  | .next target => moving target
  | .branch onTrue onFalse =>
      match value.toBoolean with
      | .boolean true => moving onTrue
      | .boolean false => moving onFalse
      | .error fault => ofFault fault
      | other => ofFault (Cause.badCast other.type .boolean).fault

def isEnded : Phase → Bool
  | ended => true
  | _ => false

end Phase

structure Engine where
  program : Program
  current : BlockId
  store : Store
  phase : Phase
  wires : Wires

/-- What a step does not decide itself: whether the rest is over, and in which order the
variables are listed. -/
structure Chance where
  delayOver : Bool
  listing : Store → List (String × Value)
  listing_perm : ∀ store, (listing store).Perm store.entries

namespace Chance

def inOrder (delayOver : Bool) : Chance where
  delayOver := delayOver
  listing := fun store => store.entries
  listing_perm := fun store => List.Perm.refl store.entries

end Chance

namespace Engine

def new (program : Program) : Engine where
  program := program
  current := program.entry
  store := ∅
  phase := .entering
  wires := .new

def go (e : Engine) (phase : Phase) : Engine :=
  { e with phase := phase }

def talk (chance : Chance) (signals : Signals) (e : Engine) (step : Step) :
    Talk → Signals × Engine
  | .done (.error fault, _) => (signals, e.go (.ofFault fault))
  | .done (value, store) =>
      (signals, { e with store := store, phase := .publishing step value (chance.listing store) })
  | .write line next =>
      let wires := { e.wires with output := e.wires.output.send line }
      (signals, { e with wires := wires, phase := .talking step next })
  | .read prompt next =>
      ({ signals with prompt := some prompt }, e.go (.waiting step .stops next))

def wait (signals : Signals) (e : Engine) (step : Step) (next : Except Fault String → Talk) :
    Wait → Engine
  | .stops =>
      match e.wires.stops with
      | 0 => e.go (.waiting step .cancellation next)
      | n + 1 =>
          { e with
            wires := { e.wires with stops := n }
            phase := .answering step (next (.error Cause.interrupted.fault)) }
  | .cancellation =>
      if signals.cancelled then e.go (.answering step (next (.error Cause.interrupted.fault)))
      else e.go (.waiting step .line next)
  | .line =>
      match e.wires.input.receive? with
      | some (line, input) =>
          { e with
            wires := { e.wires with input := input }
            phase := .answering step (next (.ok line)) }
      | none => e.go (.waiting step .stops next)

def step (chance : Chance) (signals : Signals) (e : Engine) : Signals × Engine :=
  match e.phase with
  | .entering => ({ signals with current := e.current }, e.go .arriving)
  | .arriving =>
      match e.program.get? e.current with
      | some step => (signals, e.go (.checking step))
      | none => (signals, e.go .ended)
  | .checking step =>
      if signals.cancelled then (signals, e.go .ended)
      else (signals, e.go (.talking step (step.tree.evaluate e.store)))
  | .talking step talk => e.talk chance signals step talk
  | .waiting step wait next => (signals, e.wait signals step next wait)
  | .answering step talk => ({ signals with prompt := none }, e.go (.talking step talk))
  | .publishing step value [] => (signals, e.go (.timing step value))
  | .publishing step value (update :: rest) =>
      let wires := { e.wires with updates := e.wires.updates.send update }
      (signals, { e with wires := wires, phase := .publishing step value rest })
  | .timing step value => (signals, e.go (.pacing step value signals.delay))
  | .pacing step value delay =>
      if signals.cancelled then (signals, e.go .ended)
      else if delay = 0 || chance.delayOver then (signals, e.go (.holding step value))
      else (signals, e)
  | .holding step value =>
      if signals.paused then (signals, e.go (.held step value))
      else (signals, e.go (.leaving step value))
  | .held step value =>
      if signals.cancelled then (signals, e.go .ended)
      else (signals, e.go (.stepping step value))
  | .stepping step value =>
      if signals.step then ({ signals with step := false }, e.go (.leaving step value))
      else (signals, e.go (.holding step value))
  | .leaving step value =>
      if signals.cancelled then (signals, e.go .ended)
      else (signals, e.go (.ofChoice step.successor value))
  | .moving target =>
      ({ signals with current := target }, { e with current := target, phase := .arriving })
  | .failing fault => ({ signals with failed := true }, e.go (.reporting fault))
  | .reporting fault =>
      let wires := { e.wires with errors := e.wires.errors.send fault }
      (signals, { e with wires := wires, phase := .quitting })
  | .quitting => (signals, e.go .ended)
  | .ended => (signals, e)

end Engine

end Blockwise
