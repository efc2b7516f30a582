import Blockwise.Run
import Blockwise.Proofs.Run.Reference

/-!
# Sessions

A run from its start on, under any order of steps of its worker and calls of its supervisor, other
than to stop it.  A question of the supervisor changes nothing, so it is no event here.  The session
keeps the lines that were submitted, what was shown, and the lines and the faults that were taken.
-/

namespace Blockwise

inductive Event where
  | work (chance : Chance)
  | pause
  | resume
  | advance
  | setDelay (delay : Nat)
  | submit (line : String)
  | drainOutput
  | drainErrors
  | drainUpdates

namespace Engine

def sent (before after : Engine) : List String :=
  after.wires.output.toList.drop before.wires.output.toList.length

/-- What a step of the worker shows: the block whose evaluation it begins, or the variables that
it has after a block, and the lines that it sends. -/
def shown (before after : Engine) : List Observation :=
  let progress := match before.phase, after.phase with
    | .checking _, .talking _ _ => [Observation.entered before.current]
    | .talking _ _, .publishing _ value _ => [Observation.left value after.store]
    | _, _ => []
  progress ++ (before.sent after).map .wrote

end Engine

structure Session where
  run : Run
  submitted : List String
  printed : List String
  reported : List Fault
  shown : List Observation

namespace Session

def start (delay : Nat) (chart : Chart) : Session where
  run := ((Run.new delay).start chart).2
  submitted := []
  printed := []
  reported := []
  shown := []

def shownBy (before after : Run) : List Observation :=
  match before.engine, after.engine with
  | some e, some e' => e.shown e'
  | _, _ => []

def step (s : Session) : Event → Session
  | .work chance =>
      { s with
        run := s.run.work chance
        shown := s.shown ++ shownBy s.run (s.run.work chance) }
  | .pause => { s with run := s.run.pause }
  | .resume => { s with run := s.run.resume }
  | .advance => { s with run := s.run.advance }
  | .setDelay delay => { s with run := s.run.setDelay delay }
  | .submit line =>
      { s with run := (s.run.submit line).2, submitted := s.submitted ++ [line] }
  | .drainOutput =>
      { s with run := s.run.drainOutput.2, printed := s.printed ++ s.run.drainOutput.1 }
  | .drainErrors =>
      { s with run := s.run.drainErrors.2, reported := s.reported ++ s.run.drainErrors.1 }
  | .drainUpdates => { s with run := s.run.drainUpdates.2 }

def perform (s : Session) (events : List Event) : Session :=
  events.foldl step s

/-- All lines that the worker has sent: those that were taken, then those that were not. -/
def output (s : Session) : List String :=
  s.printed ++ (s.run.engine.map fun e => e.wires.output.toList).getD []

def faults (s : Session) : List Fault :=
  s.reported ++ (s.run.engine.map fun e => e.wires.errors.toList).getD []

end Session

end Blockwise
