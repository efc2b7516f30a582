import Blockwise.Proofs.Run.Steps

/-!
# Steps of a worker that nobody stops

What the worker can do in one step while its run is not cancelled, with everything left out that
only matters to the supervisor.
-/

namespace Blockwise

namespace Engine

variable {e e' : Engine} {failed failed' : Bool}

/-- What a step can do while the run is not cancelled; the flags say whether a failure has been
signalled before and after it. -/
inductive Moves (e : Engine) (failed : Bool) : Bool → Engine → Prop where
  | enter : e.phase = .entering → Moves e failed failed (e.go .arriving)
  | arrive {step : Step} : e.phase = .arriving → e.program.get? e.current = some step →
      Moves e failed failed (e.go (.checking step))
  | finish : e.phase = .arriving → e.program.get? e.current = none →
      Moves e failed failed (e.go .ended)
  | begin {step : Step} : e.phase = .checking step →
      Moves e failed failed (e.go (.talking step (step.tree.evaluate e.store)))
  | fail {step : Step} {fault : Fault} {store : Store} :
      e.phase = .talking step (.done (.error fault, store)) →
      Moves e failed failed (e.go (.ofFault fault))
  | leave {step : Step} {value : Value} {store : Store} {listing : List (String × Value)} :
      e.phase = .talking step (.done (value, store)) → value.isError = false →
      Moves e failed failed { e with store := store, phase := .publishing step value listing }
  | write {step : Step} {line : String} {next : Talk} : e.phase = .talking step (.write line next) →
      Moves e failed failed
        { e with
          wires := { e.wires with output := e.wires.output.send line }
          phase := .talking step next }
  | ask {step : Step} {prompt : String} {next : Except Fault String → Talk} :
      e.phase = .talking step (.read prompt next) →
      Moves e failed failed (e.go (.waiting step .stops next))
  | look {step : Step} {wait wait' : Wait} {next : Except Fault String → Talk} :
      e.phase = .waiting step wait next → Moves e failed failed (e.go (.waiting step wait' next))
  | take {step : Step} {wait : Wait} {next : Except Fault String → Talk} {line : String}
      {input : Channel String} : e.phase = .waiting step wait next →
      e.wires.input.toList = line :: input.toList →
      Moves e failed failed
        { e with
          wires := { e.wires with input := input }
          phase := .answering step (next (.ok line)) }
  | answer {step : Step} {talk : Talk} : e.phase = .answering step talk →
      Moves e failed failed (e.go (.talking step talk))
  | linger {done : Step × Value} {phase : Phase} {updates : Channel (String × Value)} :
      e.phase.departing? = some done → phase.departing? = some done →
      Moves e failed failed
        { e with wires := { e.wires with updates := updates }, phase := phase }
  | depart {step : Step} {value : Value} : e.phase = .leaving step value →
      Moves e failed failed (e.go (.ofChoice step.successor value))
  | move {target : BlockId} : e.phase = .moving target →
      Moves e failed failed { e with current := target, phase := .arriving }
  | raise {fault : Fault} : e.phase = .failing fault →
      Moves e failed true (e.go (.reporting fault))
  | report {fault : Fault} : e.phase = .reporting fault →
      Moves e failed failed
        { e with
          wires := { e.wires with errors := e.wires.errors.send fault }
          phase := .quitting }
  | quit : e.phase = .quitting → Moves e failed failed (e.go .ended)
  | rest : e.phase = .ended → Moves e failed failed e

theorem Steps.moves {chance : Chance} {s s' : Signals} {done : List Deed}
    (h : Steps chance s e s' e' done) (hcancelled : s.cancelled = false)
    (hstops : e.wires.stops = 0) : Moves e s.failed s'.failed e' := by
  cases h with
  | enter hphase => exact Moves.enter hphase
  | arrive hphase hget => exact Moves.arrive hphase hget
  | finish hphase hget => exact Moves.finish hphase hget
  | obey _ h =>
      rw [hcancelled] at h
      cases h
  | begin hphase _ => exact Moves.begin hphase
  | fail hphase => exact Moves.fail hphase
  | leave hphase hvalue => exact Moves.leave hphase hvalue
  | write hphase => exact Moves.write hphase
  | ask hphase => exact Moves.ask hphase
  | look hphase => exact Moves.look hphase
  | interrupt _ h =>
      rcases h with h | h
      · rw [hcancelled] at h
        cases h
      · exact absurd hstops h
  | take hphase hline => exact Moves.take hphase hline
  | answer hphase => exact Moves.answer hphase
  | publish hphase | listed hphase | time hphase | wake hphase _ | hold hphase _ | pass hphase _
  | stay hphase _ | grant hphase _ | deny hphase _ =>
      exact Moves.linger (departing_of hphase rfl) rfl
  | doze hphase _ => exact Moves.linger (departing_of hphase rfl) (departing_of hphase rfl)
  | choose hphase _ hchoice | balk hphase _ hchoice | lapse hphase _ hchoice =>
      rw [← hchoice]
      exact Moves.depart hphase
  | move hphase => exact Moves.move hphase
  | raise hphase => exact Moves.raise hphase
  | report hphase => exact Moves.report hphase
  | quit hphase => exact Moves.quit hphase
  | rest hphase => exact Moves.rest hphase

theorem moves_step (chance : Chance) {signals : Signals} (hcancelled : signals.cancelled = false)
    (hstops : e.wires.stops = 0) :
    Moves e signals.failed (e.step chance signals).1.failed (e.step chance signals).2 :=
  (steps_step chance signals e).moves hcancelled hstops

theorem step_cancelled (chance : Chance) (signals : Signals) (e : Engine) :
    (e.step chance signals).1.cancelled = signals.cancelled :=
  (steps_step chance signals e).cancelled

end Engine

end Blockwise
