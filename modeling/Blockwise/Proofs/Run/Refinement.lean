import Blockwise.Proofs.Program.Exactness
import Blockwise.Proofs.Run.Simulation

/-!
# Scheduling does not change results

Whatever the order of the worker's steps and the supervisor's calls, the worker shows what the
sequential run with the submitted lines shows, no more than that and in the same order, and when
it ends, the two end alike.
-/

namespace Blockwise

namespace Session

variable {program : Program} {s : Session} {e : Engine}

/-- The session has come along the sequential run of the program, and `e` is its worker. -/
structure Tracks (program : Program) (s : Session) (e : Engine) : Prop where
  engine : s.run.engine = some e
  stage : s.run.stage = .running
  cancelled : s.run.signals.cancelled = false
  stops : e.wires.stops = 0
  built : e.program = program
  coherent : e.Coherent s.run.signals.failed (s.reported ++ e.wires.errors.toList)
  output : s.printed ++ e.wires.output.toList = s.shown.filterMap Observation.line?
  reference : ∃ cost, ∀ more blocks,
    program.reference (s.submitted ++ more) (cost + blocks) =
      (e.remaining (e.wires.input.toList ++ more) (s.reported ++ e.wires.errors.toList)
        blocks).after s.shown

/-!
# The worker's steps

A step of the worker shows what comes next in the sequential run.
-/

theorem Tracks.work (h : s.Tracks program e) (chance : Chance) :
    ∃ e', (s.step (.work chance)).Tracks program e' := by
  have hmoves := Engine.moves_step chance h.cancelled h.stops
  have hcancelled := Engine.step_cancelled chance s.run.signals e
  have hstep : s.step (.work chance) =
      { s with
        run := { s.run with
          signals := (e.step chance s.run.signals).1
          engine := some (e.step chance s.run.signals).2 }
        shown := s.shown ++ e.shown (e.step chance s.run.signals).2 } := by
    simp [Session.step, Run.work, shownBy, h.engine]
  rcases h.reference with ⟨cost, hreference⟩
  rcases hmoves.remaining h.coherent with ⟨cost', hremaining⟩
  refine ⟨(e.step chance s.run.signals).2, ?_⟩
  rw [hstep]
  refine ⟨rfl, h.stage, hcancelled.trans h.cancelled, hmoves.stops.trans h.stops,
    hmoves.program.trans h.built, hmoves.coherent h.coherent, ?_, cost + cost', ?_⟩
  · rw [hmoves.output, List.filterMap_append, Engine.lines_shown, ← List.append_assoc, h.output]
  · intro more blocks
    rw [Nat.add_assoc, hreference, hremaining, Account.after_after]

/-!
# The supervisor's calls

A call leaves the worker alone.  A line that is submitted is read after those that were submitted
before it.
-/

theorem Tracks.call (h : s.Tracks program e) {r : Run} (hengine : r.engine = s.run.engine)
    (hstage : r.stage = s.run.stage) (hcancelled : r.signals.cancelled = s.run.signals.cancelled)
    (hfailed : r.signals.failed = s.run.signals.failed) :
    Tracks program { s with run := r } e := by
  refine ⟨?_, ?_, ?_, h.stops, h.built, ?_, h.output, h.reference⟩
  · exact hengine.trans h.engine
  · exact hstage.trans h.stage
  · exact hcancelled.trans h.cancelled
  · rw [hfailed]
    exact h.coherent

theorem Tracks.submit (h : s.Tracks program e) (line : String) :
    ∃ e', (s.step (.submit line)).Tracks program e' := by
  rcases h.reference with ⟨cost, hreference⟩
  by_cases hended : e.phase = .ended
  · have hsubmit : (s.run.submit line).2 = s.run := by
      simp [Run.submit, Run.isLive, h.engine, hended, Phase.isEnded]
    refine ⟨e, ?_⟩
    simp only [Session.step, hsubmit]
    refine ⟨h.engine, h.stage, h.cancelled, h.stops, h.built, h.coherent, h.output, cost, ?_⟩
    -- Nothing takes the line, but nothing is left to be read either.
    intro more blocks
    rw [List.append_assoc, hreference]
    simp only [Engine.remaining, hended]
  · have hlive : s.run.isLive = true := by
      simp only [Run.isLive, h.engine, Option.any_some, Bool.not_eq_true']
      exact Bool.eq_false_iff.mpr (mt Phase.eq_ended_of_isEnded hended)
    refine ⟨{ e with wires := { e.wires with input := e.wires.input.send line } }, ?_⟩
    simp only [Session.step, Run.submit, hlive, if_true]
    refine ⟨?_, h.stage, h.cancelled, h.stops, h.built, ?_, h.output, cost, ?_⟩
    · simp [Run.withEngine, h.engine]
    · exact ⟨h.coherent.steps, h.coherent.store, h.coherent.phase, h.coherent.reports⟩
    · intro more blocks
      rw [List.append_assoc, hreference, Channel.toList_send, List.append_assoc]
      rfl

theorem Tracks.drainOutput (h : s.Tracks program e) :
    ∃ e', (s.step .drainOutput).Tracks program e' := by
  refine ⟨{ e with wires := { e.wires with output := e.wires.output.drain.2 } }, ?_⟩
  have hdrain := Channel.drain_append e.wires.output
  simp only [Session.step, Run.drainOutput, h.engine]
  refine ⟨rfl, h.stage, h.cancelled, h.stops, h.built, ?_, ?_, h.reference⟩
  · exact ⟨h.coherent.steps, h.coherent.store, h.coherent.phase, h.coherent.reports⟩
  · rw [List.append_assoc, hdrain]
    exact h.output

theorem Tracks.drainErrors (h : s.Tracks program e) :
    ∃ e', (s.step .drainErrors).Tracks program e' := by
  have hdrain := Channel.drain_append e.wires.errors
  refine ⟨{ e with wires := { e.wires with errors := e.wires.errors.drain.2 } }, ?_⟩
  simp only [Session.step, Run.drainErrors, h.engine]
  refine ⟨rfl, h.stage, h.cancelled, h.stops, h.built, ?_, h.output, ?_⟩
  · rw [List.append_assoc, hdrain]
    exact ⟨h.coherent.steps, h.coherent.store, h.coherent.phase, h.coherent.reports⟩
  · rw [List.append_assoc, hdrain]
    exact h.reference

theorem Tracks.drainUpdates (h : s.Tracks program e) :
    ∃ e', (s.step .drainUpdates).Tracks program e' := by
  refine ⟨{ e with wires := { e.wires with updates := e.wires.updates.drain.2 } }, ?_⟩
  simp only [Session.step, Run.drainUpdates, h.engine]
  refine ⟨rfl, h.stage, h.cancelled, h.stops, h.built, ?_, h.output, h.reference⟩
  exact ⟨h.coherent.steps, h.coherent.store, h.coherent.phase, h.coherent.reports⟩

theorem Tracks.step (h : s.Tracks program e) (event : Event) :
    ∃ e', (s.step event).Tracks program e' := by
  cases event with
  | work chance => exact h.work chance
  | pause =>
      refine ⟨e, h.call ?_ ?_ ?_ ?_⟩
      all_goals
        unfold Run.pause
        split <;> rfl
  | resume =>
      refine ⟨e, h.call ?_ ?_ ?_ ?_⟩
      all_goals
        unfold Run.resume
        split <;> rfl
  | advance =>
      refine ⟨e, h.call ?_ ?_ ?_ ?_⟩
      all_goals
        unfold Run.advance
        split <;> rfl
  | setDelay delay => exact ⟨e, h.call rfl rfl rfl rfl⟩
  | submit line => exact h.submit line
  | drainOutput => exact h.drainOutput
  | drainErrors => exact h.drainErrors
  | drainUpdates => exact h.drainUpdates

theorem Tracks.perform (h : s.Tracks program e) (events : List Event) :
    ∃ e', (s.perform events).Tracks program e' := by
  induction events generalizing s e with
  | nil => exact ⟨e, h⟩
  | cons event events ih =>
      rcases h.step event with ⟨e', h'⟩
      exact ih h'

theorem tracks_start {chart : Chart} (hbuild : Program.build chart = .ok program) (delay : Nat) :
    (start delay chart).Tracks program (.new program) := by
  have hstart : ((Run.new delay).start chart).2 =
      { Run.new delay with stage := .running, engine := some (.new program) } := by
    simp [Run.start, Run.new, hbuild]
  have hcoherent := Engine.coherent_new hbuild
  unfold start
  rw [hstart]
  refine ⟨rfl, rfl, rfl, rfl, rfl, hcoherent, rfl, 0, ?_⟩
  intro more blocks
  rw [Nat.zero_add]
  rfl

/-!
# What the supervisor is told

The run is stopped when the worker has ended, for a failure if one was signalled.
-/

theorem Tracks.front (h : s.Tracks program e) :
    ∃ blocks, s.shown <+: (program.reference s.submitted blocks).shown := by
  rcases h.reference with ⟨cost, hreference⟩
  have hcost := hreference [] 0
  rw [List.append_nil, Nat.add_zero] at hcost
  refine ⟨cost, ?_⟩
  rw [hcost]
  exact List.prefix_append _ _

theorem Tracks.output_eq (h : s.Tracks program e) :
    s.output = s.shown.filterMap Observation.line? := by
  rw [← h.output, Session.output, h.engine]
  rfl

theorem Tracks.faults_eq (h : s.Tracks program e) :
    s.faults = s.reported ++ e.wires.errors.toList := by
  rw [faults, h.engine]
  rfl

theorem Tracks.state_eq (h : s.Tracks program e) :
    s.run.state =
      if s.run.isLive then if s.run.signals.paused then .paused else .running
      else .stopped (if s.run.signals.failed then .error else .finished) := by
  have hactive : Run.isActiveStage s.run.stage = true := by
    rw [h.stage]
    rfl
  unfold Run.state Run.endReason?
  rw [if_pos hactive, h.cancelled]
  cases s.run.isLive with
  | true => rfl
  | false => cases s.run.signals.failed <;> rfl

theorem Tracks.isLive_iff (h : s.Tracks program e) :
    s.run.isLive = false ↔ ∃ reason, s.run.state = .stopped reason := by
  rw [h.state_eq]
  cases s.run.isLive with
  | true => cases s.run.signals.paused <;> simp
  | false => simp

/-!
# Ended runs

A failure is signalled exactly if a fault was sent, and no more than one was.  The session of the
example is paused before it has a line to read, and goes on by a step and then freely.
-/

theorem Tracks.ended (h : s.Tracks program e) (hlive : s.run.isLive = false) :
    e.phase = .ended := by
  simp only [Run.isLive, h.engine, Option.any_some, Bool.not_eq_false'] at hlive
  exact Phase.eq_ended_of_isEnded hlive

theorem Tracks.account (h : s.Tracks program e) (hlive : s.run.isLive = false) :
    ∃ blocks, program.reference s.submitted blocks =
      ⟨s.shown, some (.ofFaults s.faults)⟩ := by
  rcases h.reference with ⟨cost, hreference⟩
  have hcost := hreference [] 0
  refine ⟨cost, ?_⟩
  simpa [Engine.remaining, h.ended hlive, Account.after, h.faults_eq] using hcost

theorem Tracks.reports (h : s.Tracks program e) (hlive : s.run.isLive = false) :
    s.run.state = .stopped .finished ∧ s.faults = [] ∨
      s.run.state = .stopped .error ∧ ∃ fault, s.faults = [fault] := by
  have hreports := h.coherent.reports
  rw [h.ended hlive, ← h.faults_eq] at hreports
  rw [h.state_eq, hlive]
  rcases hreports with ⟨hfailed, hfaults⟩ | ⟨hfailed, hfaults⟩
  · exact Or.inl ⟨by simp [hfailed], hfaults⟩
  · exact Or.inr ⟨by simp [hfailed], hfaults⟩

theorem Tracks.ending_iff (h : s.Tracks program e) (hlive : s.run.isLive = false)
    (ending : Ending) :
    (∃ blocks, (program.reference s.submitted blocks).ending = some ending) ↔
      ending = .ofFaults s.faults := by
  rcases h.account hlive with ⟨blocks, haccount⟩
  exact Program.ends_iff (by rw [haccount])

/-- Whatever the order of events, what the worker shows is the front of what the sequential run
shows, and the lines that it sends are those that it shows.  When it ends, it has shown all, and
its state and its faults tell how the sequential run ends. -/
theorem perform_follows_reference {chart : Chart} {program : Program}
    (hbuild : Program.build chart = .ok program) (delay : Nat) (events : List Event) :
    let s := (start delay chart).perform events
    let reference := program.reference s.submitted
    (∃ blocks, s.shown <+: (reference blocks).shown) ∧
    s.output = s.shown.filterMap Observation.line? ∧
    (s.run.isLive = false ↔ ∃ reason, s.run.state = .stopped reason) ∧
    (s.run.isLive = false →
      (∃ blocks, (reference blocks).shown = s.shown ∧ (reference blocks).ending.isSome) ∧
      (s.run.state = .stopped .finished ↔
        ∃ blocks, (reference blocks).ending = some .finished) ∧
      ∀ fault, s.run.state = .stopped .error ∧ s.faults = [fault] ↔
        ∃ blocks, (reference blocks).ending = some (.failed fault)) := by
  rcases (tracks_start hbuild delay).perform events with ⟨e, h⟩
  refine ⟨h.front, h.output_eq, h.isLive_iff, ?_⟩
  intro hlive
  rcases h.account hlive with ⟨blocks, haccount⟩
  refine ⟨⟨blocks, by rw [haccount], by rw [haccount]; rfl⟩, ?_, ?_⟩
  · rw [h.ending_iff hlive]
    rcases h.reports hlive with ⟨hstate, hfaults⟩ | ⟨hstate, fault, hfaults⟩
    · simp [hstate, hfaults, Ending.ofFaults]
    · simp [hstate, hfaults, Ending.ofFaults]
  · intro fault
    rw [h.ending_iff hlive]
    rcases h.reports hlive with ⟨hstate, hfaults⟩ | ⟨hstate, sent, hfaults⟩
    · simp [hstate, hfaults, Ending.ofFaults]
    · simp [hstate, hfaults, Ending.ofFaults, eq_comm]

def echo : Chart where
  start := ⟨0⟩
  blocks :=
    [⟨⟨0⟩, "", .start (some ⟨1⟩)⟩, ⟨⟨1⟩, "read s as String", .input (some ⟨2⟩)⟩,
      ⟨⟨2⟩, "s", .output (some ⟨3⟩)⟩, ⟨⟨3⟩, "", .finish⟩]

def echoProgram : Program where
  entry := ⟨1⟩
  steps :=
    [(⟨1⟩, ⟨.sequence [.set "s" (.read "s" .string) true], .next ⟨2⟩⟩),
      (⟨2⟩, ⟨.write (.get "s"), .next ⟨3⟩⟩)]

def echoEvents : List Event :=
  [.pause] ++ List.replicate 8 (.work (.inOrder true)) ++ [.submit "Ada", .advance] ++
    List.replicate 12 (.work (.inOrder true)) ++ [.drainOutput, .resume] ++
    List.replicate 20 (.work (.inOrder true))

theorem perform_follows_reference_echo :
    Program.build echo = .ok echoProgram ∧
      ((start 500 echo).perform echoEvents).run.state = .stopped .finished ∧
      ∃ blocks, (echoProgram.reference ["Ada"] blocks).ending = some .finished := by
  have hbuild : Program.build echo = .ok echoProgram := by cbv
  have hstate : ((start 500 echo).perform echoEvents).run.state = .stopped .finished := by cbv
  have hfollows := perform_follows_reference hbuild 500 echoEvents
  have hlive := hfollows.2.2.1.mpr ⟨.finished, hstate⟩
  exact ⟨hbuild, hstate, (hfollows.2.2.2 hlive).2.1.mp hstate⟩

end Session
end Blockwise
