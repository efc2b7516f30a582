import Blockwise.Proofs.Run.Steps
import Blockwise.Run.Rest
import Mathlib.Data.List.Induction

/-!
# Runs under watch

A run from before its start until after its end, under any order of steps of its worker and of
its supervisor.  A call of the supervisor that touches more than one of the things that it shares
with the worker is cut into steps in the same way as the work is, so that the worker may do
anything in between.
-/

namespace Blockwise

/-- Where the supervisor stands in a call.  To pause or to resume a run it drops the request for a
step first; to stop it, it cancels the run, tells a pending read, takes back a pause and waits for
the worker. -/
inductive Duty where
  | free
  | dropping (paused : Bool)
  | setting (paused : Bool)
  | requesting
  | cancelling (reason : Option StopReason)
  | notifying (reason : Option StopReason)
  | releasing (reason : Option StopReason)
  | joining (reason : Option StopReason)
  deriving DecidableEq

inductive Call where
  | start (chart : Chart)
  | pause
  | resume
  | advance
  | stop
  | setDelay (delay : Nat)
  | submit (line : String)
  | drainOutput
  | drainErrors
  | drainUpdates

namespace Call

/-- The calls that decide how far a run that has started may go. -/
def isControl : Call → Bool
  | pause | resume | advance | stop => true
  | _ => false

end Call

inductive Act where
  | work (chance : Chance)
  | call (call : Call)
  | proceed

namespace Act

def isAdvance : Act → Bool
  | call .advance => true
  | _ => false

end Act

/-!
# The parts of a call

The supervisor is free between two calls.  It enters a call at once where nothing else is shared,
and goes on with it step by step otherwise.  What the worker has done is noted all along, and the
states of the run as they are between two calls.
-/

namespace Run

def dropStep (r : Run) : Run :=
  { r with signals := { r.signals with step := false } }

def setPaused (r : Run) (paused : Bool) : Run :=
  { r with signals := { r.signals with paused := paused } }

def requestStep (r : Run) : Run :=
  { r with signals := { r.signals with step := true } }

def setCancelled (r : Run) : Run :=
  { r with signals := { r.signals with cancelled := true } }

def sendStop (r : Run) : Run :=
  r.withEngine fun e => { e with wires := { e.wires with stops := e.wires.stops + 1 } }

theorem engine_sendStop_of_none {r : Run} (h : r.engine = none) : r.sendStop.engine = none := by
  simp [sendStop, withEngine, h]

theorem engine_sendStop_of_some {r : Run} {e : Engine} (h : r.engine = some e) :
    r.sendStop.engine =
      some { e with wires := { e.wires with stops := e.wires.stops + 1 } } := by
  simp [sendStop, withEngine, h]

theorem exists_of_sendStop {r : Run} {e' : Engine} (h : r.sendStop.engine = some e') :
    ∃ e, r.engine = some e ∧
      e' = { e with wires := { e.wires with stops := e.wires.stops + 1 } } := by
  rcases Option.map_eq_some_iff.mp h with ⟨e, hengine, rfl⟩
  exact ⟨e, hengine, rfl⟩

end Run

structure Watch where
  run : Run
  duty : Duty
  deeds : List Deed
  reported : List Fault
  seen : List RunState

namespace Watch

def new (delay : Nat) : Watch where
  run := .new delay
  duty := .free
  deeds := []
  reported := []
  seen := [.idle]

def enter (w : Watch) : Call → Watch
  | .start chart => { w with run := (w.run.start chart).2 }
  | .pause => if w.run.state = .running then { w with duty := .dropping true } else w
  | .resume => if w.run.state = .paused then { w with duty := .dropping false } else w
  | .advance => if w.run.state = .paused then { w with duty := .requesting } else w
  | .stop => { w with duty := .cancelling w.run.earlierReason? }
  | .setDelay delay => { w with run := w.run.setDelay delay }
  | .submit line => { w with run := (w.run.submit line).2 }
  | .drainOutput => { w with run := w.run.drainOutput.2 }
  | .drainErrors =>
      { w with run := w.run.drainErrors.2, reported := w.reported ++ w.run.drainErrors.1 }
  | .drainUpdates => { w with run := w.run.drainUpdates.2 }

def proceed (w : Watch) : Watch :=
  match w.duty with
  | .free => w
  | .dropping paused => { w with run := w.run.dropStep, duty := .setting paused }
  | .setting paused => { w with run := w.run.setPaused paused, duty := .free }
  | .requesting => { w with run := w.run.requestStep, duty := .free }
  | .cancelling reason => { w with run := w.run.setCancelled, duty := .notifying reason }
  | .notifying reason => { w with run := w.run.sendStop, duty := .releasing reason }
  | .releasing reason => { w with run := w.run.setPaused false, duty := .joining reason }
  | .joining reason =>
      if w.run.isLive then w else { w with run := w.run.close reason, duty := .free }

def doneBetween (before after : Run) : List Deed :=
  match before.engine, after.engine with
  | some e, some e' => e.deeds e'
  | _, _ => []

def act (w : Watch) : Act → Watch
  | .work chance =>
      { w with
        run := w.run.work chance
        deeds := w.deeds ++ doneBetween w.run (w.run.work chance) }
  | .call call => if w.duty = .free then w.enter call else w
  | .proceed => w.proceed

def note (w : Watch) : Watch :=
  { w with seen := if w.duty = .free then w.seen ++ [w.run.state] else w.seen }

def step (w : Watch) (a : Act) : Watch :=
  (w.act a).note

def perform (w : Watch) (acts : List Act) : Watch :=
  acts.foldl step w

variable {w w' : Watch} {a : Act}

@[simp] theorem perform_nil (w : Watch) : w.perform [] = w := rfl

@[simp] theorem perform_cons (w : Watch) (a : Act) (acts : List Act) :
    w.perform (a :: acts) = (w.step a).perform acts := rfl

theorem perform_append (w : Watch) (acts acts' : List Act) :
    w.perform (acts ++ acts') = (w.perform acts).perform acts' := by
  simp [perform]

@[simp] theorem run_note (w : Watch) : w.note.run = w.run := rfl

@[simp] theorem duty_note (w : Watch) : w.note.duty = w.duty := rfl

@[simp] theorem deeds_note (w : Watch) : w.note.deeds = w.deeds := rfl

@[simp] theorem reported_note (w : Watch) : w.note.reported = w.reported := rfl

/-!
# Calls that nothing comes between

A stop that nothing but the last steps of the worker comes between is the run's own.
-/

theorem run_pause (h : w.duty = .free) :
    (w.perform [.call .pause, .proceed, .proceed]).run = w.run.pause := by
  unfold Run.pause
  by_cases hstate : w.run.state = .running
  · simp [step, act, enter, proceed, note, h, hstate, Run.dropStep, Run.setPaused]
  · simp [step, act, enter, proceed, note, h, hstate]

theorem run_resume (h : w.duty = .free) :
    (w.perform [.call .resume, .proceed, .proceed]).run = w.run.resume := by
  unfold Run.resume
  by_cases hstate : w.run.state = .paused
  · simp [step, act, enter, proceed, note, h, hstate, Run.dropStep, Run.setPaused]
  · simp [step, act, enter, proceed, note, h, hstate]

theorem run_advance (h : w.duty = .free) :
    (w.perform [.call .advance, .proceed]).run = w.run.advance := by
  unfold Run.advance
  by_cases hstate : w.run.state = .paused
  · simp [step, act, enter, proceed, note, h, hstate, Run.requestStep]
  · simp [step, act, enter, proceed, note, h, hstate]

theorem perform_works (w : Watch) (works : List Chance) :
    (w.perform (works.map .work)).run = works.foldl (fun r chance => r.work chance) w.run ∧
      (w.perform (works.map .work)).duty = w.duty := by
  induction works generalizing w with
  | nil => exact ⟨rfl, rfl⟩
  | cons chance works ih => exact ih (w.step (.work chance))

theorem exists_settleFor (waitsOut : Nat → Bool) (fuel : Nat) (r : Run) :
    ∃ works : List Chance,
      r.settleFor waitsOut fuel = works.foldl (fun r chance => r.work chance) r := by
  induction fuel generalizing r with
  | zero => exact ⟨[], rfl⟩
  | succ fuel ih =>
      unfold Run.settleFor
      split
      · exact ⟨[], rfl⟩
      · rcases ih (r.work (.inOrder true)) with ⟨works, hworks⟩
        exact ⟨.inOrder true :: works, hworks⟩

theorem run_stop (h : w.duty = .free) (o : Observer)
    (hended : (w.run.cancel.settle o).isLive = false) :
    ∃ works : List Chance,
      (w.perform ([.call .stop, .proceed, .proceed, .proceed] ++ works.map .work
        ++ [.proceed])).run = w.run.stop o := by
  rcases exists_settleFor o.waitsOut o.fuel w.run.cancel with ⟨works, hworks⟩
  have hsettle : w.run.cancel.settle o =
      works.foldl (fun r chance => r.work chance) w.run.cancel := hworks
  let joined := w.perform [.call .stop, .proceed, .proceed, .proceed]
  have hjoined : joined.run = w.run.cancel ∧ joined.duty = .joining w.run.earlierReason? := by
    simp [joined, step, act, enter, proceed, note, h, Run.setCancelled, Run.sendStop,
      Run.setPaused, Run.cancel, Run.withEngine]
  rcases perform_works joined works with ⟨hrun, hduty⟩
  rw [hjoined.1, ← hsettle] at hrun
  rw [hjoined.2] at hduty
  refine ⟨works, ?_⟩
  rw [perform_append, perform_append]
  show ((joined.perform (works.map .work)).step .proceed).run = _
  simp [step, act, proceed, hduty, hrun, hended, Run.stop]

/-!
# What an act can do

There is one case for each thing that the worker or its supervisor can do.  Calls inside a call, and
calls that ask for nothing or come too late, leave everything as it is.
-/

/-- Everything that an act can do, but for the note of the state. -/
inductive Happens (w : Watch) : Act → Watch → Prop where
  | rest {a : Act} : Happens w a w
  | work {chance : Chance} {e e' : Engine} {s : Signals} {done : List Deed} :
      w.run.engine = some e → e.Steps chance w.run.signals s e' done →
      Happens w (.work chance)
        { w with
          run := { w.run with signals := s, engine := some e' }
          deeds := w.deeds ++ done }
  | launch {chart : Chart} {program : Program} : w.duty = .free → w.run.stage = .idle →
      Program.build chart = .ok program →
      Happens w (.call (.start chart))
        { w with run := { w.run with stage := .running, engine := some (.new program) } }
  | refuse {chart : Chart} {errors : List BuildError} : w.duty = .free → w.run.stage = .idle →
      Program.build chart = .error errors →
      Happens w (.call (.start chart))
        { w with run := { w.run with stage := .stopped .buildFailed } }
  | pause : w.duty = .free → w.run.state = .running →
      Happens w (.call .pause) { w with duty := .dropping true }
  | resume : w.duty = .free → w.run.state = .paused →
      Happens w (.call .resume) { w with duty := .dropping false }
  | advance : w.duty = .free → w.run.state = .paused →
      Happens w (.call .advance) { w with duty := .requesting }
  | stop : w.duty = .free →
      Happens w (.call .stop) { w with duty := .cancelling w.run.earlierReason? }
  | retime {delay : Nat} : w.duty = .free →
      Happens w (.call (.setDelay delay)) { w with run := w.run.setDelay delay }
  | serve {call : Call} {e : Engine} {wires : Wires} {taken : List Fault}
      {told : List (String × Value)} :
      w.duty = .free → w.run.engine = some e → wires.stops = e.wires.stops →
      e.wires.errors.toList = taken ++ wires.errors.toList →
      e.wires.updates.toList = told ++ wires.updates.toList →
      Happens w (.call call)
        { w with
          run := { w.run with
            engine := some { e with wires := wires }
            known := w.run.known.insertAll told }
          reported := w.reported ++ taken }
  | drop {paused : Bool} : w.duty = .dropping paused →
      Happens w .proceed { w with run := w.run.dropStep, duty := .setting paused }
  | set {paused : Bool} : w.duty = .setting paused →
      Happens w .proceed { w with run := w.run.setPaused paused, duty := .free }
  | request : w.duty = .requesting →
      Happens w .proceed { w with run := w.run.requestStep, duty := .free }
  | cancel {reason : Option StopReason} : w.duty = .cancelling reason →
      Happens w .proceed { w with run := w.run.setCancelled, duty := .notifying reason }
  | notify {reason : Option StopReason} : w.duty = .notifying reason →
      Happens w .proceed { w with run := w.run.sendStop, duty := .releasing reason }
  | release {reason : Option StopReason} : w.duty = .releasing reason →
      Happens w .proceed { w with run := w.run.setPaused false, duty := .joining reason }
  | close {reason : Option StopReason} : w.duty = .joining reason → w.run.isLive = false →
      Happens w .proceed { w with run := w.run.close reason, duty := .free }

theorem happens_start (h : w.duty = .free) (chart : Chart) :
    Happens w (.call (.start chart)) (w.enter (.start chart)) := by
  unfold enter Run.start
  by_cases hstage : w.run.stage = .idle
  · cases hbuild : Program.build chart with
    | ok program =>
        simp only [hstage, hbuild, if_true]
        exact Happens.launch h hstage hbuild
    | error errors =>
        simp only [hstage, hbuild, if_true]
        exact Happens.refuse h hstage hbuild
  · simp only [hstage, if_false]
    exact Happens.rest

theorem happens_serve (h : w.duty = .free) (call : Call) {r : Run} {taken : List Fault}
    (hnone : w.run.engine = none → r = w.run ∧ taken = [])
    (hsome : ∀ e, w.run.engine = some e → ∃ wires told, wires.stops = e.wires.stops ∧
      e.wires.errors.toList = taken ++ wires.errors.toList ∧
      e.wires.updates.toList = told ++ wires.updates.toList ∧
      r = { w.run with
        engine := some { e with wires := wires }
        known := w.run.known.insertAll told }) :
    Happens w (.call call) { w with run := r, reported := w.reported ++ taken } := by
  cases hengine : w.run.engine with
  | none =>
      rcases hnone hengine with ⟨rfl, rfl⟩
      rw [List.append_nil]
      exact Happens.rest
  | some e =>
      rcases hsome e hengine with ⟨wires, told, hstops, herrors, hupdates, rfl⟩
      exact Happens.serve h hengine hstops herrors hupdates

theorem happens_submit (h : w.duty = .free) (line : String) :
    Happens w (.call (.submit line)) (w.enter (.submit line)) := by
  have hserve : Happens w (.call (.submit line))
      { w with run := (w.run.submit line).2, reported := w.reported ++ [] } := by
    unfold Run.submit
    split
    · next hlive =>
      apply happens_serve h
      · intro hengine
        simp [Run.isLive, hengine] at hlive
      · intro e hengine
        exact ⟨{ e.wires with input := e.wires.input.send line }, [], rfl, rfl, rfl, by
          simp [Run.withEngine, hengine, Dictionary.insertAll]⟩
    · rw [List.append_nil]
      exact Happens.rest
  rw [List.append_nil] at hserve
  exact hserve

theorem happens_drainOutput (h : w.duty = .free) :
    Happens w (.call .drainOutput) (w.enter .drainOutput) := by
  have hserve : Happens w (.call .drainOutput)
      { w with run := w.run.drainOutput.2, reported := w.reported ++ [] } := by
    apply happens_serve h
    · intro hengine
      simp [Run.drainOutput, hengine]
    · intro e hengine
      exact ⟨{ e.wires with output := e.wires.output.drain.2 }, [], rfl, rfl, rfl, by
        simp [Run.drainOutput, hengine, Dictionary.insertAll]⟩
  rw [List.append_nil] at hserve
  exact hserve

theorem happens_drainErrors (h : w.duty = .free) :
    Happens w (.call .drainErrors) (w.enter .drainErrors) := by
  apply happens_serve h
  · intro hengine
    simp [Run.drainErrors, hengine]
  · intro e hengine
    have hdrain := Channel.drain_append e.wires.errors
    refine ⟨{ e.wires with errors := e.wires.errors.drain.2 }, [], rfl, ?_, rfl, ?_⟩
    · simp [Run.drainErrors, hengine, hdrain]
    · simp [Run.drainErrors, hengine, Dictionary.insertAll]

theorem happens_drainUpdates (h : w.duty = .free) :
    Happens w (.call .drainUpdates) (w.enter .drainUpdates) := by
  have hserve : Happens w (.call .drainUpdates)
      { w with run := w.run.drainUpdates.2, reported := w.reported ++ [] } := by
    apply happens_serve h
    · intro hengine
      simp [Run.drainUpdates, hengine]
    · intro e hengine
      have hdrain := Channel.drain_append e.wires.updates
      refine ⟨{ e.wires with updates := e.wires.updates.drain.2 }, e.wires.updates.drain.1, rfl,
        rfl, hdrain.symm, ?_⟩
      simp [Run.drainUpdates, hengine]
  rw [List.append_nil] at hserve
  exact hserve

theorem happens_enter (h : w.duty = .free) (call : Call) :
    Happens w (.call call) (w.enter call) := by
  cases call with
  | start chart => exact happens_start h chart
  | pause =>
      simp only [enter]
      split
      · next hstate => exact Happens.pause h hstate
      · exact Happens.rest
  | resume =>
      simp only [enter]
      split
      · next hstate => exact Happens.resume h hstate
      · exact Happens.rest
  | advance =>
      simp only [enter]
      split
      · next hstate => exact Happens.advance h hstate
      · exact Happens.rest
  | stop => exact Happens.stop h
  | setDelay delay => exact Happens.retime h
  | submit line => exact happens_submit h line
  | drainOutput => exact happens_drainOutput h
  | drainErrors => exact happens_drainErrors h
  | drainUpdates => exact happens_drainUpdates h

theorem happens_proceed (w : Watch) : Happens w .proceed w.proceed := by
  unfold proceed
  cases hduty : w.duty with
  | free => exact Happens.rest
  | dropping paused => exact Happens.drop hduty
  | setting paused => exact Happens.set hduty
  | requesting => exact Happens.request hduty
  | cancelling reason => exact Happens.cancel hduty
  | notifying reason => exact Happens.notify hduty
  | releasing reason => exact Happens.release hduty
  | joining reason =>
      dsimp only
      split
      · exact Happens.rest
      · next hlive => exact Happens.close hduty (Bool.eq_false_iff.mpr hlive)

theorem act_work {e : Engine} (h : w.run.engine = some e) (chance : Chance) :
    w.act (.work chance) =
      { w with
        run := { w.run with
          signals := (e.step chance w.run.signals).1
          engine := some (e.step chance w.run.signals).2 }
        deeds := w.deeds ++ e.deeds (e.step chance w.run.signals).2 } := by
  simp [act, Run.work, doneBetween, h]

theorem happens_act (w : Watch) (a : Act) : Happens w a (w.act a) := by
  cases a with
  | work chance =>
      cases hengine : w.run.engine with
      | none =>
          have hact : w.act (.work chance) = w := by
            simp [act, Run.work, doneBetween, hengine]
          rw [hact]
          exact Happens.rest
      | some e =>
          rw [act_work hengine]
          exact Happens.work hengine (e.steps_step chance w.run.signals)
  | call call =>
      unfold act
      dsimp only
      split
      · next hduty => exact happens_enter hduty call
      · exact Happens.rest
  | proceed => exact happens_proceed w

/-- Where the worker comes from that is there after an act: it has taken a step, it is new, or it
was there before, and nothing has changed but what is on its wires. -/
inductive Succeeds (w : Watch) (a : Act) (w' : Watch) : Engine → Prop where
  | stepped {chance : Chance} {e e' : Engine} {done : List Deed} : a = .work chance →
      w.run.engine = some e → e.Steps chance w.run.signals w'.run.signals e' done →
      Succeeds w a w' e'
  | started {chart : Chart} {program : Program} : w.run.stage = .idle →
      Program.build chart = .ok program → w'.run.signals = w.run.signals →
      w'.deeds = w.deeds → Succeeds w a w' (.new program)
  | stayed {e : Engine} {wires : Wires} {told : List (String × Value)} :
      w.run.engine = some e → e.wires.updates.toList = told ++ wires.updates.toList →
      w'.run.signals.prompt = w.run.signals.prompt → w'.deeds = w.deeds →
      Succeeds w a w' { e with wires := wires }

theorem Happens.succeeds (h : Happens w a w') {e' : Engine} (he' : w'.run.engine = some e') :
    Succeeds w a w' e' := by
  cases h with
  | work hengine hsteps =>
      cases he'
      exact Succeeds.stepped rfl hengine hsteps
  | launch _ hidle hbuild =>
      cases he'
      exact Succeeds.started hidle hbuild rfl rfl
  | serve _ hengine _ _ htold =>
      cases he'
      exact Succeeds.stayed hengine htold rfl rfl
  | notify _ =>
      rcases Run.exists_of_sendStop he' with ⟨e, hengine, rfl⟩
      exact Succeeds.stayed hengine (List.nil_append _).symm rfl rfl
  | close _ _ => cases he'
  | rest | refuse _ _ _ | pause _ _ | resume _ _ | advance _ _ | stop _ | retime _ | drop _
  | set _ | request _ | cancel _ | release _ =>
      exact Succeeds.stayed he' (List.nil_append _).symm rfl rfl

theorem perform_concat (w : Watch) (acts : List Act) (a : Act) :
    w.perform (acts ++ [a]) = (w.perform acts).step a :=
  perform_append w acts [a]

/-- What holds of a run before its start and is kept by every act holds whenever it is looked at,
also if it speaks of the acts so far. -/
theorem always_along {delay : Nat} {Holds : List Act → Watch → Prop} (hnew : Holds [] (new delay))
    (hstep : ∀ acts a, Holds acts ((new delay).perform acts) →
      Holds (acts ++ [a]) (((new delay).perform acts).step a)) (acts : List Act) :
    Holds acts ((new delay).perform acts) := by
  induction acts using List.reverseRecOn with
  | nil => exact hnew
  | append_singleton acts a ih =>
      rw [perform_concat]
      exact hstep acts a ih

theorem always {Holds : Watch → Prop} (hnew : ∀ delay, Holds (new delay))
    (hstep : ∀ w a, Holds w → Holds (w.step a)) (delay : Nat) (acts : List Act) :
    Holds ((new delay).perform acts) :=
  always_along (hnew delay) (fun _ a hw => hstep _ a hw) acts

end Watch
end Blockwise
