import Blockwise.Proofs.Run.Lifecycle
import Blockwise.Proofs.Trial.Evaluation

/-!
# Workers that may die

A worker that crashes in an evaluation is gone without a word.  It has signalled no failure and
sends nothing any more, so that its supervisor takes it for one that has come to the end of the
program.  Nothing in the run keeps this from happening.  It is the tables that do.
-/

namespace Blockwise

/-- What a trial is for a worker.  A crash ends the worker as quietly as an interruption. -/
def Trial.talk (m : Trial Value) (store : Store) : Talk :=
  Dialogue.bind (m store) fun
    | .ok r => .done r
    | .error _ => .done (.error Cause.interrupted.fault, store)

theorem Trial.talk_ofEvaluation (m : Evaluation Value) (store : Store) :
    (ofEvaluation m).talk store = m store := by
  change Dialogue.bind (Dialogue.bind (m store) fun r => .done (Except.ok r)) _ = _
  rw [Dialogue.bind_assoc]
  exact Dialogue.bind_done (m store)

namespace Engine

def stepBy (T : Tables) (chance : Chance) (signals : Signals) (e : Engine) : Signals × Engine :=
  match e.phase with
  | .checking step =>
      if signals.cancelled then (signals, e.go .ended)
      else (signals, e.go (.talking step ((step.tree.attempt T).talk e.store)))
  | _ => e.step chance signals

theorem stepBy_standard (chance : Chance) (signals : Signals) (e : Engine) :
    e.stepBy .standard chance signals = e.step chance signals := by
  unfold stepBy
  split
  · next step hphase =>
      rw [Tree.attempt_standard, Trial.talk_ofEvaluation]
      simp only [Engine.step, hphase]
  · rfl

end Engine

namespace Watch

def actBy (T : Tables) (w : Watch) : Act → Watch
  | .work chance =>
      match w.run.engine with
      | none => w
      | some e =>
          let (signals, e') := e.stepBy T chance w.run.signals
          { w with
            run := { w.run with signals := signals, engine := some e' }
            deeds := w.deeds ++ e.deeds e' }
  | a => w.act a

def stepBy (T : Tables) (w : Watch) (a : Act) : Watch :=
  (w.actBy T a).note

def performBy (T : Tables) (w : Watch) (acts : List Act) : Watch :=
  acts.foldl (stepBy T) w

theorem actBy_standard (w : Watch) (a : Act) : w.actBy .standard a = w.act a := by
  cases a with
  | work chance =>
      unfold actBy
      cases hengine : w.run.engine with
      | none => simp [act, Run.work, doneBetween, hengine]
      | some e => simp only [act_work hengine, Engine.stepBy_standard]
  | call call => rfl
  | proceed => rfl

theorem performBy_standard (w : Watch) (acts : List Act) :
    w.performBy .standard acts = w.perform acts := by
  have hstep : stepBy .standard = step := by
    funext w a
    rw [stepBy, actBy_standard, step]
  rw [performBy, hstep, perform]

theorem finished_perform {delay : Nat} {acts : List Act}
    (h : ((new delay).perform acts).run.state = .stopped .finished) :
    ∃ before, before <+: acts ∧ ((new delay).perform before).Finished := by
  rcases Justified.of_stopped h with hgiven | ⟨hstage, hended⟩
  · exact (justified_perform delay acts).finished hgiven
  · exact ⟨acts, List.prefix_rfl, finished_of_endReason? hstage hended⟩

/-- With tables that are not sound, a run may show as finished in the midst of its program: that
is how it shows when its worker has come to a crash. -/
theorem state_of_crash {T : Tables} {w : Watch} {e : Engine} {step : Step} {m : Trial Value}
    {store : Store} {crash : Crash} (hstage : w.run.stage = .running)
    (hengine : w.run.engine = some e) (hphase : e.phase = .talking step (m.talk store))
    (hcrash : m store = Dialogue.done (.error crash)) (hfailed : w.run.signals.failed = false)
    (hcancelled : w.run.signals.cancelled = false) (chance : Chance) :
    (w.actBy T (.work chance)).run.state = .stopped .finished := by
  have htalk : m.talk store = .done (.error Cause.interrupted.fault, store) := by
    rw [Trial.talk, hcrash]
    rfl
  have hstep : e.stepBy T chance w.run.signals = (w.run.signals, e.go .ended) := by
    simp only [Engine.stepBy, hphase, Engine.step, htalk]
    rfl
  simp only [actBy, hengine, hstep]
  refine Run.state_of_ended ?_ ?_
  · exact hstage
  · simp [Run.endReason?, Run.isLive, Engine.go, Phase.isEnded, hfailed, hcancelled]

end Watch

namespace Tables

/-- An evaluation calls an implementation on operands of the types that it is registered for, and
a body on as many numbers as its function takes: with any tables it stays the same if everything
crashes that is called on something else.  In the tables of the language nothing crashes that is
called on what it is made for.  With tables of which this holds, every tree comes to a value in
every store, whatever its reads are answered, and with those of the language it is the value that
the tree has.  So no worker dies in an evaluation, and a run that shows as finished has come to a
block with nothing to carry out. -/
theorem evaluations_never_crash :
    (∀ (T : Tables) (tree : Tree), tree.attempt T.guarded = tree.attempt T) ∧
    standard.Sound ∧
    (∀ T : Tables, T.Sound → ∀ (tree : Tree) (store : Store),
      Dialogue.Ensures (fun _ => True) (fun outcome => ∃ r, outcome = .ok r)
        (tree.attempt T store)) ∧
    (∀ tree : Tree, tree.attempt standard = Trial.ofEvaluation tree.evaluate) ∧
    ∀ delay acts,
      let w := (Watch.new delay).performBy standard acts
      w = (Watch.new delay).perform acts ∧
      (w.run.state = .stopped .finished → ∃ before, before <+: acts ∧
        ((Watch.new delay).performBy standard before).Finished) := by
  refine ⟨Tree.attempt_guarded, sound_standard, ?_, Tree.attempt_standard, ?_⟩
  · intro T hsound tree store
    apply (Tree.ends_attempt T tree store).mono
    intro outcome houtcome
    cases outcome with
    | ok r => exact ⟨r, rfl⟩
    | error crash => exact absurd hsound houtcome
  · intro delay acts w
    refine ⟨Watch.performBy_standard _ acts, ?_⟩
    intro hstate
    simp only [w, Watch.performBy_standard] at hstate ⊢
    exact Watch.finished_perform hstate

def writtenArgument : Tree :=
  .binary .add (.call "root" [.read "x" .number, .write (.literal (.string "!"))])
    (.literal (.boolean true))

def mixedSum : Chart where
  start := ⟨0⟩
  blocks :=
    [⟨⟨0⟩, "", .start (some ⟨1⟩)⟩, ⟨⟨1⟩, "\"a\" + true", .output (some ⟨2⟩)⟩,
      ⟨⟨2⟩, "", .finish⟩]

def mixedSumActs : List Act :=
  .call (.start mixedSum) :: List.replicate 14 (.work (.inOrder true))

theorem evaluations_never_crash_mixedSum :
    standard.Sound ∧
    Dialogue.Ensures (fun _ => True) (fun outcome => ∃ r, outcome = .ok r)
      (writtenArgument.attempt standard ∅) ∧
    ((Watch.new 0).performBy standard mixedSumActs).run.state = .stopped .finished ∧
    ∃ before, before <+: mixedSumActs ∧
      ((Watch.new 0).performBy standard before).Finished := by
  rcases evaluations_never_crash with ⟨_, hsound, hattempt, _, hruns⟩
  have hstate : ((Watch.new 0).performBy standard mixedSumActs).run.state =
      .stopped .finished := by cbv
  exact ⟨hsound, hattempt standard hsound writtenArgument ∅, hstate,
    (hruns 0 mixedSumActs).2 hstate⟩

end Tables
end Blockwise
