import Blockwise.Proofs.Run.Simulation
import Blockwise.Proofs.Run.Stages
import Mathlib.Data.List.Chain

/-!
# The life of a run

The state of a run is worked out from its stage, from whether the worker has ended and from
signals that a stop changes itself.  All the same it only ever moves from idle to running, to and
fro between running and paused, and from these to stopped, where it stays.
-/

namespace Blockwise

/-!
# How a worker ends

A worker that nobody stops ends because there is nothing left to carry out, or after it has
signalled a failure.
-/

namespace Engine

variable {e e' : Engine} {failed failed' : Bool} {faults : List Fault}

theorem Coherent.ofFault_ne_ended (h : e.Coherent failed faults) {step : Step} {fault : Fault}
    {store : Store} (hphase : e.phase = .talking step (.done (.error fault, store))) :
    Phase.ofFault fault ≠ .ended := by
  have hfine := h.phase
  rw [hphase] at hfine
  have hfault : fault.isInterruption = false := hfine.1
  simp [Phase.ofFault, hfault]

theorem Coherent.ofChoice_ne_ended (h : e.Coherent failed faults) {step : Step} {value : Value}
    (hphase : e.phase = .leaving step value) : Phase.ofChoice step.successor value ≠ .ended := by
  have hvalue := (Phase.undisturbed_iff (departing_of hphase rfl)).mp h.phase
  have hboolean := Value.undisturbed_toBoolean hvalue
  unfold Phase.ofChoice
  split
  · simp
  · split
    · simp
    · simp
    · next fault hfault =>
        rw [hfault] at hboolean
        have hfine : fault.isInterruption = false := hboolean
        simp [Phase.ofFault, hfine]
    · have hfine : ∀ source : ValueType,
          (Cause.badCast source .boolean).fault.isInterruption = false := fun _ => rfl
      simp [Phase.ofFault, hfine]

theorem Moves.ended (h : Moves e failed failed' e') (he : e.Coherent failed faults)
    (hended : e.phase = .ended → failed = true ∨ e.program.get? e.current = none) :
    e'.phase = .ended → failed' = true ∨ e'.program.get? e'.current = none := by
  intro hphase'
  have hreports := he.reports
  cases h with
  | finish _ hget => exact Or.inr hget
  | fail hphase => exact absurd hphase' (he.ofFault_ne_ended hphase)
  | depart hphase => exact absurd hphase' (he.ofChoice_ne_ended hphase)
  | quit hphase =>
      rw [hphase] at hreports
      exact Or.inl hreports.1
  | rest hphase => exact hended hphase
  | @linger done phase updates _ hdone =>
      have hphase : phase = .ended := hphase'
      rw [hphase] at hdone
      cases hdone
  | _ => cases hphase'

end Engine

namespace Run

/-- What holds of a worker until its run is cancelled. -/
structure Undisturbed (r : Run) (e : Engine) : Prop where
  stops : e.wires.stops = 0
  coherent : ∃ reported, e.Coherent r.signals.failed (reported ++ e.wires.errors.toList)
  ended : e.phase = .ended → r.signals.failed = true ∨ e.program.get? e.current = none

end Run

namespace Watch

variable {w w' : Watch} {a : Act}

def Runs (w : Watch) : Prop :=
  w.run.signals.cancelled = false → ∀ e, w.run.engine = some e → w.run.Undisturbed e

theorem Runs.congr (h : w.Runs) (hengine : w'.run.engine = w.run.engine)
    (hcancelled : w'.run.signals.cancelled = w.run.signals.cancelled)
    (hfailed : w'.run.signals.failed = w.run.signals.failed) : w'.Runs := by
  intro hcalm e he
  have hundisturbed := h (hcancelled.symm.trans hcalm) e (hengine.symm.trans he)
  refine ⟨hundisturbed.stops, ?_, ?_⟩
  · rw [hfailed]
    exact hundisturbed.coherent
  · rw [hfailed]
    exact hundisturbed.ended

theorem Happens.runs (h : Happens w a w') (hduty : w.duty.Fits w.run) (hstaged : w.run.Staged)
    (hw : w.Runs) : w'.Runs := by
  cases h with
  | work hengine hsteps =>
      intro hcalm e' he'
      cases he'
      have hcancelled := hsteps.cancelled.symm.trans hcalm
      rcases hw hcancelled _ hengine with ⟨hstops, ⟨reported, hcoherent⟩, hended⟩
      have hmoves := hsteps.moves hcancelled hstops
      exact ⟨hmoves.stops.trans hstops, ⟨reported, hmoves.coherent hcoherent⟩,
        hmoves.ended hcoherent hended⟩
  | launch _ hidle hbuild =>
      intro _ e he
      cases he
      rcases hstaged.of_idle hidle with ⟨_, _, hfailed, _⟩
      refine ⟨rfl, ⟨[], ?_⟩, fun h => by cases h⟩
      show (Engine.new _).Coherent w.run.signals.failed []
      rw [hfailed]
      exact Engine.coherent_new hbuild
  | @serve call e wires taken told _ hengine hstops htaken _ =>
      intro hcalm e' he'
      cases he'
      rcases hw hcalm _ hengine with ⟨hnone, ⟨reported, hcoherent⟩, hended⟩
      refine ⟨hstops.trans hnone, ⟨reported ++ taken, ?_⟩, hended⟩
      rw [htaken, ← List.append_assoc] at hcoherent
      exact ⟨hcoherent.steps, hcoherent.store, hcoherent.phase, hcoherent.reports⟩
  | cancel _ =>
      intro hcalm
      cases hcalm
  | notify hnotify =>
      rw [hnotify] at hduty
      intro hcalm
      cases hcalm.symm.trans hduty
  | close _ _ =>
      intro _ e he
      cases he
  | rest | refuse _ _ _ | pause _ _ | resume _ _ | advance _ _ | stop _ | retime _ | drop _
  | set _ | request _ | release _ => exact hw.congr rfl rfl rfl

theorem runs_perform (delay : Nat) (acts : List Act) : ((new delay).perform acts).Runs := by
  apply always_orderly
  · intro delay _ e he
    cases he
  · intro w a horderly hw
    exact ((happens_act w a).runs horderly.duty horderly.staged hw).congr rfl rfl rfl

end Watch

/-!
# States in order

The state goes from idle to running, to and fro between running and paused as the signals go, and
from these to stopped.
-/

/-- The moves of the state of a run. -/
inductive RunState.Follows : RunState → RunState → Prop where
  | same (state : RunState) : Follows state state
  | start : Follows .idle .running
  | pause : Follows .running .paused
  | resume : Follows .paused .running
  | stop {state : RunState} (reason : StopReason) : state ∈ [.idle, .running, .paused] →
      Follows state (.stopped reason)

namespace RunState

theorem Follows.ne_building {state state' : RunState} (h : Follows state state')
    (hstate : state ≠ .building) : state' ≠ .building := by
  cases h with
  | same _ => exact hstate
  | _ => simp

theorem eq_of_isChain {reason : StopReason} {states : List RunState}
    (h : List.IsChain Follows (.stopped reason :: states)) :
    ∀ state ∈ states, state = .stopped reason := by
  induction states with
  | nil => exact nofun
  | cons first rest ih =>
      rcases List.isChain_cons_cons.mp h with ⟨hfirst, hrest⟩
      have hsame : first = .stopped reason := by
        cases hfirst with
        | same _ => rfl
        | stop _ hstate => simp at hstate
      subst hsame
      intro state hstate
      rcases List.mem_cons.mp hstate with rfl | hlater
      · rfl
      · exact ih hrest state hlater

end RunState

open RunState (Follows)

namespace Run

variable {r r' : Run}

theorem follows_of_running (h : r.stage = .running) {state : RunState}
    (hstate : Follows state (if r.signals.paused then .paused else .running))
    (hactive : state ∈ [.idle, .running, .paused]) : Follows state r.state := by
  cases hreason : r.endReason? with
  | some reason =>
      rw [state_of_ended h hreason]
      exact Follows.stop reason hactive
  | none =>
      rw [state_of_live h hreason]
      exact hstate

theorem follows_of_same (hstage : r'.stage = r.stage) (hlive : r'.isLive = r.isLive)
    (hfailed : r'.signals.failed = r.signals.failed)
    (hcancelled : r'.signals.cancelled = r.signals.cancelled)
    (hpaused : r'.signals.paused = r.signals.paused) : Follows r.state r'.state := by
  have hstate : r'.state = r.state := by
    unfold state endReason?
    rw [hstage, hlive, hfailed, hcancelled, hpaused]
  rw [hstate]
  exact Follows.same _

theorem follows_work {chance : Chance} {e e' : Engine} {s : Signals} {done : List Deed}
    (hstage : r.stage = .running) (hengine : r.engine = some e)
    (hsteps : e.Steps chance r.signals s e' done) :
    Follows r.state { r with signals := s, engine := some e' }.state := by
  cases hreason : r.endReason? with
  | some reason =>
      -- The worker has ended, and stays so.
      have hended := ended_of_isLive hengine (isLive_of_endReason? hreason)
      rcases hsteps.of_ended hended with ⟨rfl, rfl, _⟩
      rw [← hengine]
      exact Follows.same _
  | none =>
      rw [state_of_live hstage hreason]
      apply follows_of_running
      · exact hstage
      · rw [hsteps.paused]
        exact Follows.same _
      · cases r.signals.paused <;> simp

theorem follows_close (h : r.Staged) : Follows r.state (r.close r.earlierReason?).stage := by
  rw [stage_close]
  cases h with
  | idle hstage _ _ _ _ =>
      rw [state_of_idle hstage, hstage]
      exact Follows.stop _ (by simp)
  | stopped hstage _ _ =>
      rw [state_of_stopped hstage, hstage]
      exact Follows.same _
  | running hstage _ =>
      have hearlier : r.earlierReason? = r.endReason? := by
        simp [earlierReason?, hstage, isActiveStage]
      rw [hearlier, hstage]
      cases hreason : r.endReason? with
      | some reason =>
          rw [state_of_ended hstage hreason]
          exact Follows.same _
      | none =>
          rw [state_of_live hstage hreason]
          apply Follows.stop
          cases r.signals.paused <;> simp

end Run

namespace Duty

def Awaits (r : Run) (last : RunState) : Duty → Prop
  | free => last = r.state
  | dropping paused => last = if paused then .running else .paused
  | setting paused => last = if paused then .running else .paused
  | requesting => last = .paused
  | cancelling reason => Follows last (r.close reason).stage
  | notifying reason => Follows last (r.close reason).stage
  | releasing reason => Follows last (r.close reason).stage
  | joining reason => Follows last (r.close reason).stage

theorem Awaits.congr {duty : Duty} {r r' : Run} {last : RunState} (h : duty.Awaits r last)
    (hstage : r'.stage = r.stage) (hduty : duty ≠ .free) : duty.Awaits r' last := by
  have hclose : ∀ reason, (r'.close reason).stage = (r.close reason).stage := by
    intro reason
    rw [Run.stage_close, Run.stage_close, hstage]
  cases duty with
  | free => exact absurd rfl hduty
  | dropping _ | setting _ | requesting => exact h
  | cancelling _ | notifying _ | releasing _ | joining _ =>
      show Follows last (r'.close _).stage
      rw [hclose]
      exact h

end Duty

namespace Watch

variable {w w' : Watch} {a : Act}

theorem Happens.awaits (h : Happens w a w') (hw : w.Orderly) {last : RunState}
    (hlast : w.duty.Awaits w.run last) :
    (w'.duty = .free → Follows last w'.run.state) ∧
      (w'.duty ≠ .free → w'.duty.Awaits w'.run last) := by
  have hduty := hw.duty
  have hfollows : w.duty = .free → Follows w.run.state w'.run.state →
      w'.duty = w.duty → (w'.duty = .free → Follows last w'.run.state) ∧
        (w'.duty ≠ .free → w'.duty.Awaits w'.run last) := by
    intro hfree hstate hsame
    rw [hfree] at hlast
    rw [show last = w.run.state from hlast]
    exact ⟨fun _ => hstate, fun hbusy => absurd (hsame.trans hfree) hbusy⟩
  have hbusy : w'.duty ≠ .free → w'.duty.Awaits w'.run last →
      (w'.duty = .free → Follows last w'.run.state) ∧
        (w'.duty ≠ .free → w'.duty.Awaits w'.run last) :=
    fun hcall hawaits => ⟨fun hfree => absurd hfree hcall, fun _ => hawaits⟩
  cases h with
  | rest =>
      refine ⟨?_, fun _ => hlast⟩
      intro hfree
      rw [hfree] at hlast
      rw [show last = w.run.state from hlast]
      exact Follows.same _
  | work hengine hsteps =>
      have hstage := hw.staged.running_of_engine hengine
      by_cases hfree : w.duty = .free
      · exact hfollows hfree (Run.follows_work hstage hengine hsteps) rfl
      · exact ⟨fun h => absurd h hfree, fun _ => hlast.congr rfl hfree⟩
  | launch hfree hidle _ =>
      apply hfollows hfree _ rfl
      rcases hw.staged.of_idle hidle with ⟨_, hpaused, _, _⟩
      rw [Run.state_of_idle hidle, Run.state_of_live rfl rfl, hpaused]
      exact Follows.start
  | refuse hfree hidle _ =>
      apply hfollows hfree _ rfl
      rw [Run.state_of_idle hidle, Run.state_of_stopped rfl]
      exact Follows.stop _ (by simp)
  | pause hfree hstate | resume hfree hstate | advance hfree hstate =>
      rw [hfree] at hlast
      exact hbusy (by simp) (hlast.trans hstate)
  | stop hfree =>
      rw [hfree] at hlast
      apply hbusy (by simp)
      rw [show last = w.run.state from hlast]
      exact Run.follows_close hw.staged
  | retime hfree =>
      exact hfollows hfree (Run.follows_of_same rfl rfl rfl rfl rfl) rfl
  | @serve call e wires taken told hfree hengine _ _ _ =>
      have hlive : ∀ wires : Wires, (some { e with wires := wires }).any
          (fun e => !e.phase.isEnded) = w.run.isLive := by
        intro wires
        simp [Run.isLive, hengine]
      exact hfollows hfree (Run.follows_of_same rfl (hlive _) rfl rfl rfl) rfl
  | drop hdrop =>
      rw [hdrop] at hlast
      exact hbusy (by simp) hlast
  | @set paused hset =>
      rw [hset] at hlast hduty
      refine ⟨fun _ => ?_, fun hbusy => absurd rfl hbusy⟩
      rw [show last = _ from hlast]
      apply Run.follows_of_running (r := w.run.setPaused paused) hduty.1
      · cases paused with
        | true => exact Follows.pause
        | false => exact Follows.resume
      · cases paused <;> simp
  | request hrequest =>
      rw [hrequest] at hlast hduty
      refine ⟨fun _ => ?_, fun hbusy => absurd rfl hbusy⟩
      rw [show last = _ from hlast]
      apply Run.follows_of_running (r := w.run.requestStep) hduty.1
      · show Follows .paused (if w.run.signals.paused then .paused else .running)
        rw [hduty.2.2]
        exact Follows.same _
      · simp
  | cancel hstop | notify hstop | release hstop =>
      rw [hstop] at hlast
      exact hbusy (by simp) hlast
  | @close reason hstop _ =>
      rw [hstop] at hlast
      refine ⟨fun _ => ?_, fun hbusy => absurd rfl hbusy⟩
      rcases Run.exists_stage_close w.run reason with ⟨given, hstage⟩
      have hclosed : Follows last (w.run.close reason).stage := hlast
      rw [hstage] at hclosed
      rw [Run.state_of_stopped hstage]
      exact hclosed

/-!
# What has been seen

The states that were seen are those between two calls, so the last of them is the state again as
soon as no call is under way.
-/

structure Traced (w : Watch) : Prop where
  chain : w.seen.IsChain Follows
  building : .building ∉ w.seen
  last : ∃ last, w.seen.getLast? = some last ∧ w.duty.Awaits w.run last

theorem traced_new (delay : Nat) : (new delay).Traced where
  chain := List.isChain_singleton _
  building := by simp [new]
  last := ⟨.idle, rfl, rfl⟩

theorem Happens.seen (h : Happens w a w') : w'.seen = w.seen := by
  cases h <;> rfl

theorem traced_step (w : Watch) (a : Act) (horderly : w.Orderly) (hw : w.Traced) :
    (w.step a).Traced := by
  have hact := happens_act w a
  rcases hw.last with ⟨last, hseen, hlast⟩
  rcases hact.awaits horderly hlast with ⟨hfree, hbusy⟩
  by_cases hduty : (w.act a).duty = .free
  · have hfollows := hfree hduty
    have hmem : last ∈ w.seen := List.mem_of_getLast? hseen
    have hknown : last ≠ .building := fun h => hw.building (h ▸ hmem)
    have hstep : (w.step a).seen = w.seen ++ [(w.act a).run.state] := by
      simp [step, note, hduty, hact.seen]
    refine ⟨?_, ?_, (w.act a).run.state, ?_, ?_⟩
    · rw [hstep, List.isChain_append]
      refine ⟨hw.chain, List.isChain_singleton _, ?_⟩
      intro x hx y hy
      cases Option.mem_unique hx hseen
      cases hy
      exact hfollows
    · rw [hstep, List.mem_append, List.mem_singleton]
      rintro (hold | hnew)
      · exact hw.building hold
      · exact hfollows.ne_building hknown hnew.symm
    · rw [hstep, List.getLast?_concat]
    · show (w.act a).duty.Awaits _ _
      rw [hduty]
      rfl
  · have hstep : (w.step a).seen = w.seen := by
      simp [step, note, hduty, hact.seen]
    refine ⟨?_, ?_, last, ?_, hbusy hduty⟩
    · rw [hstep]
      exact hw.chain
    · rw [hstep]
      exact hw.building
    · rw [hstep]
      exact hseen

theorem traced_perform (delay : Nat) (acts : List Act) : ((new delay).perform acts).Traced :=
  always_orderly traced_new traced_step delay acts

theorem Traced.getLast (h : w.Traced) (hfree : w.duty = .free) :
    w.seen.getLast? = some w.run.state := by
  rcases h.last with ⟨last, hseen, hlast⟩
  rw [hfree] at hlast
  rw [hseen, show last = w.run.state from hlast]

theorem seen_perform (w : Watch) (acts : List Act) : w.seen <+: (w.perform acts).seen := by
  induction acts generalizing w with
  | nil => exact List.prefix_rfl
  | cons a acts ih =>
      refine List.IsPrefix.trans ?_ (ih (w.step a))
      show w.seen <+: (w.act a).note.seen
      unfold note
      rw [(happens_act w a).seen]
      split
      · exact List.prefix_append _ _
      · exact List.prefix_rfl

theorem stopped_perform {delay : Nat} {acts more : List Act} {reason : StopReason}
    (hfree : ((new delay).perform acts).duty = .free)
    (hstopped : ((new delay).perform acts).run.state = .stopped reason)
    (hfree' : (((new delay).perform acts).perform more).duty = .free) :
    (((new delay).perform acts).perform more).run.state = .stopped reason := by
  have htraced := traced_perform delay (acts ++ more)
  rw [perform_append] at htraced
  have hlast := (traced_perform delay acts).getLast hfree
  rw [hstopped] at hlast
  rcases List.getLast?_eq_some_iff.mp hlast with ⟨earlier, hearlier⟩
  rcases seen_perform ((new delay).perform acts) more with ⟨later, hlater⟩
  have hchain := htraced.chain
  rw [← hlater, hearlier, List.append_assoc, List.singleton_append] at hchain
  have hsame := RunState.eq_of_isChain (List.isChain_append.mp hchain).2.1
  have hstate := htraced.getLast hfree'
  rw [← hlater, hearlier, List.append_assoc, List.singleton_append,
    List.getLast?_append_of_ne_nil _ (List.cons_ne_nil _ _)] at hstate
  rcases List.mem_cons.mp (List.mem_of_getLast? hstate) with h | h
  · exact h
  · exact hsame _ h

/-!
# Why a run has stopped

A reason comes from a chart that does not build, or from a stop, which finds the worker ended for
the reason or still at work.
-/

end Watch

def Duty.reason? : Duty → Option StopReason
  | cancelling reason | notifying reason | releasing reason | joining reason => reason
  | _ => none

namespace Watch

variable {w w' : Watch} {a : Act}

/-- The run has been stopped for the reason, or will be when the stop under way is done. -/
def Given (w : Watch) (reason : StopReason) : Prop :=
  w.run.stage = .stopped reason ∨ w.duty.reason? = some reason

def Refuses (w : Watch) (a : Act) : Prop :=
  ∃ chart errors, a = .call (.start chart) ∧ w.duty = .free ∧ w.run.state = .idle ∧
    Program.build chart = .error errors

theorem Happens.given (h : Happens w a w') (hw : w.Orderly) {reason : StopReason}
    (hgiven : w'.Given reason) :
    w.Given reason ∨
      a = .call .stop ∧ w.run.endReason? = some reason ∧ w.run.stage = .running ∨
        reason = .aborted ∨ reason = .buildFailed ∧ w.Refuses a := by
  cases h with
  | rest | work _ _ | retime _ | serve _ _ _ _ _ => exact Or.inl hgiven
  | pause _ _ | resume _ _ | advance _ _ | drop _ | set _ | request _ =>
      rcases hgiven with hstage | hreason
      · exact Or.inl (Or.inl hstage)
      · cases hreason
  | launch _ _ _ =>
      rcases hgiven with hstage | hreason
      · cases hstage
      · exact Or.inl (Or.inr hreason)
  | refuse hfree hidle hbuild =>
      rcases hgiven with hstage | hreason
      · cases hstage
        exact Or.inr (Or.inr (Or.inr
          ⟨rfl, _, _, rfl, hfree, Run.state_of_idle hidle, hbuild⟩))
      · exact Or.inl (Or.inr hreason)
  | stop _ =>
      rcases hgiven with hstage | hreason
      · exact Or.inl (Or.inl hstage)
      · exact Or.inr (Or.inl ⟨rfl, hw.staged.of_earlierReason? hreason⟩)
  | cancel hstop | notify hstop | release hstop =>
      left
      unfold Given
      rw [hstop]
      exact hgiven
  | @close found hstop _ =>
      rcases hgiven with hstage | hreason
      · rw [Run.stage_close] at hstage
        split at hstage
        · next given hstopped =>
            cases hstage
            exact Or.inl (Or.inl hstopped)
        · cases found with
          | none =>
              cases hstage
              exact Or.inr (Or.inr (Or.inl rfl))
          | some given =>
              cases hstage
              left
              right
              rw [hstop]
              rfl
      · cases hreason

def Finished (w : Watch) : Prop :=
  ∃ e, w.run.engine = some e ∧ e.phase = .ended ∧ e.program.get? e.current = none ∧
    w.run.signals.cancelled = false

/-- Each reason is given for what happened. -/
structure Justified (delay : Nat) (acts : List Act) (w : Watch) : Prop where
  error : w.Given .error → w.run.signals.failed = true
  finished : w.Given .finished → ∃ before, before <+: acts ∧ ((new delay).perform before).Finished
  buildFailed : w.Given .buildFailed → ∃ before a after, acts = before ++ a :: after ∧
    ((new delay).perform before).Refuses a

theorem finished_of_endReason? {delay : Nat} {acts : List Act}
    (hstage : ((new delay).perform acts).run.stage = .running)
    (h : ((new delay).perform acts).run.endReason? = some .finished) :
    ((new delay).perform acts).Finished := by
  have hstaged := (orderly_perform delay acts).staged
  rcases Run.endReason?_cases h with ⟨hreason, _⟩ | ⟨hreason, _⟩ | ⟨_, hfailed, hcancelled⟩
  · cases hreason
  · cases hreason
  · cases hstaged with
    | running _ hengine =>
        have hended := Run.ended_of_isLive hengine (Run.isLive_of_endReason? h)
        have hundisturbed := runs_perform delay acts hcancelled _ hengine
        rcases hundisturbed.ended hended with hraised | hget
        · cases hfailed.symm.trans hraised
        · exact ⟨_, hengine, hended, hget, hcancelled⟩
    | idle hidle _ _ _ _ => cases hstage.symm.trans hidle
    | stopped hstopped _ _ => cases hstage.symm.trans hstopped

theorem Happens.failed_of_true (h : Happens w a w') (hfailed : w.run.signals.failed = true) :
    w'.run.signals.failed = true := by
  cases h with
  | work _ hsteps => exact hsteps.failed_of_true hfailed
  | _ => exact hfailed

theorem not_given_new {delay : Nat} {reason : StopReason} : ¬(new delay).Given reason := by
  intro h
  rcases h with h | h <;> cases h

theorem justified_perform (delay : Nat) (acts : List Act) :
    Justified delay acts ((new delay).perform acts) := by
  apply always_along
  · exact ⟨fun h => absurd h not_given_new, fun h => absurd h not_given_new,
      fun h => absurd h not_given_new⟩
  · intro acts a hw
    have hact := happens_act ((new delay).perform acts) a
    have horderly := orderly_perform delay acts
    refine ⟨?_, ?_, ?_⟩
    · intro hgiven
      apply hact.failed_of_true
      rcases hact.given horderly hgiven with hold | ⟨_, hreason, _⟩ | h | ⟨h, _⟩
      · exact hw.error hold
      · exact Run.failed_of_endReason? hreason
      · cases h
      · cases h
    · intro hgiven
      rcases hact.given horderly hgiven with hold | ⟨_, hreason, hstage⟩ | h | ⟨h, _⟩
      · rcases hw.finished hold with ⟨before, hbefore, hfinished⟩
        exact ⟨before, hbefore.trans (List.prefix_append _ _), hfinished⟩
      · exact ⟨acts, List.prefix_append _ _, finished_of_endReason? hstage hreason⟩
      · cases h
      · cases h
    · intro hgiven
      rcases hact.given horderly hgiven with hold | ⟨_, hreason, _⟩ | h | ⟨_, hrefuses⟩
      · rcases hw.buildFailed hold with ⟨before, b, after, rfl, hrefuses⟩
        exact ⟨before, b, after ++ [a], by simp, hrefuses⟩
      · exact absurd hreason Run.endReason?_ne_buildFailed
      · cases h
      · exact ⟨acts, a, [], rfl, hrefuses⟩

/-!
# Stopped runs

Once stopped, a run stays stopped, for the same reason.
-/

theorem Happens.stopped (h : Happens w a w') {reason : StopReason}
    (hstage : w.run.stage = .stopped reason) : w'.run.stage = .stopped reason := by
  cases h with
  | launch _ hidle _ | refuse _ hidle _ => cases hidle.symm.trans hstage
  | close _ _ =>
      show (w.run.close _).stage = _
      rw [Run.stage_close, hstage]
  | _ => exact hstage

theorem stage_perform {reason : StopReason} (h : w.run.stage = .stopped reason)
    (acts : List Act) : (w.perform acts).run.stage = .stopped reason := by
  induction acts generalizing w with
  | nil => exact h
  | cons a acts ih => exact ih (w := w.step a) ((happens_act w a).stopped h)

def Stopping (w : Watch) : Prop :=
  (∃ reason, w.run.stage = .stopped reason) ∨
    ∃ reason, w.duty = .cancelling reason ∨ w.duty = .notifying reason ∨
      w.duty = .releasing reason ∨ w.duty = .joining reason

theorem Happens.stopping (h : Happens w a w') (hw : w.Stopping) : w'.Stopping := by
  rcases hw with ⟨reason, hstage⟩ | ⟨reason, hduty⟩
  · exact Or.inl ⟨reason, h.stopped hstage⟩
  · cases h with
    | rest | work _ _ => exact Or.inr ⟨reason, hduty⟩
    | cancel _ => exact Or.inr ⟨_, Or.inr (Or.inl rfl)⟩
    | notify _ => exact Or.inr ⟨_, Or.inr (Or.inr (Or.inl rfl))⟩
    | release _ => exact Or.inr ⟨_, Or.inr (Or.inr (Or.inr rfl))⟩
    | close _ _ => exact Or.inl (Run.exists_stage_close w.run _)
    | launch h _ _ | refuse h _ _ | pause h _ | resume h _ | advance h _ | stop h | retime h
    | serve h _ _ _ _ | drop h | set h | request h => simp [h] at hduty

theorem stopping_perform (h : w.Stopping) (acts : List Act) : (w.perform acts).Stopping := by
  induction acts generalizing w with
  | nil => exact h
  | cons a acts ih => exact ih (w := w.step a) ((happens_act w a).stopping h)

theorem stopping_stop (hfree : w.duty = .free) : (w.step (.call .stop)).Stopping := by
  right
  exact ⟨w.run.earlierReason?, Or.inl (by simp [step, act, enter, hfree])⟩

theorem Justified.of_stopped {delay : Nat} {acts : List Act} {reason : StopReason}
    (hstate : ((new delay).perform acts).run.state = .stopped reason) :
    ((new delay).perform acts).Given reason ∨
      ((new delay).perform acts).run.stage = .running ∧
        ((new delay).perform acts).run.endReason? = some reason := by
  rcases (orderly_perform delay acts).staged.of_stopped hstate with hstage | hended
  · exact Or.inl (Or.inl hstage)
  · exact Or.inr hended

theorem stage_of_refuses (h : w.Refuses a) : (w.step a).run.stage = .stopped .buildFailed := by
  rcases h with ⟨chart, errors, rfl, hfree, hidle, hbuild⟩
  simp [step, act, enter, hfree, Run.start, Run.stage_of_idle hidle, hbuild]

/-- The state of a run moves from idle to running, between running and paused, and from there to
stopped, where it stays.  It is stopped for a failure to build exactly if a start found one, as
finished only where nothing was left to carry out, and for an error only if a failure is
signalled.  A run that was told to stop has stopped altogether. -/
theorem state_moves_in_order (delay : Nat) (acts : List Act) :
    let w := (new delay).perform acts
    w.seen.IsChain Follows ∧ .building ∉ w.seen ∧
    (w.duty = .free → w.seen.getLast? = some w.run.state) ∧
    (∀ reason more, w.duty = .free → w.run.state = .stopped reason →
      (w.perform more).duty = .free → (w.perform more).run.state = .stopped reason) ∧
    (w.run.state = .stopped .buildFailed ↔
      ∃ before chart after errors, acts = before ++ .call (.start chart) :: after ∧
        ((new delay).perform before).duty = .free ∧
        ((new delay).perform before).run.state = .idle ∧
        Program.build chart = .error errors) ∧
    (w.run.state = .stopped .finished →
      ∃ before, before <+: acts ∧ ((new delay).perform before).Finished) ∧
    (w.run.state = .stopped .error → w.run.failed = true) ∧
    (w.duty = .free → ∀ more,
      let v := (w.step (.call .stop)).perform more
      v.duty = .free →
        (∃ reason, v.run.state = .stopped reason) ∧ v.run.isLive = false ∧
        v.run.prompt? = none ∧ v.run.drainOutput.1 = [] ∧ v.run.drainErrors.1 = [] ∧
        v.run.drainUpdates.1 = [] ∧ ∀ line, (v.run.submit line).1 = false) := by
  intro w
  have htraced : w.Traced := traced_perform delay acts
  have hjustified : Justified delay acts w := justified_perform delay acts
  refine ⟨htraced.chain, htraced.building, htraced.getLast,
    fun _ _ hfree hstopped hfree' => stopped_perform hfree hstopped hfree', ?_, ?_, ?_, ?_⟩
  · constructor
    · intro hstate
      rcases Justified.of_stopped hstate with hgiven | ⟨_, hended⟩
      · rcases hjustified.buildFailed hgiven with ⟨before, a, after, hacts, hrefuses⟩
        rcases hrefuses with ⟨chart, errors, rfl, hfree, hidle, hbuild⟩
        exact ⟨before, chart, after, errors, hacts, hfree, hidle, hbuild⟩
      · exact absurd hended Run.endReason?_ne_buildFailed
    · rintro ⟨before, chart, after, errors, hacts, hfree, hidle, hbuild⟩
      have hrefuses := stage_of_refuses ⟨chart, errors, rfl, hfree, hidle, hbuild⟩
      have hstage : w.run.stage = .stopped .buildFailed := by
        simp only [w, hacts, perform_append, perform_cons]
        exact stage_perform hrefuses after
      exact Run.state_of_stopped hstage
  · intro hstate
    rcases Justified.of_stopped hstate with hgiven | ⟨hstage, hended⟩
    · exact hjustified.finished hgiven
    · exact ⟨acts, List.prefix_rfl, finished_of_endReason? hstage hended⟩
  · intro hstate
    rcases Justified.of_stopped hstate with hgiven | ⟨_, hended⟩
    · exact hjustified.error hgiven
    · exact Run.failed_of_endReason? hended
  · intro hfree more v hfree'
    have hstaged : v.run.Staged := by
      have horderly := orderly_perform delay (acts ++ .call .stop :: more)
      rw [perform_append, perform_cons] at horderly
      exact horderly.staged
    rcases stopping_perform (stopping_stop hfree) more with ⟨reason, hstage⟩ | ⟨reason, hduty⟩
    · exact ⟨⟨reason, Run.state_of_stopped hstage⟩, hstaged.closed hstage⟩
    · have hnot : v.duty = .free := hfree'
      simp [v, hnot] at hduty

def endless : Chart where
  start := ⟨0⟩
  blocks :=
    [⟨⟨0⟩, "", .start (some ⟨1⟩)⟩, ⟨⟨1⟩, "true", .decision (some ⟨1⟩) (some ⟨2⟩)⟩,
      ⟨⟨2⟩, "", .finish⟩]

def endlessActs : List Act :=
  Act.call (.start endless) :: List.replicate 12 (Act.work (.inOrder true)) ++
    [Act.call .pause, Act.proceed, Act.work (.inOrder true), Act.proceed]

def endlessStop : List Act :=
  [Act.proceed, Act.work (.inOrder true), Act.proceed, Act.proceed] ++
    List.replicate 8 (Act.work (.inOrder true)) ++ [Act.proceed, Act.call (.start endless)]

theorem state_moves_in_order_endless :
    let w := (new 0).perform endlessActs
    let v := (w.step (.call .stop)).perform endlessStop
    w.duty = .free ∧ w.run.state = .paused ∧ v.duty = .free ∧ v.run.state = .stopped .aborted ∧
      v.run.isLive = false ∧ v.seen.IsChain Follows := by
  intro w v
  have hfree : w.duty = .free := by cbv
  have hpaused : w.run.state = .paused := by cbv
  have hfree' : v.duty = .free := by cbv
  have hstopped : v.run.state = .stopped .aborted := by cbv
  have hall := state_moves_in_order 0 (endlessActs ++ .call .stop :: endlessStop)
  rw [perform_append, perform_cons] at hall
  have hlive := ((state_moves_in_order 0 endlessActs).2.2.2.2.2.2.2 hfree endlessStop hfree').2.1
  exact ⟨hfree, hpaused, hfree', hstopped, hlive, hall.1⟩

end Watch
end Blockwise
