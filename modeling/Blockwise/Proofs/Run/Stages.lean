import Blockwise.Proofs.Run.Watch

/-!
# Stages of a run

How the stage of a run, its worker, its signals and the call that the supervisor is in go
together, at any moment.
-/

namespace Blockwise

namespace Run

/-- A run has a worker exactly while it is at the running stage.  Before that nothing has been
signalled, and after that nothing is asked for. -/
inductive Staged (r : Run) : Prop where
  | idle : r.stage = .idle → r.engine = none → r.signals.paused = false →
      r.signals.failed = false → r.signals.prompt = none → Staged r
  | running {e : Engine} : r.stage = .running → r.engine = some e → Staged r
  | stopped {reason : StopReason} : r.stage = .stopped reason → r.engine = none →
      r.signals.prompt = none → Staged r

variable {r r' : Run}

theorem state_of_ended (h : r.stage = .running) {reason : StopReason}
    (hreason : r.endReason? = some reason) : r.state = .stopped reason := by
  simp [state, h, isActiveStage, hreason]

theorem state_of_live (h : r.stage = .running) (hreason : r.endReason? = none) :
    r.state = if r.signals.paused then .paused else .running := by
  simp [state, h, isActiveStage, hreason]

theorem state_of_idle (h : r.stage = .idle) : r.state = .idle := by
  simp [state, h, isActiveStage]

theorem stage_of_idle (h : r.state = .idle) : r.stage = .idle := by
  unfold state at h
  split at h
  · split at h
    · cases h
    · split at h <;> cases h
  · exact h

theorem state_of_stopped {reason : StopReason} (h : r.stage = .stopped reason) :
    r.state = .stopped reason := by
  simp [state, h, isActiveStage]

theorem Staged.running_of_engine (h : r.Staged) {e : Engine} (hengine : r.engine = some e) :
    r.stage = .running := by
  cases h with
  | running hstage _ => exact hstage
  | idle _ hnone _ _ _ | stopped _ hnone _ =>
      rw [hnone] at hengine
      cases hengine

theorem Staged.of_idle (h : r.Staged) (hidle : r.stage = .idle) :
    r.engine = none ∧ r.signals.paused = false ∧ r.signals.failed = false ∧
      r.signals.prompt = none := by
  cases h with
  | idle _ hengine hpaused hfailed hprompt => exact ⟨hengine, hpaused, hfailed, hprompt⟩
  | running hstage _ | stopped hstage _ _ => cases hidle.symm.trans hstage

theorem Staged.of_state (h : r.Staged) (paused : Bool)
    (hstate : r.state = if paused then .paused else .running) :
    r.stage = .running ∧ r.signals.paused = paused := by
  cases h with
  | idle hstage _ _ _ _ =>
      rw [state_of_idle hstage] at hstate
      cases paused <;> cases hstate
  | stopped hstage _ _ =>
      rw [state_of_stopped hstage] at hstate
      cases paused <;> cases hstate
  | running hstage _ =>
      refine ⟨hstage, ?_⟩
      cases hreason : r.endReason? with
      | some reason =>
          rw [state_of_ended hstage hreason] at hstate
          cases paused <;> cases hstate
      | none =>
          rw [state_of_live hstage hreason] at hstate
          cases hpaused : r.signals.paused <;> cases paused <;> simp [hpaused] at hstate ⊢

theorem endReason?_cases {reason : StopReason} (h : r.endReason? = some reason) :
    reason = .error ∧ r.signals.failed = true ∨
      reason = .aborted ∧ r.signals.cancelled = true ∨
        reason = .finished ∧ r.signals.failed = false ∧ r.signals.cancelled = false := by
  unfold endReason? at h
  split at h
  · cases h
  · split at h
    · next hfailed =>
        cases h
        exact Or.inl ⟨rfl, hfailed⟩
    · next hfailed =>
        split at h
        · next hcancelled =>
            cases h
            exact Or.inr (Or.inl ⟨rfl, hcancelled⟩)
        · next hcancelled =>
            cases h
            exact Or.inr (Or.inr ⟨rfl, Bool.eq_false_iff.mpr hfailed,
              Bool.eq_false_iff.mpr hcancelled⟩)

theorem Staged.congr (h : r.Staged) (hstage : r'.stage = r.stage) (hengine : r'.engine = r.engine)
    (hpaused : r.signals.paused = false → r'.signals.paused = false)
    (hfailed : r'.signals.failed = r.signals.failed)
    (hprompt : r'.signals.prompt = r.signals.prompt) : r'.Staged := by
  cases h with
  | idle hidle hnone hquiet hfine hasked =>
      exact idle (hstage.trans hidle) (hengine.trans hnone) (hpaused hquiet)
        (hfailed.trans hfine) (hprompt.trans hasked)
  | running hrunning hsome => exact running (hstage.trans hrunning) (hengine.trans hsome)
  | stopped hstopped hnone hasked =>
      exact stopped (hstage.trans hstopped) (hengine.trans hnone) (hprompt.trans hasked)

theorem failed_of_endReason? (h : r.endReason? = some .error) : r.signals.failed = true := by
  rcases endReason?_cases h with ⟨_, hfailed⟩ | ⟨hreason, _⟩ | ⟨hreason, _⟩
  · exact hfailed
  · cases hreason
  · cases hreason

theorem endReason?_ne_buildFailed : r.endReason? ≠ some .buildFailed := by
  intro h
  rcases endReason?_cases h with ⟨hreason, _⟩ | ⟨hreason, _⟩ | ⟨hreason, _⟩ <;> cases hreason

theorem Staged.of_earlierReason? (h : r.Staged) {reason : StopReason}
    (hreason : r.earlierReason? = some reason) :
    r.endReason? = some reason ∧ r.stage = .running := by
  unfold earlierReason? at hreason
  cases h with
  | running hstage _ =>
      rw [hstage] at hreason
      exact ⟨hreason, hstage⟩
  | idle hstage _ _ _ _ | stopped hstage _ _ =>
      rw [hstage] at hreason
      cases hreason

theorem Staged.of_stopped (h : r.Staged) {reason : StopReason}
    (hstate : r.state = .stopped reason) :
    r.stage = .stopped reason ∨ r.stage = .running ∧ r.endReason? = some reason := by
  cases h with
  | idle hstage _ _ _ _ => cases (state_of_idle hstage).symm.trans hstate
  | stopped hstage _ _ =>
      cases (state_of_stopped hstage).symm.trans hstate
      exact Or.inl hstage
  | running hstage _ =>
      cases hreason : r.endReason? with
      | some given =>
          cases (state_of_ended hstage hreason).symm.trans hstate
          exact Or.inr ⟨hstage, rfl⟩
      | none =>
          rw [state_of_live hstage hreason] at hstate
          split at hstate <;> cases hstate

theorem stage_close (r : Run) (reason : Option StopReason) :
    (r.close reason).stage =
      match r.stage with
      | .stopped given => .stopped given
      | _ => .stopped (reason.getD .aborted) := rfl

theorem exists_stage_close (r : Run) (reason : Option StopReason) :
    ∃ given, (r.close reason).stage = .stopped given := by
  rw [stage_close]
  split
  · exact ⟨_, rfl⟩
  · exact ⟨_, rfl⟩

theorem ended_of_isLive {e : Engine} (hengine : r.engine = some e) (h : r.isLive = false) :
    e.phase = .ended := by
  simp only [isLive, hengine, Option.any_some, Bool.not_eq_false'] at h
  exact Phase.eq_ended_of_isEnded h

theorem Staged.closed (h : r.Staged) {reason : StopReason} (hstage : r.stage = .stopped reason) :
    r.isLive = false ∧ r.prompt? = none ∧ r.drainOutput.1 = [] ∧ r.drainErrors.1 = [] ∧
      r.drainUpdates.1 = [] ∧ ∀ line, (r.submit line).1 = false := by
  cases h with
  | idle hidle _ _ _ _ => cases hstage.symm.trans hidle
  | running hrunning _ => cases hstage.symm.trans hrunning
  | stopped _ hnone hprompt =>
      simp [isLive, prompt?, drainOutput, drainErrors, drainUpdates, submit, hnone, hprompt]

theorem isLive_of_endReason? {reason : StopReason} (h : r.endReason? = some reason) :
    r.isLive = false := by
  unfold endReason? at h
  cases hlive : r.isLive with
  | true => simp [hlive] at h
  | false => rfl

end Run

namespace Duty

def Fits (r : Run) : Duty → Prop
  | free => r.signals.cancelled = true → ∃ reason, r.stage = .stopped reason
  | dropping _ => r.stage = .running ∧ r.signals.cancelled = false
  | setting _ => r.stage = .running ∧ r.signals.cancelled = false ∧ r.signals.step = false
  | requesting => r.stage = .running ∧ r.signals.cancelled = false ∧ r.signals.paused = true
  | cancelling _ => r.signals.cancelled = true → ∃ reason, r.stage = .stopped reason
  | notifying _ => r.signals.cancelled = true
  | releasing _ => r.signals.cancelled = true
  | joining _ => r.signals.cancelled = true

end Duty

namespace Watch

variable {w w' : Watch} {a : Act}

structure Orderly (w : Watch) : Prop where
  staged : w.run.Staged
  duty : w.duty.Fits w.run
  step : w.run.signals.cancelled = false → w.run.signals.paused = false →
    w.run.signals.step = false

theorem orderly_new (delay : Nat) : (new delay).Orderly where
  staged := Run.Staged.idle rfl rfl rfl rfl rfl
  duty := by
    intro h
    cases h
  step := fun _ _ => rfl

/-- A free supervisor of a run at the running stage has not cancelled it. -/
theorem Orderly.uncancelled (h : w.Orderly) (hfree : w.duty = .free)
    (hstage : w.run.stage = .running) : w.run.signals.cancelled = false := by
  have hduty := h.duty
  rw [hfree] at hduty
  cases hcancelled : w.run.signals.cancelled with
  | false => rfl
  | true =>
      rcases hduty hcancelled with ⟨reason, hstopped⟩
      rw [hstage] at hstopped
      cases hstopped

end Watch

theorem Duty.Fits.work {duty : Duty} {r : Run} {chance : Chance} {e e' : Engine} {s : Signals}
    {done : List Deed} (h : duty.Fits r) (hsteps : e.Steps chance r.signals s e' done) :
    duty.Fits { r with signals := s, engine := some e' } := by
  have hcancelled := hsteps.cancelled
  have hpaused := hsteps.paused
  have hstep := hsteps.step_of_false
  cases duty with
  | free | cancelling _ =>
      intro hset
      apply h
      rw [← hcancelled]
      exact hset
  | dropping _ => exact ⟨h.1, hcancelled.trans h.2⟩
  | setting _ => exact ⟨h.1, hcancelled.trans h.2.1, hstep h.2.2⟩
  | requesting => exact ⟨h.1, hcancelled.trans h.2.1, hpaused.trans h.2.2⟩
  | notifying _ | releasing _ | joining _ => exact hcancelled.trans h

namespace Watch

variable {w w' : Watch} {a : Act}

theorem Happens.staged (h : Happens w a w') (hw : w.Orderly) : w'.run.Staged := by
  have hstaged := hw.staged
  have hduty := hw.duty
  cases h with
  | work hengine _ => exact Run.Staged.running (hstaged.running_of_engine hengine) rfl
  | launch _ _ _ => exact Run.Staged.running rfl rfl
  | refuse _ hidle _ =>
      rcases hstaged.of_idle hidle with ⟨hengine, _, _, hprompt⟩
      exact Run.Staged.stopped rfl hengine hprompt
  | serve _ hengine _ _ _ => exact Run.Staged.running (hstaged.running_of_engine hengine) rfl
  | set hset =>
      rw [hset] at hduty
      cases hstaged with
      | running hstage hengine => exact Run.Staged.running hstage hengine
      | idle hstage _ _ _ _ | stopped hstage _ _ =>
          rw [hduty.1] at hstage
          cases hstage
  | notify _ =>
      cases hstaged with
      | idle hstage hengine hpaused hfailed hprompt =>
          exact Run.Staged.idle hstage (Run.engine_sendStop_of_none hengine) hpaused hfailed hprompt
      | running hstage hengine =>
          exact Run.Staged.running hstage (Run.engine_sendStop_of_some hengine)
      | stopped hstage hengine hprompt =>
          exact Run.Staged.stopped hstage (Run.engine_sendStop_of_none hengine) hprompt
  | close _ _ =>
      rcases Run.exists_stage_close w.run _ with ⟨given, hstage⟩
      exact Run.Staged.stopped hstage rfl rfl
  | rest | pause _ _ | resume _ _ | advance _ _ | stop _ => exact hstaged
  | retime _ | drop _ | request _ | cancel _ => exact hstaged.congr rfl rfl id rfl rfl
  | release _ => exact hstaged.congr rfl rfl (fun _ => rfl) rfl rfl

theorem Happens.fits (h : Happens w a w') (hw : w.Orderly) : w'.duty.Fits w'.run := by
  have hduty := hw.duty
  cases h with
  | rest => exact hduty
  | work _ hsteps => exact hduty.work hsteps
  | launch hfree hidle _ =>
      rw [hfree] at hduty ⊢
      intro hcancelled
      rcases hduty hcancelled with ⟨reason, hstopped⟩
      rw [hidle] at hstopped
      cases hstopped
  | refuse hfree _ _ =>
      rw [hfree]
      exact fun _ => ⟨_, rfl⟩
  | pause hfree hstate =>
      have hstage := (hw.staged.of_state false hstate).1
      exact ⟨hstage, hw.uncancelled hfree hstage⟩
  | resume hfree hstate =>
      have hstage := (hw.staged.of_state true hstate).1
      exact ⟨hstage, hw.uncancelled hfree hstage⟩
  | advance hfree hstate =>
      rcases hw.staged.of_state true hstate with ⟨hstage, hpaused⟩
      exact ⟨hstage, hw.uncancelled hfree hstage, hpaused⟩
  | stop hfree =>
      rw [hfree] at hduty
      exact hduty
  | retime hfree | serve hfree _ _ _ _ =>
      rw [hfree] at hduty ⊢
      exact hduty
  | drop hdrop =>
      rw [hdrop] at hduty
      exact ⟨hduty.1, hduty.2, rfl⟩
  | set hset | request hset =>
      rw [hset] at hduty
      intro hcancelled
      cases hcancelled.symm.trans hduty.2.1
  | cancel _ => exact rfl
  | notify hnotify =>
      rw [hnotify] at hduty
      exact hduty
  | release hrelease =>
      rw [hrelease] at hduty
      exact hduty
  | close _ _ => exact fun _ => Run.exists_stage_close w.run _

theorem Happens.stepless (h : Happens w a w') (hw : w.Orderly) :
    w'.run.signals.cancelled = false → w'.run.signals.paused = false →
      w'.run.signals.step = false := by
  have hduty := hw.duty
  cases h with
  | work _ hsteps =>
      intro hcancelled hpaused
      apply hsteps.step_of_false
      exact hw.step (hsteps.cancelled.symm.trans hcancelled) (hsteps.paused.symm.trans hpaused)
  | drop _ => exact fun _ _ => rfl
  | set hset =>
      rw [hset] at hduty
      exact fun _ _ => hduty.2.2
  | request hrequest =>
      rw [hrequest] at hduty
      intro _ hpaused
      cases hpaused.symm.trans hduty.2.2
  | cancel _ =>
      intro hcancelled
      cases hcancelled
  | release hrelease =>
      rw [hrelease] at hduty
      intro hcancelled
      cases hcancelled.symm.trans hduty
  | _ => exact hw.step

theorem orderly_step (w : Watch) (a : Act) (hw : w.Orderly) : (w.step a).Orderly := by
  have h := happens_act w a
  exact ⟨h.staged hw, h.fits hw, h.stepless hw⟩

theorem orderly_perform (delay : Nat) (acts : List Act) : ((new delay).perform acts).Orderly :=
  always orderly_new orderly_step delay acts

theorem always_orderly {Holds : Watch → Prop} (hnew : ∀ delay, Holds (new delay))
    (hstep : ∀ w a, w.Orderly → Holds w → Holds (w.step a)) (delay : Nat) (acts : List Act) :
    Holds ((new delay).perform acts) :=
  @always_along delay (fun _ w => Holds w) (hnew delay)
    (fun acts a hw => hstep _ a (orderly_perform delay acts) hw) acts

end Watch
end Blockwise
