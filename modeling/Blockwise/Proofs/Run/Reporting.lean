import Blockwise.Desk
import Blockwise.Proofs.Program.Exactness
import Blockwise.Proofs.Run.Stages

/-!
# How failures are reported

A worker that fails raises a signal, sends the fault and ends, in this order and with the failed
block still announced, so that whoever finds the fault finds the other two as well.  A read that
is called off ends the worker without any of this.
-/

namespace Blockwise

namespace Phase

def isFailing : Phase → Bool
  | failing _ | reporting _ | quitting => true
  | _ => false

def isAtStep : Phase → Bool
  | checking _ | talking _ _ | waiting _ _ _ | answering _ _ | publishing _ _ _ | timing _ _
  | pacing _ _ _ | holding _ _ | held _ _ | stepping _ _ | leaving _ _ => true
  | _ => false

theorem isInterruption_of_ofFault {fault fault' : Fault} (h : ofFault fault = failing fault') :
    fault'.isInterruption = false := by
  unfold ofFault at h
  split at h
  · cases h
  · next hfine =>
      cases h
      exact Bool.eq_false_iff.mpr hfine

theorem isInterruption_of_ofChoice {successor : Successor} {value : Value} {fault : Fault}
    (h : ofChoice successor value = failing fault) : fault.isInterruption = false := by
  unfold ofChoice at h
  split at h
  · cases h
  · split at h
    · cases h
    · cases h
    · exact isInterruption_of_ofFault h
    · exact isInterruption_of_ofFault h

end Phase

/-- How far the failure of the block has been made known in the phase: whether it is signalled,
the failures that there were and the faults that were sent. -/
inductive Tells (block : BlockId) : Phase → Bool → List (BlockId × Fault) → List Fault → Prop where
  | calm {phase : Phase} : phase.isFailing = false → Tells block phase false [] []
  | failing {fault : Fault} : fault.isInterruption = false →
      Tells block (.failing fault) false [(block, fault)] []
  | raised {fault : Fault} : fault.isInterruption = false →
      Tells block (.reporting fault) true [(block, fault)] []
  | sent {fault : Fault} : fault.isInterruption = false →
      Tells block .quitting true [(block, fault)] [fault]
  | gone {fault : Fault} : fault.isInterruption = false →
      Tells block .ended true [(block, fault)] [fault]
  | interrupted {fault : Fault} : fault.isInterruption = true →
      Tells block .ended false [(block, fault)] []

namespace Tells

variable {block : BlockId} {phase : Phase} {failed : Bool} {failures : List (BlockId × Fault)}
  {reports : List Fault}

theorem ofFault (block : BlockId) (fault : Fault) :
    Tells block (.ofFault fault) false [(block, fault)] [] := by
  unfold Phase.ofFault
  split
  · next h => exact interrupted h
  · next h => exact failing (Bool.eq_false_iff.mpr h)

theorem calm_inv (h : Tells block phase failed failures reports)
    (hcalm : phase.isFailing = false) (hended : phase ≠ .ended) :
    failed = false ∧ failures = [] ∧ reports = [] := by
  cases h with
  | calm _ => exact ⟨rfl, rfl, rfl⟩
  | failing _ | raised _ | sent _ => cases hcalm
  | gone _ | interrupted _ => exact absurd rfl hended

theorem length_reports_le (h : Tells block phase failed failures reports) :
    reports.length ≤ 1 := by
  cases h <;> simp

theorem failed_of_mem (h : Tells block phase failed failures reports) {fault : Fault}
    (hfault : fault ∈ reports) : failed = true ∧ fault.isInterruption = false := by
  cases h with
  | sent hfine | gone hfine =>
      rw [List.mem_singleton.mp hfault]
      exact ⟨rfl, hfine⟩
  | _ => cases hfault

theorem quiet_of_interruption (h : Tells block phase failed failures reports)
    {failure : BlockId × Fault} (hfailure : failure ∈ failures)
    (hinterrupted : failure.2.isInterruption = true) : failed = false ∧ reports = [] := by
  cases h with
  | calm _ => cases hfailure
  | failing _ => exact ⟨rfl, rfl⟩
  | interrupted _ => exact ⟨rfl, rfl⟩
  | raised hfine | sent hfine | gone hfine =>
      rw [List.mem_singleton.mp hfailure, hfine] at hinterrupted
      cases hinterrupted

theorem failure_of_failed (h : Tells block phase true failures reports) :
    ∃ fault, failures = [(block, fault)] ∧ fault.isInterruption = false := by
  cases h with
  | raised hfine | sent hfine | gone hfine => exact ⟨_, rfl, hfine⟩

theorem eq_of_mem (h : Tells block phase true failures reports) {failure : BlockId × Fault}
    (hfailure : failure ∈ failures) {fault : Fault} (hfault : fault ∈ reports) :
    fault = failure.2 := by
  cases h with
  | raised _ => cases hfault
  | sent _ | gone _ =>
      rw [List.mem_singleton.mp hfault, List.mem_singleton.mp hfailure]

end Tells

/-!
# The worker

From the fault on, the worker has nothing left to do but to signal the failure, to send the fault
and to end.  Until then the block that it is at is announced, and has something to carry out.
-/

namespace Engine

variable {chance : Chance} {s s' : Signals} {e e' : Engine} {done : List Deed}
  {failures : List (BlockId × Fault)} {reports : List Fault}

theorem Steps.tells (h : Steps chance s e s' e' done)
    (he : Tells e.current e.phase s.failed failures reports) :
    Tells e'.current e'.phase s'.failed (failures ++ done.filterMap Deed.failure?)
      (reports ++ done.filterMap Deed.report?) := by
  cases h with
  | enter hphase | arrive hphase _ | finish hphase _ | begin hphase _ | leave hphase _
  | write hphase | ask hphase | look hphase | interrupt hphase _ | take hphase _ | answer hphase
  | publish hphase | listed hphase | time hphase | wake hphase _ | hold hphase _ | pass hphase _
  | stay hphase _ | grant hphase _ | deny hphase _ | choose hphase _ _ | lapse hphase _ _
  | move hphase =>
      rw [hphase] at he
      rcases he.calm_inv rfl (by simp) with ⟨hfailed, rfl, rfl⟩
      show Tells _ _ s.failed [] []
      rw [hfailed]
      exact Tells.calm rfl
  | obey hcheck _ =>
      have hcalm : e.phase.isFailing = false ∧ e.phase ≠ .ended := by
        cases hphase : e.phase <;> simp [hphase, Phase.isCheck, Phase.isFailing] at hcheck ⊢
      rcases he.calm_inv hcalm.1 hcalm.2 with ⟨hfailed, rfl, rfl⟩
      show Tells _ _ s.failed [] []
      rw [hfailed]
      exact Tells.calm rfl
  | @fail step fault store hphase =>
      rw [hphase] at he
      rcases he.calm_inv rfl (by simp) with ⟨hfailed, rfl, rfl⟩
      show Tells _ _ s.failed [(e.current, fault)] []
      rw [hfailed]
      exact Tells.ofFault e.current fault
  | @balk step value fault hphase _ hchoice =>
      rw [hphase] at he
      rcases he.calm_inv rfl (by simp) with ⟨hfailed, rfl, rfl⟩
      show Tells _ _ s.failed [(e.current, fault)] []
      rw [hfailed]
      exact Tells.failing (Phase.isInterruption_of_ofChoice hchoice)
  | raise hphase =>
      rw [hphase] at he
      generalize s.failed = failed at he
      cases he with
      | failing hfine => exact Tells.raised hfine
      | calm h => cases h
  | report hphase =>
      rw [hphase] at he
      generalize s.failed = failed at he
      cases he with
      | raised hfine => exact Tells.sent hfine
      | calm h => cases h
  | quit hphase =>
      rw [hphase] at he
      generalize s.failed = failed at he
      cases he with
      | sent hfine => exact Tells.gone hfine
      | calm h => cases h
  | doze _ _ | rest _ => simpa using he

structure Placed (s : Signals) (e : Engine) : Prop where
  announced : e.phase ≠ .entering → s.current = e.current
  known : e.phase.isAtStep = true → ∃ step, e.program.get? e.current = some step

theorem placed_ofFault (h : s.current = e.current) (fault : Fault) :
    (e.go (.ofFault fault)).Placed s := by
  refine ⟨fun _ => h, ?_⟩
  unfold Phase.ofFault
  intro hstep
  split at hstep <;> cases hstep

theorem Steps.placed (h : Steps chance s e s' e' done) (he : e.Placed s) : e'.Placed s' := by
  have hannounced := he.announced
  have hknown := he.known
  cases h with
  | enter _ | move _ => exact ⟨fun _ => rfl, nofun⟩
  | doze _ _ | rest _ => exact he
  | arrive hphase hget =>
      rw [hphase] at hannounced
      exact ⟨fun _ => hannounced (by simp), fun _ => ⟨_, hget⟩⟩
  | fail hphase =>
      rw [hphase] at hannounced
      exact placed_ofFault (hannounced (by simp)) _
  | begin hphase _ | leave hphase _ | write hphase | ask hphase | look hphase
  | interrupt hphase _ | take hphase _ | answer hphase | publish hphase | listed hphase
  | time hphase | wake hphase _ | hold hphase _ | pass hphase _ | stay hphase _ | grant hphase _
  | deny hphase _ =>
      rw [hphase] at hannounced hknown
      exact ⟨fun _ => hannounced (by simp), fun _ => hknown rfl⟩
  | finish hphase _ | choose hphase _ _ | balk hphase _ _ | lapse hphase _ _ | raise hphase
  | report hphase | quit hphase =>
      rw [hphase] at hannounced
      exact ⟨fun _ => hannounced (by simp), nofun⟩
  | obey hcheck _ =>
      refine ⟨fun _ => hannounced ?_, nofun⟩
      intro hphase
      rw [hphase] at hcheck
      cases hcheck

theorem Steps.known_of_failure (h : Steps chance s e s' e' done) (he : e.Placed s)
    {failure : BlockId × Fault} (hfailure : failure ∈ done.filterMap Deed.failure?) :
    ∃ step, e.program.get? failure.1 = some step := by
  have hknown := he.known
  cases h with
  | fail hphase | balk hphase _ _ =>
      rw [hphase] at hknown
      rw [List.mem_singleton.mp hfailure]
      exact hknown rfl
  | _ => cases hfailure

theorem Steps.errors (h : Steps chance s e s' e' done) :
    e'.wires.errors.toList = e.wires.errors.toList ++ done.filterMap Deed.report? := by
  cases h with
  | report _ => simp [Deed.report?]
  | _ => simp [Deed.report?, go]

theorem Steps.only_reports (h : Steps chance s e s' e' done)
    (he : Tells e.current e.phase s.failed failures reports) (hfailed : s.failed = true) :
    s'.failed = true ∧ s'.current = s.current ∧ ∀ deed ∈ done, ∃ fault, deed = .reported fault := by
  rw [hfailed] at he
  cases h with
  | report hphase =>
      refine ⟨hfailed, rfl, ?_⟩
      intro deed hdeed
      exact ⟨_, List.mem_singleton.mp hdeed⟩
  | quit hphase | rest hphase => exact ⟨hfailed, rfl, nofun⟩
  | obey hcheck _ =>
      generalize e.phase = phase at he hcheck
      cases he <;> cases hcheck
  | enter hphase | arrive hphase _ | finish hphase _ | begin hphase _ | fail hphase
  | leave hphase _ | write hphase | ask hphase | look hphase | interrupt hphase _
  | take hphase _ | answer hphase | publish hphase | listed hphase | time hphase | doze hphase _
  | wake hphase _ | hold hphase _ | pass hphase _ | stay hphase _ | grant hphase _
  | deny hphase _ | choose hphase _ _ | balk hphase _ _ | lapse hphase _ _ | move hphase
  | raise hphase =>
      rw [hphase] at he
      cases he

end Engine

/-!
# Whole runs

The failures and the faults that were sent are read off the deeds of the worker.  They agree with
the signal and with the errors that are queued, as far as the failure has been made known.
-/

namespace Watch

variable {w w' : Watch} {a : Act} {acts : List Act}

def failures (w : Watch) : List (BlockId × Fault) :=
  w.deeds.filterMap Deed.failure?

def reports (w : Watch) : List Fault :=
  w.deeds.filterMap Deed.report?

def Charted (acts : List Act) (block : BlockId) : Prop :=
  ∃ chart, .call (.start chart) ∈ acts ∧ block ∈ chart.ids

/-- What holds of a run with the worker. -/
structure Live (acts : List Act) (w : Watch) (e : Engine) : Prop where
  tells : Tells e.current e.phase w.run.signals.failed w.failures w.reports
  placed : e.Placed w.run.signals
  reported : w.reported ++ e.wires.errors.toList = w.reports
  started : ∃ chart, .call (.start chart) ∈ acts ∧ Program.build chart = .ok e.program

structure Honest (acts : List Act) (w : Watch) : Prop where
  idle : w.run.stage = .idle → w.deeds = [] ∧ w.reported = []
  live : ∀ e, w.run.engine = some e → w.Live acts e
  closed : w.run.engine = none →
    Tells w.run.signals.current .ended w.run.signals.failed w.failures w.reports ∧
      w.reported <+: w.reports
  charted : ∀ failure ∈ w.failures, Charted acts failure.1

theorem honest_new (delay : Nat) : (new delay).Honest [] where
  idle := fun _ => ⟨rfl, rfl⟩
  live := by
    intro e he
    cases he
  closed := fun _ => ⟨Tells.calm rfl, List.prefix_rfl⟩
  charted := by
    intro failure hfailure
    cases hfailure

theorem Live.mono {e : Engine} (h : w.Live acts e) (a : Act) : w.Live (acts ++ [a]) e := by
  rcases h.started with ⟨chart, hchart, hbuild⟩
  exact ⟨h.tells, h.placed, h.reported, chart, List.mem_append_left _ hchart, hbuild⟩

theorem Honest.mono (h : w.Honest acts) (a : Act) : w.Honest (acts ++ [a]) where
  idle := h.idle
  live := fun e he => (h.live e he).mono a
  closed := h.closed
  charted := by
    intro failure hfailure
    rcases h.charted failure hfailure with ⟨chart, hchart, hblock⟩
    exact ⟨chart, List.mem_append_left _ hchart, hblock⟩

theorem Honest.congr (h : w.Honest acts) (hdeeds : w'.deeds = w.deeds)
    (hreported : w'.reported = w.reported)
    (hstage : w'.run.stage = .idle → w.run.stage = .idle)
    (hengine : w'.run.engine = w.run.engine)
    (hfailed : w'.run.signals.failed = w.run.signals.failed)
    (hcurrent : w'.run.signals.current = w.run.signals.current) : w'.Honest acts where
  idle := by
    intro hidle
    rw [hdeeds, hreported]
    exact h.idle (hstage hidle)
  live := by
    intro e he
    have hlive := h.live e (hengine.symm.trans he)
    refine ⟨?_, ⟨?_, hlive.placed.known⟩, ?_, hlive.started⟩
    · rw [failures, reports, hdeeds, hfailed]
      exact hlive.tells
    · intro hphase
      exact hcurrent.trans (hlive.placed.announced hphase)
    · rw [reports, hdeeds, hreported]
      exact hlive.reported
  closed := by
    intro hnone
    rw [failures, reports, hdeeds, hreported, hfailed, hcurrent]
    exact h.closed (hengine.symm.trans hnone)
  charted := by
    rw [failures, hdeeds]
    exact h.charted

theorem Honest.wires (h : w.Honest acts) (hstaged : w.run.Staged) {e : Engine} {wires : Wires}
    (hengine : w.run.engine = some e) (hengine' : w'.run.engine = some { e with wires := wires })
    (hstage : w'.run.stage = w.run.stage) (hsignals : w'.run.signals = w.run.signals)
    (hdeeds : w'.deeds = w.deeds) (taken : List Fault)
    (hreported : w'.reported = w.reported ++ taken)
    (htaken : e.wires.errors.toList = taken ++ wires.errors.toList) : w'.Honest acts where
  idle := by
    intro hidle
    cases (hstage.symm.trans hidle).symm.trans (hstaged.running_of_engine hengine)
  live := by
    intro e' he'
    cases hengine'.symm.trans he'
    have hlive := h.live e hengine
    refine ⟨?_, ?_, ?_, hlive.started⟩
    · rw [failures, reports, hdeeds, hsignals]
      exact hlive.tells
    · rw [hsignals]
      exact ⟨hlive.placed.announced, hlive.placed.known⟩
    · rw [reports, hdeeds, hreported, List.append_assoc, ← htaken]
      exact hlive.reported
  closed := by
    intro hnone
    cases hengine'.symm.trans hnone
  charted := by
    rw [failures, hdeeds]
    exact h.charted

theorem Honest.work (h : w.Honest acts) (hstaged : w.run.Staged) {chance : Chance}
    {e e' : Engine} {s : Signals} {done : List Deed} (hengine : w.run.engine = some e)
    (hsteps : e.Steps chance w.run.signals s e' done) :
    Honest acts
      { w with
        run := { w.run with signals := s, engine := some e' }
        deeds := w.deeds ++ done } where
  idle := by
    intro hidle
    cases hidle.symm.trans (hstaged.running_of_engine hengine)
  live := by
    intro e'' he''
    cases he''
    have hlive := h.live e hengine
    refine ⟨?_, hsteps.placed hlive.placed, ?_, ?_⟩
    · simpa [failures, reports] using hsteps.tells hlive.tells
    · show w.reported ++ e'.wires.errors.toList = (w.deeds ++ done).filterMap Deed.report?
      rw [hsteps.errors, ← List.append_assoc, hlive.reported, List.filterMap_append]
      rfl
    · rw [hsteps.program]
      exact hlive.started
  closed := by
    intro hnone
    cases hnone
  charted := by
    intro failure hfailure
    have hmem : failure ∈ w.failures ++ done.filterMap Deed.failure? := by
      simpa [failures] using hfailure
    rcases List.mem_append.mp hmem with hold | hnew
    · exact h.charted failure hold
    · have hlive := h.live e hengine
      rcases hlive.started with ⟨chart, hchart, hbuild⟩
      rcases hsteps.known_of_failure hlive.placed hnew with ⟨step, hget⟩
      rcases Program.block_of_get? hbuild hget with ⟨b, _, hb, _⟩
      exact ⟨chart, hchart, Chart.mem_ids_of_get? hb⟩

theorem Honest.close (h : w.Honest acts) (hended : w.run.isLive = false)
    (reason : Option StopReason) :
    Honest acts { w with run := w.run.close reason, duty := .free } where
  idle := by
    intro hidle
    rcases Run.exists_stage_close w.run reason with ⟨given, hstopped⟩
    cases hidle.symm.trans hstopped
  live := by
    intro e he
    cases he
  closed := by
    intro _
    cases hengine : w.run.engine with
    | none => exact h.closed hengine
    | some e =>
        have hphase := Run.ended_of_isLive hengine hended
        have hlive := h.live e hengine
        have hcurrent : w.run.signals.current = e.current :=
          hlive.placed.announced (by simp [hphase])
        have htells := hlive.tells
        rw [hphase, ← hcurrent] at htells
        exact ⟨htells, _, hlive.reported⟩
  charted := h.charted

theorem Happens.honest (h : Happens w a w') (hw : w.Honest acts) (hstaged : w.run.Staged) :
    w'.Honest (acts ++ [a]) := by
  have hmono := hw.mono a
  cases h with
  | rest => exact hmono
  | work hengine hsteps => exact hmono.work hstaged hengine hsteps
  | @launch chart program _ hidle hbuild =>
      rcases hw.idle hidle with ⟨hdeeds, hreported⟩
      rcases hstaged.of_idle hidle with ⟨_, _, hfailed, _⟩
      refine ⟨nofun, ?_, nofun, hmono.charted⟩
      intro e he
      cases he
      refine ⟨?_, ⟨nofun, nofun⟩, ?_, chart, by simp, hbuild⟩
      · simp only [failures, reports, hdeeds, hfailed]
        exact Tells.calm rfl
      · simp [reports, hdeeds, hreported, Engine.new, Wires.new]
  | refuse _ _ _ => exact hmono.congr rfl rfl nofun rfl rfl rfl
  | pause _ _ | resume _ _ | advance _ _ | stop _ | retime _ | drop _ | set _ | request _
  | cancel _ | release _ => exact hmono.congr rfl rfl id rfl rfl rfl
  | serve _ hengine _ htaken _ =>
      exact hmono.wires hstaged hengine rfl rfl rfl rfl _ rfl htaken
  | notify _ =>
      cases hengine : w.run.engine with
      | none =>
          have hsent := Run.engine_sendStop_of_none hengine
          exact hmono.congr rfl rfl id (hsent.trans hengine.symm) rfl rfl
      | some e =>
          have hsent := Run.engine_sendStop_of_some hengine
          exact hmono.wires hstaged hengine hsent rfl rfl rfl [] (List.append_nil _).symm rfl
  | close _ hended => exact hmono.close hended _

theorem honest_perform (delay : Nat) (acts : List Act) :
    ((new delay).perform acts).Honest acts := by
  apply always_along (honest_new delay)
  intro acts a hw
  have hact := (happens_act _ a).honest hw (orderly_perform delay acts).staged
  exact hact.congr rfl rfl id rfl rfl rfl

/-!
# After a failure

The failed block stays announced.  Faults are sent, but nothing else is done.
-/

theorem Honest.exists_tells (h : w.Honest acts) :
    ∃ block phase, Tells block phase w.run.signals.failed w.failures w.reports ∧
      w.reported <+: w.reports := by
  cases hengine : w.run.engine with
  | none => exact ⟨_, _, h.closed hengine⟩
  | some e =>
      have hlive := h.live e hengine
      exact ⟨_, _, hlive.tells, _, hlive.reported⟩

theorem Honest.drainErrors (h : w.Honest acts) {fault : Fault}
    (hfault : fault ∈ w.run.drainErrors.1) : fault ∈ w.reports := by
  cases hengine : w.run.engine with
  | none =>
      simp [Run.drainErrors, hengine] at hfault
  | some e =>
      have hdrain := Channel.drain_append e.wires.errors
      have hmem : fault ∈ e.wires.errors.drain.1 := by
        simpa [Run.drainErrors, hengine] using hfault
      rw [← (h.live e hengine).reported, ← hdrain]
      simp [hmem]

theorem Honest.tells_of_failed (h : w.Honest acts) (hfailed : w.run.signals.failed = true) :
    ∃ phase, Tells w.run.signals.current phase true w.failures w.reports := by
  cases hengine : w.run.engine with
  | none =>
      have hclosed := h.closed hengine
      rw [hfailed] at hclosed
      exact ⟨_, hclosed.1⟩
  | some e =>
      have hlive := h.live e hengine
      have htells := hlive.tells
      rw [hfailed] at htells
      have hcurrent : w.run.signals.current = e.current := by
        apply hlive.placed.announced
        intro hphase
        rw [hphase] at htells
        cases htells
      rw [hcurrent]
      exact ⟨_, htells⟩

structure OnlyReports (w w' : Watch) : Prop where
  failed : w'.run.signals.failed = true
  current : w'.run.signals.current = w.run.signals.current
  deeds : ∃ later, w'.deeds = w.deeds ++ later ∧ ∀ deed ∈ later, ∃ fault, deed = .reported fault

theorem OnlyReports.of_same (hfailed : w'.run.signals.failed = true)
    (hcurrent : w'.run.signals.current = w.run.signals.current) (hdeeds : w'.deeds = w.deeds) :
    OnlyReports w w' := by
  refine ⟨hfailed, hcurrent, [], ?_, nofun⟩
  rw [hdeeds, List.append_nil]

theorem OnlyReports.trans {w'' : Watch} (h : OnlyReports w w') (h' : OnlyReports w' w'') :
    OnlyReports w w'' := by
  rcases h.deeds with ⟨earlier, hearlier, honly⟩
  rcases h'.deeds with ⟨later, hlater, honly'⟩
  refine ⟨h'.failed, h'.current.trans h.current, earlier ++ later, ?_, ?_⟩
  · rw [hlater, hearlier, List.append_assoc]
  · intro deed hdeed
    rcases List.mem_append.mp hdeed with hmem | hmem
    · exact honly deed hmem
    · exact honly' deed hmem

theorem OnlyReports.failures (h : OnlyReports w w') : w'.failures = w.failures := by
  rcases h.deeds with ⟨later, hlater, honly⟩
  have hnone : later.filterMap Deed.failure? = [] := by
    rw [List.filterMap_eq_nil_iff]
    intro deed hdeed
    rcases honly deed hdeed with ⟨fault, rfl⟩
    rfl
  rw [Watch.failures, hlater, List.filterMap_append, hnone, List.append_nil]
  rfl

theorem Happens.only_reports (h : Happens w a w') (hw : w.Honest acts) (hstaged : w.run.Staged)
    (hfailed : w.run.signals.failed = true) : OnlyReports w w' := by
  cases h with
  | work hengine hsteps =>
      rcases hsteps.only_reports (hw.live _ hengine).tells hfailed with ⟨hraised, hcurrent, honly⟩
      exact ⟨hraised, hcurrent, _, rfl, honly⟩
  | launch _ hidle _ =>
      rcases hstaged.of_idle hidle with ⟨_, _, hfine, _⟩
      cases hfailed.symm.trans hfine
  | _ => exact OnlyReports.of_same hfailed rfl rfl

theorem only_reports_perform {delay : Nat}
    (hfailed : ((new delay).perform acts).run.signals.failed = true)
    (more : List Act) :
    OnlyReports ((new delay).perform acts) (((new delay).perform acts).perform more) := by
  induction more using List.reverseRecOn with
  | nil => exact OnlyReports.of_same hfailed rfl rfl
  | append_singleton more a ih =>
      have hhonest := honest_perform delay (acts ++ more)
      have hstaged := (orderly_perform delay (acts ++ more)).staged
      rw [perform_append] at hhonest hstaged
      have hact := (happens_act _ a).only_reports hhonest hstaged ih.failed
      rw [perform_concat]
      exact ih.trans ⟨hact.failed, hact.current, hact.deeds⟩

end Watch

theorem Desk.poll_errorBlock (d : Desk) (h : d.run.drainErrors.1 ≠ []) :
    d.poll.2.errorBlock = d.run.current? := by
  cases hengine : d.run.engine with
  | none => simp [Run.drainErrors, hengine] at h
  | some e =>
      have hdrain : e.wires.errors.drain.1 ≠ [] := by
        simpa [Run.drainErrors, hengine] using h
      simp [Desk.poll, Run.drainOutput, Run.drainErrors, Run.drainUpdates, hengine, hdrain,
        Run.current?]

namespace Watch

theorem current?_of_ne {r : Run} {block : BlockId} (h : r.signals.current = block)
    (hblock : block ≠ .reserved) : r.current? = some block := by
  simp [Run.current?, Signals.current?, h, hblock]

/-- At most one fault is ever sent, and whoever takes it finds the failure signalled.  A fault
that only says that a read was called off is neither sent nor signalled.  Once a failure is
signalled, it stays so, the worker does nothing but to send the fault, and the block that failed
stays the current one, so that it is the one that a desk shows. -/
theorem failure_reported_once (delay : Nat) (acts : List Act) :
    let w := (new delay).perform acts
    w.reports.length ≤ 1 ∧
    w.reported <+: w.reports ∧
    (w.reported ≠ [] ∨ w.run.drainErrors.1 ≠ [] → w.run.failed = true) ∧
    (∀ fault ∈ w.reports, fault.isInterruption = false) ∧
    (∀ failure ∈ w.failures, failure.2.isInterruption = true →
      w.run.failed = false ∧ w.reports = []) ∧
    (w.run.failed = true → ∃ block fault,
      w.failures = [(block, fault)] ∧ fault.isInterruption = false ∧ Charted acts block ∧
      ∀ more,
        let v := w.perform more
        v.run.failed = true ∧
        (∃ later, v.deeds = w.deeds ++ later ∧ ∀ deed ∈ later, deed = .reported fault) ∧
        (block ≠ .reserved →
          v.run.current? = some block ∧
          ∀ d : Desk, d.run = v.run → v.run.drainErrors.1 ≠ [] →
            d.poll.2.errorBlock = some block)) := by
  intro w
  have hw : w.Honest acts := honest_perform delay acts
  rcases hw.exists_tells with ⟨block, phase, htells, htaken⟩
  have hfailed : ∀ fault ∈ w.reports, w.run.signals.failed = true ∧ fault.isInterruption = false :=
    fun _ hfault => htells.failed_of_mem hfault
  refine ⟨htells.length_reports_le, htaken, ?_, fun fault hfault => (hfailed fault hfault).2,
    fun failure hfailure => htells.quiet_of_interruption hfailure, ?_⟩
  · intro hgiven
    rcases hgiven with hgiven | hgiven
    · rcases List.exists_mem_of_ne_nil _ hgiven with ⟨fault, hfault⟩
      exact (hfailed fault (htaken.subset hfault)).1
    · rcases List.exists_mem_of_ne_nil _ hgiven with ⟨fault, hfault⟩
      exact (hfailed fault (hw.drainErrors hfault)).1
  · intro hraised
    rcases hw.tells_of_failed hraised with ⟨_, htold⟩
    rcases htold.failure_of_failed with ⟨fault, hfailures, hfine⟩
    have hmem : (w.run.signals.current, fault) ∈ w.failures := by simp [hfailures]
    refine ⟨_, fault, hfailures, hfine, hw.charted _ hmem, ?_⟩
    intro more v
    have hv : v.Honest (acts ++ more) := by
      have hhonest := honest_perform delay (acts ++ more)
      rw [perform_append] at hhonest
      exact hhonest
    have honly : OnlyReports w v := only_reports_perform hraised more
    rcases honly.deeds with ⟨later, hlater, hreports⟩
    refine ⟨honly.failed, ⟨later, hlater, ?_⟩, ?_⟩
    · -- There is one failure, and it is its fault that was sent.
      intro deed hdeed
      rcases hreports deed hdeed with ⟨sent, rfl⟩
      rcases hv.tells_of_failed honly.failed with ⟨_, htold'⟩
      rw [honly.failures] at htold'
      have hsent : sent ∈ v.reports := by
        rw [reports, hlater, List.mem_filterMap]
        exact ⟨_, List.mem_append_right _ hdeed, rfl⟩
      rw [htold'.eq_of_mem hmem hsent]
    · intro hblock
      have hcurrent := current?_of_ne honly.current hblock
      refine ⟨hcurrent, ?_⟩
      intro d hd hdrain
      rw [← hd] at hdrain hcurrent
      rw [d.poll_errorBlock hdrain, hcurrent]

def undefined : Chart where
  start := ⟨0⟩
  blocks :=
    [⟨⟨0⟩, "", .start (some ⟨1⟩)⟩, ⟨⟨1⟩, "x", .output (some ⟨2⟩)⟩, ⟨⟨2⟩, "", .finish⟩]

def undefinedActs : List Act :=
  .call (.start undefined) :: List.replicate 5 (.work (.inOrder true))

theorem failure_reported_once_undefined :
    let w := (new 0).perform undefinedActs
    let v := w.perform [.work (.inOrder true)]
    w.run.failed = true ∧ w.run.drainErrors.1 = [] ∧ v.run.drainErrors.1.length = 1 ∧
      v.run.current? = some ⟨1⟩ ∧
      ∀ d : Desk, d.run = v.run → d.poll.2.errorBlock = some ⟨1⟩ := by
  intro w v
  have hfailed : w.run.failed = true := by cbv
  have hfirst : w.run.drainErrors.1 = [] := by cbv
  have hthen : v.run.drainErrors.1.length = 1 := by cbv
  have hblocks : w.failures.map Prod.fst = [⟨1⟩] := by cbv
  rcases (failure_reported_once 0 undefinedActs).2.2.2.2.2 hfailed with
    ⟨block, fault, hfailures, _, _, hmore⟩
  rw [hfailures] at hblocks
  cases hblocks
  rcases (hmore [.work (.inOrder true)]).2.2 (by decide) with ⟨hcurrent, hpoll⟩
  have hsome : v.run.drainErrors.1 ≠ [] := List.ne_nil_of_length_eq_add_one hthen
  exact ⟨hfailed, hfirst, hthen, hcurrent, fun d hd => hpoll d hd hsome⟩

end Watch
end Blockwise
