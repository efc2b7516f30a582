import Blockwise.Proofs.Run.Ending
import Blockwise.Proofs.Run.Progress
import Blockwise.Proofs.Run.Reads

/-!
# Cancelled runs

A worker whose run has been cancelled ends, wherever it stands: it begins no other block, calls
off its reads and waits for nothing.  How many steps it has left can be told beforehand, so that
whoever stops a run gets its worker back.
-/

namespace Blockwise

def Talk.toGo : Talk → Nat
  | .done (_, store) => store.entries.length + 4
  | .write _ next => Talk.toGo next + 1
  | .read _ next => Talk.toGo (next (.error Cause.interrupted.fault)) + 4

/-- How a pending read goes on in a run that has been cancelled: it looks further, it is called
off, or it takes a line, in a step that it was `about` to make when the run was cancelled. -/
inductive Phase.GivesUp (about : Prop) : Phase → Phase → Prop where
  | look {step : Step} {wait wait' : Wait} {next : Except Fault String → Talk} :
      GivesUp about (.waiting step wait next) (.waiting step wait' next)
  | interrupt {step : Step} {wait : Wait} {next : Except Fault String → Talk} :
      GivesUp about (.waiting step wait next)
        (.answering step (next (.error Cause.interrupted.fault)))
  | take {step : Step} {next : Except Fault String → Talk} {line : String} : about →
      GivesUp about (.waiting step .line next) (.answering step (next (.ok line)))

namespace Deed

def isEvaluation : Deed → Bool
  | evaluated _ => true
  | _ => false

end Deed

namespace Phase

def isMoving : Phase → Bool
  | moving _ => true
  | _ => false

def isTaking : Phase → Bool
  | waiting _ .line _ => true
  | _ => false

end Phase

/-!
# The worker

Each step of a worker whose run is cancelled brings it closer to its end.  It begins no block any
more, and goes on to one only if it was about to.
-/

namespace Engine

variable {chance : Chance} {s s' : Signals} {e e' : Engine} {done : List Deed}

/-- How many steps a worker has left once its run is cancelled. -/
def toGo (e : Engine) : Nat :=
  match e.phase with
  | .entering => 3
  | .arriving => 2
  | .checking _ => 1
  | .talking _ talk => Talk.toGo talk
  | .waiting _ .stops next => Talk.toGo (next (.error Cause.interrupted.fault)) + 3
  | .waiting _ .cancellation next => Talk.toGo (next (.error Cause.interrupted.fault)) + 2
  | .waiting _ .line next =>
      match e.wires.input.receive? with
      | some (line, _) => Talk.toGo (next (.ok line)) + 2
      | none => Talk.toGo (next (.error Cause.interrupted.fault)) + 4
  | .answering _ talk => Talk.toGo talk + 1
  | .publishing _ _ rest => rest.length + 3
  | .timing _ _ => 2
  | .pacing _ _ _ => 1
  | .holding _ _ => 2
  | .held _ _ => 1
  | .stepping _ _ => 3
  | .leaving _ _ => 1
  | .moving _ => 3
  | .failing _ => 3
  | .reporting _ => 2
  | .quitting => 1
  | .ended => 0

theorem toGo_ofFault_lt (e : Engine) (fault : Fault) : (e.go (.ofFault fault)).toGo < 4 := by
  unfold Phase.ofFault
  split <;> simp [toGo, go]

theorem toGo_talk_lt (chance : Chance) (s : Signals) (step : Step) (talk : Talk) :
    (e.talk chance s step talk).2.toGo < Talk.toGo talk := by
  cases talk with
  | done result =>
      rcases result with ⟨value, store⟩
      have hlisting := (chance.listing_perm store).length_eq
      cases value with
      | error fault =>
          have hfault := e.toGo_ofFault_lt fault
          simp only [Engine.talk, Talk.toGo]
          omega
      | empty | number x | string b | boolean b =>
          simp only [Engine.talk, toGo, Talk.toGo, hlisting]
          omega
  | write line next => simp [Engine.talk, toGo, Talk.toGo]
  | read prompt next => simp [Engine.talk, toGo, Talk.toGo, go]

theorem toGo_wait_lt {step : Step} {wait : Wait} {next : Except Fault String → Talk}
    (hcancelled : s.cancelled = true) (hphase : e.phase = .waiting step wait next) :
    (e.wait s step next wait).toGo < e.toGo := by
  cases wait with
  | stops =>
      cases hstops : e.wires.stops <;> simp [Engine.wait, toGo, go, hphase, hstops]
  | cancellation => simp [Engine.wait, toGo, go, hphase, hcancelled]
  | line =>
      cases hreceive : e.wires.input.receive? <;> simp [Engine.wait, toGo, go, hphase, hreceive]

theorem toGo_step_lt (chance : Chance) (hcancelled : s.cancelled = true)
    (hended : e.phase ≠ .ended) : (e.step chance s).2.toGo < e.toGo := by
  cases hphase : e.phase with
  | ended => exact absurd hphase hended
  | talking step talk =>
      have htalk := e.toGo_talk_lt chance s step talk
      simpa [Engine.step, hphase, toGo] using htalk
  | waiting step wait next =>
      have hwait := toGo_wait_lt hcancelled hphase
      simpa [Engine.step, hphase] using hwait
  | arriving => cases hget : e.program.get? e.current <;> simp [Engine.step, toGo, go, hphase, hget]
  | publishing step value rest => cases rest <;> simp [Engine.step, toGo, go, hphase]
  | holding step value =>
      cases hpaused : s.paused <;> simp [Engine.step, toGo, go, hphase, hpaused]
  | stepping step value =>
      cases hstep : s.step <;> simp [Engine.step, toGo, go, hphase, hstep]
  | _ => simp [Engine.step, toGo, go, hphase, hcancelled]

theorem toGo_of_ended (h : e.phase = .ended) : e.toGo = 0 := by
  simp [toGo, h]

theorem toGo_step_le (chance : Chance) (hcancelled : s.cancelled = true) :
    (e.step chance s).2.toGo ≤ e.toGo - 1 := by
  by_cases hended : e.phase = .ended
  · rw [((steps_step chance s e).of_ended hended).2.1]
    simp [toGo_of_ended hended]
  · have hlt := toGo_step_lt chance hcancelled hended
    omega

theorem ended_of_toGo (h : e.toGo = 0) : e.phase = .ended := by
  have htalk : ∀ talk : Talk, 0 < Talk.toGo talk := by
    intro talk
    cases talk <;> simp [Talk.toGo]
  unfold toGo at h
  split at h <;> first | assumption | skip
  all_goals
    first
    | (split at h <;> omega)
    | (have hsome := htalk ‹Talk›; omega)
    | omega

theorem Steps.evaluations (h : Steps chance s e s' e' done) (hcancelled : s.cancelled = true) :
    done.countP Deed.isEvaluation = 0 := by
  cases h with
  | begin _ hrunning => cases hcancelled.symm.trans hrunning
  | _ => rfl

theorem Steps.moves_le (h : Steps chance s e s' e' done) (hcancelled : s.cancelled = true) :
    done.countP Deed.isMove + e'.phase.isMoving.toNat ≤ e.phase.isMoving.toNat := by
  have hfault : ∀ fault, (Phase.ofFault fault).isMoving = false := by
    intro fault
    unfold Phase.ofFault
    split <;> rfl
  cases h with
  | choose _ hrunning _ => cases hcancelled.symm.trans hrunning
  | move hphase => simp [hphase, Phase.isMoving, Deed.isMove]
  | fail _ => simp [go, hfault, Deed.isMove]
  | doze _ _ | rest _ => simp
  | _ => simp [go, Phase.isMoving, Deed.isMove]

theorem Steps.not_taking (h : Steps chance s e s' e' done) (hread : e.phase.isRead = false) :
    e'.phase.isTaking = false := by
  cases h with
  | fail _ =>
      show (Phase.ofFault _).isTaking = false
      unfold Phase.ofFault
      split <;> rfl
  | look hphase | interrupt hphase _ | take hphase _ =>
      rw [hphase] at hread
      cases hread
  | doze hphase _ | rest hphase =>
      rw [hphase]
      rfl
  | _ => rfl

theorem isTaking_step (hcancelled : s.cancelled = true) :
    (e.step chance s).2.phase.isTaking = false := by
  rcases exists_steps chance s e with ⟨done, hsteps⟩
  cases hphase : e.phase with
  | waiting step wait next =>
      cases wait with
      | stops =>
          cases hstops : e.wires.stops <;>
            simp [Engine.step, Engine.wait, go, hphase, hstops, Phase.isTaking]
      | cancellation =>
          simp [Engine.step, Engine.wait, go, hphase, hcancelled, Phase.isTaking]
      | line =>
          cases hreceive : e.wires.input.receive? <;>
            simp [Engine.step, Engine.wait, go, hphase, hreceive, Phase.isTaking]
  | _ => exact hsteps.not_taking (by rw [hphase]; rfl)

theorem givesUp_step (hcancelled : s.cancelled = true) (hread : e.phase.isRead = true)
    {about : Prop} (habout : e.phase.isTaking = true → about) :
    Phase.GivesUp about e.phase (e.step chance s).2.phase := by
  cases hphase : e.phase with
  | waiting step wait next =>
      rw [hphase] at habout
      cases wait with
      | stops =>
          cases hstops : e.wires.stops with
          | zero =>
              simp only [Engine.step, Engine.wait, hphase, hstops, go]
              exact Phase.GivesUp.look
          | succ n =>
              simp only [Engine.step, Engine.wait, hphase, hstops]
              exact Phase.GivesUp.interrupt
      | cancellation =>
          simp only [Engine.step, Engine.wait, hphase, hcancelled, if_true, go]
          exact Phase.GivesUp.interrupt
      | line =>
          cases hreceive : e.wires.input.receive? with
          | none =>
              simp only [Engine.step, Engine.wait, hphase, hreceive, go]
              exact Phase.GivesUp.look
          | some received =>
              simp only [Engine.step, Engine.wait, hphase, hreceive]
              exact Phase.GivesUp.take (habout rfl)
  | _ => simp [hphase, Phase.isRead] at hread

end Engine

/-!
# The run

Nobody but the worker changes where it stands.  So after so many of its steps it has so many less to
go, whatever its supervisor does meanwhile.
-/

namespace Duty

def toGo : Duty → Nat
  | cancelling _ => 4
  | notifying _ => 3
  | releasing _ => 2
  | joining _ => 1
  | _ => 0

end Duty

namespace Act

def isWork : Act → Bool
  | work _ => true
  | _ => false

end Act

namespace Watch

variable {w w' : Watch} {a : Act} {acts more : List Act}

def toGo (w : Watch) : Nat :=
  (w.run.engine.map Engine.toGo).getD 0

theorem toGo_of_some {e : Engine} (h : w.run.engine = some e) : w.toGo = e.toGo := by
  simp [toGo, h]

theorem toGo_of_none (h : w.run.engine = none) : w.toGo = 0 := by
  simp [toGo, h]

theorem isLive_of_toGo (h : w.toGo = 0) : w.run.isLive = false := by
  cases hengine : w.run.engine with
  | none => simp [Run.isLive, hengine]
  | some e =>
      rw [toGo_of_some hengine] at h
      simp [Run.isLive, hengine, Engine.ended_of_toGo h, Phase.isEnded]

theorem Orderly.cancelled (h : w.Orderly) (hcancelled : w.run.signals.cancelled = true) :
    w.run.engine = none ∧ w.run.stage ≠ .idle ∨ w.duty.isStop = true := by
  have hduty := h.duty
  have hstopped : (∃ reason, w.run.stage = .stopped reason) →
      w.run.engine = none ∧ w.run.stage ≠ .idle := by
    rintro ⟨reason, hstage⟩
    cases h.staged with
    | idle hidle _ _ _ _ => cases hidle.symm.trans hstage
    | running hrunning _ => cases hrunning.symm.trans hstage
    | stopped hstage' hengine _ =>
        refine ⟨hengine, ?_⟩
        rw [hstage']
        nofun
  cases hcase : w.duty with
  | free | cancelling _ =>
      rw [hcase] at hduty
      exact Or.inl (hstopped (hduty hcancelled))
  | dropping _ =>
      rw [hcase] at hduty
      cases hcancelled.symm.trans hduty.2
  | setting _ | requesting =>
      rw [hcase] at hduty
      cases hcancelled.symm.trans hduty.2.1
  | notifying _ | releasing _ | joining _ => exact Or.inr rfl

theorem Happens.engine_of_cancelled (h : Happens w a w') (hw : w.Orderly)
    (hcancelled : w.run.signals.cancelled = true) (ha : a.isWork = false) :
    w'.run.signals.cancelled = true ∧ w'.deeds = w.deeds ∧
      (w'.run.engine = none ∨ ∃ e stops, w.run.engine = some e ∧
        w'.run.engine = some { e with wires := { e.wires with stops := stops } }) := by
  have hsame : w.run.engine = none ∨ ∃ e stops, w.run.engine = some e ∧
      w.run.engine = some { e with wires := { e.wires with stops := stops } } := by
    cases hengine : w.run.engine with
    | none => exact Or.inl rfl
    | some e => exact Or.inr ⟨e, e.wires.stops, rfl, rfl⟩
  have hfree : w.duty = .free → w.run.engine = none ∧ w.run.stage ≠ .idle := by
    intro hduty
    rcases hw.cancelled hcancelled with hnone | hstop
    · exact hnone
    · rw [hduty] at hstop
      cases hstop
  cases h with
  | work _ _ => cases ha
  | launch hduty hidle _ | refuse hduty hidle _ => exact absurd hidle (hfree hduty).2
  | serve hduty hengine _ _ _ => cases (hfree hduty).1.symm.trans hengine
  | notify _ =>
      refine ⟨hcancelled, rfl, ?_⟩
      cases hengine : w.run.engine with
      | none => exact Or.inl (Run.engine_sendStop_of_none hengine)
      | some e => exact Or.inr ⟨e, _, rfl, Run.engine_sendStop_of_some hengine⟩
  | close _ _ => exact ⟨hcancelled, rfl, Or.inl rfl⟩
  | cancel _ => exact ⟨rfl, rfl, hsame⟩
  | rest | pause _ _ | resume _ _ | advance _ _ | stop _ | retime _ | drop _ | set _ | request _
  | release _ => exact ⟨hcancelled, rfl, hsame⟩

def movesLeft (w : Watch) : Nat :=
  (w.run.engine.any fun e => e.phase.isMoving).toNat

/-- What has become of a cancelled run after so many steps of its worker. -/
structure Winds (w v : Watch) (works : Nat) : Prop where
  cancelled : v.run.signals.cancelled = true
  deeds : ∃ later, v.deeds = w.deeds ++ later ∧ later.countP Deed.isEvaluation = 0 ∧
    later.countP Deed.isMove + v.movesLeft ≤ w.movesLeft
  toGo : v.toGo ≤ w.toGo - works
  taking : ∀ e, v.run.engine = some e → e.phase.isTaking = true → works = 0

theorem Winds.refl (h : w.run.signals.cancelled = true) : Winds w w 0 where
  cancelled := h
  deeds := ⟨[], (List.append_nil _).symm, rfl, by simp⟩
  toGo := Nat.le_refl _
  taking := fun _ _ _ => rfl

theorem Winds.work {v : Watch} {works : Nat} (h : Winds w v works) (chance : Chance) :
    Winds w (v.step (.work chance)) (works + 1) := by
  rcases h.deeds with ⟨later, hlater, hevaluations, hmoves⟩
  have htoGo := h.toGo
  cases hengine : v.run.engine with
  | none =>
      have hact : v.act (.work chance) = v := by
        simp [act, Run.work, doneBetween, hengine]
      have hnone : v.toGo = 0 := toGo_of_none hengine
      refine ⟨?_, ?_, ?_, ?_⟩
      · rw [Watch.step, hact]
        exact h.cancelled
      · rw [Watch.step, hact]
        exact h.deeds
      · rw [Watch.step, hact]
        change v.toGo ≤ _
        omega
      · intro e he
        rw [Watch.step, hact] at he
        cases hengine.symm.trans he
  | some e =>
      have hsteps := e.steps_step chance v.run.signals
      have hmovesLeft := hsteps.moves_le h.cancelled
      have htoGo' := e.toGo_step_le chance h.cancelled
      rw [toGo_of_some hengine] at htoGo
      rw [movesLeft, hengine, Option.any_some] at hmoves
      rw [Watch.step, act_work hengine]
      refine ⟨hsteps.cancelled.trans h.cancelled,
        ⟨later ++ e.deeds (e.step chance v.run.signals).2, ?_, ?_, ?_⟩, ?_, ?_⟩
      · simp [hlater]
      · rw [List.countP_append, hevaluations, hsteps.evaluations h.cancelled]
      · rw [List.countP_append]
        simp only [movesLeft, run_note, Option.any_some] at hmoves ⊢
        omega
      · change (e.step chance v.run.signals).2.toGo ≤ _
        omega
      · intro e' he' htaking
        cases he'
        cases htaking.symm.trans (Engine.isTaking_step h.cancelled)

theorem Winds.other {v : Watch} {works : Nat} (h : Winds w v works) (hv : v.Orderly)
    (ha : a.isWork = false) : Winds w (v.step a) works := by
  rcases (happens_act v a).engine_of_cancelled hv h.cancelled ha with ⟨hcancelled, hdeeds, hengine⟩
  rcases h.deeds with ⟨later, hlater, hevaluations, hmoves⟩
  refine ⟨hcancelled, ⟨later, hdeeds.trans hlater, hevaluations, ?_⟩, ?_, ?_⟩
  · rcases hengine with hnone | ⟨e, stops, hbefore, hafter⟩
    · simp only [movesLeft, Watch.step, run_note, hnone, Option.any_none, Bool.toNat_false]
      exact Nat.le_trans (Nat.add_le_add_left (Nat.zero_le _) _) hmoves
    · simp only [movesLeft, Watch.step, run_note, hbefore, hafter, Option.any_some] at hmoves ⊢
      exact hmoves
  · rcases hengine with hnone | ⟨e, stops, hbefore, hafter⟩
    · rw [toGo_of_none (by exact hnone)]
      exact Nat.zero_le _
    · have htoGo := h.toGo
      rw [toGo_of_some hbefore] at htoGo
      rw [toGo_of_some (by exact hafter)]
      exact htoGo
  · intro e' he' htaking
    rcases hengine with hnone | ⟨e, stops, hbefore, hafter⟩
    · cases hnone.symm.trans he'
    · cases hafter.symm.trans he'
      exact h.taking e hbefore htaking

theorem winds_perform {delay : Nat}
    (hcancelled : ((new delay).perform acts).run.signals.cancelled = true) (more : List Act) :
    Winds ((new delay).perform acts) (((new delay).perform acts).perform more)
      (more.countP Act.isWork) := by
  induction more using List.reverseRecOn with
  | nil => exact Winds.refl hcancelled
  | append_singleton more a ih =>
      rw [perform_concat, List.countP_append]
      cases a with
      | work chance => exact ih.work chance
      | call _ | proceed =>
          have horderly := orderly_perform delay (acts ++ more)
          rw [perform_append] at horderly
          exact ih.other horderly rfl

/-!
# The call that stops the run

A stop goes on with each turn of the supervisor until it waits for the worker, and then with each
turn of the worker.
-/

theorem duty_of_stop (hstop : w.duty.isStop = true) (ha : a ≠ .proceed) :
    (w.step a).duty = w.duty := by
  cases a with
  | work chance => rfl
  | call call =>
      have hbusy : w.duty ≠ .free := by
        intro hfree
        rw [hfree] at hstop
        cases hstop
      simp [Watch.step, act, hbusy]
  | proceed => exact absurd rfl ha

theorem proceed_stop (hstop : w.duty.isStop = true) :
    (w.step .proceed).duty = .free ∨
      (w.step .proceed).duty.isStop = true ∧ ((w.step .proceed).duty.toGo < w.duty.toGo ∨
        w.duty.toGo = 1 ∧ w.run.isLive = true ∧ (w.step .proceed).duty = w.duty) := by
  cases hduty : w.duty with
  | cancelling reason | notifying reason | releasing reason =>
      simp [Watch.step, act, proceed, hduty, Duty.isStop, Duty.toGo]
  | joining reason =>
      cases hlive : w.run.isLive <;>
        simp [Watch.step, act, proceed, hduty, hlive, Duty.isStop, Duty.toGo]
  | free | dropping _ | setting _ | requesting =>
      rw [hduty] at hstop
      cases hstop

structure Ending (w : Watch) : Prop where
  reachable : w.Reachable
  duty : w.duty.isStop = true
  cancelled : w.run.signals.cancelled = true

theorem Ending.winds (h : w.Ending) (a : Act) : Winds w (w.step a) a.isWork.toNat := by
  cases a with
  | work chance => exact (Winds.refl h.cancelled).work chance
  | call _ | proceed => exact (Winds.refl h.cancelled).other h.reachable.orderly rfl

theorem Ending.step (h : w.Ending) (a : Act) :
    (w.step a).duty = .free ∨ (w.step a).Ending ∧
      (w.step a).duty.toGo ≤ w.duty.toGo ∧ (w.step a).toGo ≤ w.toGo := by
  have hwinds := h.winds a
  have htoGo : (w.step a).toGo ≤ w.toGo := Nat.le_trans hwinds.toGo (Nat.sub_le _ _)
  by_cases ha : a = .proceed
  · subst ha
    rcases proceed_stop h.duty with hfree | ⟨hstop, hless | ⟨_, _, hsame⟩⟩
    · exact Or.inl hfree
    · exact Or.inr ⟨⟨h.reachable.step _, hstop, hwinds.cancelled⟩, Nat.le_of_lt hless, htoGo⟩
    · refine Or.inr ⟨⟨h.reachable.step _, hstop, hwinds.cancelled⟩, ?_, htoGo⟩
      rw [hsame]
  · have hduty := duty_of_stop h.duty ha
    refine Or.inr ⟨⟨h.reachable.step _, ?_, hwinds.cancelled⟩, ?_, htoGo⟩
    · rw [hduty]
      exact h.duty
    · rw [hduty]

def Nearer (w v : Watch) : Prop :=
  v.duty = .free ∨ v.Ending ∧ v.duty.toGo + v.toGo < w.duty.toGo + w.toGo

/-- The next turn of the one who has to go on brings the stop closer to its end: the worker while
the supervisor waits for it, and else the supervisor. -/
theorem nearer_cases (w : Watch) :
    (∀ v : Watch, ∀ chance, v.Ending → v.duty.toGo ≤ w.duty.toGo → v.toGo ≤ w.toGo →
      Nearer w (v.step (.work chance))) ∨
    (∀ v : Watch, v.Ending → v.duty.toGo ≤ w.duty.toGo → v.toGo ≤ w.toGo →
      Nearer w (v.step .proceed)) := by
  by_cases hwaits : w.duty.toGo = 1 ∧ w.toGo ≠ 0
  · left
    intro v chance hv hduty htoGo
    have hwinds := (hv.winds (.work chance)).toGo
    have hsame := duty_of_stop hv.duty (a := .work chance) nofun
    rcases hv.step (.work chance) with hfree | ⟨hending, _, _⟩
    · exact Or.inl hfree
    · refine Or.inr ⟨hending, ?_⟩
      rw [hsame]
      simp only [Act.isWork, Bool.toNat_true] at hwinds
      omega
  · right
    intro v hv hduty htoGo
    rcases hv.step .proceed with hfree | ⟨hending, _, htoGo'⟩
    · exact Or.inl hfree
    · refine (proceed_stop hv.duty).imp id ?_
      rintro ⟨_, hless | ⟨hone, hlive, _⟩⟩
      · exact ⟨hending, by omega⟩
      · -- the supervisor waits for a worker that has steps left, and so it did before
        have hleft : v.toGo ≠ 0 := by
          intro hnone
          cases (isLive_of_toGo hnone).symm.trans hlive
        refine ⟨hending, ?_⟩
        have hpositive : 0 < w.duty.toGo := by omega
        omega

theorem Ending.exists_nearer (h : w.Ending) {schedule : Nat → Act} (hfair : Fair schedule) :
    ∃ n, Nearer w (w.after schedule n) := by
  let stays := fun n => (w.after schedule n).Ending ∧
    (w.after schedule n).duty.toGo ≤ w.duty.toGo ∧ (w.after schedule n).toGo ≤ w.toGo
  have hstep : ∀ n, stays n → Nearer w (w.after schedule (n + 1)) ∨ stays (n + 1) := by
    rintro n ⟨hending, hduty, htoGo⟩
    rcases hending.step (schedule n) with hfree | ⟨hending', hduty', htoGo'⟩
    · exact Or.inl (Or.inl hfree)
    · exact Or.inr ⟨hending', Nat.le_trans hduty' hduty, Nat.le_trans htoGo' htoGo⟩
  have hstart : stays 0 := ⟨h, Nat.le_refl _, Nat.le_refl _⟩
  have hnearer : ∃ n, 0 ≤ n ∧ Nearer w (w.after schedule n) := by
    rcases w.nearer_cases with hworks | hproceeds
    · refine exists_goal_of_helps stays hfair.works hstep ?_ hstart
      rintro n ⟨hending, hduty, htoGo⟩ ⟨chance, hturn, _⟩
      rw [Watch.after, hturn]
      exact hworks _ chance hending hduty htoGo
    · refine exists_goal_of_helps stays hfair.proceeds hstep ?_ hstart
      rintro n ⟨hending, hduty, htoGo⟩ hturn
      rw [Watch.after, hturn]
      exact hproceeds _ hending hduty htoGo
  rcases hnearer with ⟨n, _, hnearer⟩
  exact ⟨n, hnearer⟩

theorem Ending.exists_free (h : w.Ending) {schedule : Nat → Act} (hfair : Fair schedule) :
    ∃ n, (w.after schedule n).duty = .free := by
  induction hrank : w.duty.toGo + w.toGo using Nat.strongRecOn generalizing w schedule with
  | ind rank ih =>
      rcases h.exists_nearer hfair with ⟨n, hfree | ⟨hending, hless⟩⟩
      · exact ⟨n, hfree⟩
      · rw [hrank] at hless
        rcases ih _ hless hending (hfair.shift n) rfl with ⟨i, hfree⟩
        exact ⟨n + i, by rw [after_add]; exact hfree⟩

theorem exists_free_of_stop (hw : w.Reachable) (hfree : w.duty = .free) {schedule : Nat → Act}
    (hfair : Fair schedule) : ∃ n, ((w.step (.call .stop)).after schedule n).duty = .free := by
  have hduty : (w.step (.call .stop)).duty = .cancelling w.run.earlierReason? := by
    simp [Watch.step, act, enter, hfree]
  generalize hv : w.step (.call .stop) = v at hduty
  have hreachable : v.Reachable := hv ▸ hw.step _
  -- until the supervisor goes on, the run is not cancelled yet
  let cancelling := fun n => (v.after schedule n).Reachable ∧
    (v.after schedule n).duty = .cancelling w.run.earlierReason?
  have hcancels : ∀ n, cancelling n → schedule n = .proceed →
      (v.after schedule (n + 1)).Ending := by
    rintro n ⟨hreach, hcase⟩ hproceed
    refine ⟨hreach.step _, ?_, ?_⟩
    · simp [Watch.after, Watch.step, act, proceed, hproceed, hcase, Duty.isStop]
    · simp [Watch.after, Watch.step, act, proceed, hproceed, hcase, Run.setCancelled]
  have hending : ∃ i, 0 ≤ i ∧ (v.after schedule i).Ending := by
    refine exists_goal_of_helps cancelling hfair.proceeds ?_ hcancels ⟨hreachable, hduty⟩
    rintro n ⟨hreach, hcase⟩
    by_cases hproceed : schedule n = .proceed
    · exact Or.inl (hcancels n ⟨hreach, hcase⟩ hproceed)
    · have hsame := duty_of_stop (by rw [hcase]; rfl) hproceed
      exact Or.inr ⟨hreach.step _, hsame.trans hcase⟩
  rcases hending with ⟨i, _, hending⟩
  rcases hending.exists_free (hfair.shift i) with ⟨n, hdone⟩
  exact ⟨i + n, by rw [after_add]; exact hdone⟩

theorem Reachable.after (h : w.Reachable) (schedule : Nat → Act) (n : Nat) :
    (w.after schedule n).Reachable := by
  induction n with
  | zero => exact h
  | succ n ih => exact ih.step (schedule n)

theorem Stopping.after (h : w.Stopping) (schedule : Nat → Act) (n : Nat) :
    (w.after schedule n).Stopping := by
  induction n with
  | zero => exact h
  | succ n ih => exact (happens_act _ (schedule n)).stopping ih

/-- Once a run is cancelled, its worker begins no other block, goes on from a block once at most
and calls off every read, but for a line that a read may take in the very first step.  None of
this is reported as a fault.  After a number of its steps that can be told beforehand it has
ended, and no prompt is up then.  So a stop returns, whatever the worker is at. -/
theorem stop_gets_worker_back (delay : Nat) (acts : List Act) :
    let w := (new delay).perform acts
    (w.run.signals.cancelled = true → ∀ more,
      let v := w.perform more
      (∃ later, v.deeds = w.deeds ++ later ∧ later.countP Deed.isEvaluation = 0 ∧
        later.countP Deed.isMove ≤ 1) ∧
      (∀ e chance, v.run.engine = some e → e.phase.isRead = true →
        Phase.GivesUp (more.countP Act.isWork = 0) e.phase
          (e.step chance v.run.signals).2.phase) ∧
      (∀ fault ∈ v.reports, fault.isInterruption = false) ∧
      (w.toGo ≤ more.countP Act.isWork → v.run.isLive = false) ∧
      (v.run.isLive = false → v.run.prompt? = none)) ∧
    (w.duty = .free → ∀ schedule, Fair schedule → ∃ n,
      let v := (w.step (.call .stop)).after schedule n
      v.duty = .free ∧ v.run.engine = none ∧ ∃ reason, v.run.state = .stopped reason) := by
  intro w
  constructor
  · intro hcancelled more v
    have hwinds : Winds w v (more.countP Act.isWork) := winds_perform hcancelled more
    have hv : v = (new delay).perform (acts ++ more) := (perform_append _ _ _).symm
    refine ⟨?_, ?_, ?_, ?_, ?_⟩
    · rcases hwinds.deeds with ⟨later, hlater, hevaluations, hmoves⟩
      have hone : w.movesLeft ≤ 1 := Bool.toNat_le _
      exact ⟨later, hlater, hevaluations, by omega⟩
    · intro e chance hengine hread
      exact Engine.givesUp_step hwinds.cancelled hread fun htaking =>
        hwinds.taking e hengine htaking
    · intro fault hfault
      rw [hv] at hfault
      rcases (honest_perform delay (acts ++ more)).exists_tells with ⟨_, _, htells, _⟩
      exact (htells.failed_of_mem hfault).2
    · intro hworks
      have htoGo := hwinds.toGo
      exact isLive_of_toGo (by omega)
    · intro hended
      rw [hv] at hended ⊢
      exact prompt_of_ended delay (acts ++ more) hended
  · intro hfree schedule hfair
    have hreachable : w.Reachable := ⟨delay, acts, rfl⟩
    rcases exists_free_of_stop hreachable hfree hfair with ⟨n, hdone⟩
    refine ⟨n, hdone, ?_⟩
    have hstaged := ((hreachable.step (.call .stop)).after schedule n).orderly.staged
    rcases (stopping_stop hfree).after schedule n with ⟨reason, hstage⟩ | ⟨reason, hduty⟩
    · refine ⟨?_, reason, Run.state_of_stopped hstage⟩
      cases hstaged with
      | idle hidle _ _ _ _ => cases hidle.symm.trans hstage
      | running hrunning _ => cases hrunning.symm.trans hstage
      | stopped _ hnone _ => exact hnone
    · simp [hdone] at hduty

def question : Chart where
  start := ⟨0⟩
  blocks :=
    [⟨⟨0⟩, "", .start (some ⟨1⟩)⟩, ⟨⟨1⟩, "read s as String", .input (some ⟨2⟩)⟩,
      ⟨⟨2⟩, "", .finish⟩]

def questionActs : List Act :=
  .call (.start question) :: List.replicate 6 (.work (.inOrder true))

def questionStop : List Act :=
  questionActs ++ [.call .stop, .proceed, .proceed, .proceed]

theorem stop_gets_worker_back_question :
    let u := (new 0).perform questionActs
    let w := (new 0).perform questionStop
    let v := w.perform (List.replicate 8 (.work (.inOrder true)))
    u.duty = .free ∧ u.run.prompt? = some "s (String)" ∧ w.run.signals.cancelled = true ∧
      w.toGo ≤ 8 ∧ v.run.isLive = false ∧ v.run.prompt? = none ∧
      ∃ n, ((u.step (.call .stop)).after alternating n).duty = .free := by
  intro u w v
  have hfree : u.duty = .free := by cbv
  have hprompt : u.run.prompt? = some "s (String)" := by cbv
  have hcancelled : w.run.signals.cancelled = true := by cbv
  have htoGo : w.toGo ≤ 8 := by decide +kernel
  rcases (stop_gets_worker_back 0 questionStop).1 hcancelled
      (List.replicate 8 (.work (.inOrder true))) with ⟨_, _, _, hends, hclears⟩
  have hended := hends htoGo
  rcases (stop_gets_worker_back 0 questionActs).2 hfree alternating fair_alternating with
    ⟨n, hdone, _⟩
  exact ⟨hfree, hprompt, hcancelled, htoGo, hended, hclears hended, n, hdone⟩

end Watch
end Blockwise
