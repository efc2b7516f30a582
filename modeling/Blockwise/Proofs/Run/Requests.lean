import Blockwise.Proofs.Run.Progress

/-!
# Requests for steps

A request for a step is a signal that is up or down, so requests do not add up: one that is made
while another one is still open is lost in it.  No other request is lost.  A paused worker that
has come to rest has moved once for each request that found none open, and once more if it was
past the pause when the pause came.
-/

namespace Blockwise

/-!
# Moves that are due

The moves that are due are those that the worker has made and those that it is free to make.  Under
a pause, no step of it changes their number.
-/

theorem Phase.isPast_of_isHold {phase : Phase} (h : phase.isHold = true) :
    phase.isPast = false := by
  cases phase <;> first | rfl | cases h

namespace Standing

def due (x : Standing) : Nat :=
  x.moves + x.phase.isPast.toNat + x.step.toNat

theorem Paces.due_eq {delayOver : Bool} {x y : Standing} (h : Paces delayOver x y) :
    y.due = x.due := by
  cases h with
  | fail =>
      show _ + (Phase.isPast (.ofFault _)).toNat + _ = _
      rw [Phase.isPast_ofFault]
      rfl
  | move => simp [due, Phase.isPast]
  | _ => simp [due, Phase.isPast]

theorem Paces.ended {delayOver : Bool} {x y : Standing} (h : Paces delayOver x y)
    (hended : x.phase = .ended) : y.phase = .ended := by
  cases h with
  | rest => rfl
  | _ => cases hended

end Standing

theorem Run.Staged.engine_of_running {r : Run} (h : r.Staged) (hstage : r.stage = .running) :
    ∃ e, r.engine = some e := by
  cases h with
  | running _ hengine => exact ⟨_, hengine⟩
  | idle hidle _ _ _ _ => cases hstage.symm.trans hidle
  | stopped hstopped _ _ => cases hstage.symm.trans hstopped

namespace Watch

variable {w : Watch} {a : Act} {x : Standing}

/-!
# What is requested

A call for a step makes one request, if it finds the run paused.  A request either finds another one
open or does not.
-/

def requestBy? (w : Watch) : Act → Option Bool
  | .proceed => if w.duty = .requesting then some w.run.signals.step else none
  | _ => none

/-- The requests that the acts make, each with whether it finds another one open. -/
def requests (w : Watch) : List Act → List Bool
  | [] => []
  | a :: acts => (w.requestBy? a).toList ++ (w.step a).requests acts

def advances (w : Watch) : List Act → Nat
  | [] => 0
  | a :: acts => (decide (w.duty = .free) && a.isAdvance).toNat + (w.step a).advances acts

def asking (w : Watch) : Nat :=
  (decide (w.duty = .requesting)).toNat

theorem asking_step (w : Watch) (a : Act) (hstate : w.duty = .free → w.run.state = .paused) :
    w.asking + (decide (w.duty = .free) && a.isAdvance).toNat =
      (w.requestBy? a).toList.length + (w.step a).asking := by
  cases a with
  | work chance =>
      show w.asking + (decide (w.duty = .free) && false).toNat = 0 + w.asking
      simp
  | call call =>
      by_cases hfree : w.duty = .free
      · cases call <;>
          simp [asking, requestBy?, Act.isAdvance, step, act, enter, hfree, hstate hfree]
      · simp [asking, requestBy?, step, act, hfree]
  | proceed =>
      cases hduty : w.duty with
      | joining reason =>
          cases hlive : w.run.isLive <;>
            simp [asking, requestBy?, Act.isAdvance, step, act, proceed, hduty, hlive]
      | _ => simp [asking, requestBy?, Act.isAdvance, step, act, proceed, hduty]

/-!
# The balance of requests and moves

Only a request that finds none open makes a move due.
-/

theorem Pausing.running (hpausing : w.Pausing) (hw : w.Orderly) (hx : w.standing? = some x) :
    w.run.stage = .running ∧ w.run.signals.cancelled = false := by
  rcases Option.map_eq_some_iff.mp hx with ⟨e, hengine, _⟩
  have hstage := hw.staged.running_of_engine hengine
  constructor
  · exact hstage
  · rcases hpausing.duty with hfree | hrequest
    · exact hw.uncancelled hfree hstage
    · have hduty := hw.duty
      rw [hrequest] at hduty
      exact hduty.2.1

theorem Pausing.state (hpausing : w.Pausing) (hw : w.Orderly) (hx : w.standing? = some x)
    (hlive : x.phase ≠ .ended) : w.run.state = .paused := by
  have hstage := (hpausing.running hw hx).1
  rcases Option.map_eq_some_iff.mp hx with ⟨e, hengine, rfl⟩
  have hreason : w.run.endReason? = none := by
    cases hphase : e.phase with
    | ended => exact absurd hphase hlive
    | _ => simp [Run.endReason?, Run.isLive, hengine, hphase, Phase.isEnded]
  rw [Run.state_of_live hstage hreason, if_pos hpausing.paused]

theorem Happens.standing_of_call {w' : Watch} {call : Call} (h : Happens w (.call call) w')
    (hw : w.Orderly) (hpausing : w.Pausing) (hresume : call ≠ .resume) (hstop : call ≠ .stop) :
    w'.standing? = w.standing? := by
  cases h with
  | rest | advance _ _ | retime _ => rfl
  | launch _ hidle _ | refuse _ hidle _ => exact absurd hidle (hpausing.not_idle hw)
  | pause _ hstate =>
      have hresumed := (hw.staged.of_state false hstate).2
      cases hpausing.paused.symm.trans hresumed
  | resume _ _ => exact absurd rfl hresume
  | stop _ => exact absurd rfl hstop
  | serve _ hengine _ _ _ =>
      rw [standing?_eq hengine]
      rfl

theorem Pausing.due_step (hpausing : w.Pausing) (hw : w.Reachable) (hx : w.standing? = some x)
    (hresume : a ≠ .call .resume) (hstop : a ≠ .call .stop) :
    ∃ y, (w.step a).standing? = some y ∧
      y.due = x.due + (w.requestBy? a).toList.count false ∧
      (x.phase = .ended → y.phase = .ended) := by
  cases a with
  | work chance =>
      have hcalm := (hpausing.running hw.orderly hx).2
      rcases hw.standing_work hpausing.paused hcalm hx chance with ⟨y, hpaces, hy⟩
      exact ⟨y, hy, hpaces.due_eq, hpaces.ended⟩
  | call call =>
      have hstanding := (happens_act w (.call call)).standing_of_call hw.orderly hpausing
        (fun h => hresume (congrArg Act.call h)) (fun h => hstop (congrArg Act.call h))
      exact ⟨x, hstanding.trans hx, rfl, id⟩
  | proceed =>
      rcases hpausing.duty with hduty | hduty
      · have hact : w.act .proceed = w := by simp [act, proceed, hduty]
        exists x
        simp only [step, hact, requestBy?, hduty]
        exact ⟨hx, rfl, id⟩
      · rcases Option.map_eq_some_iff.mp hx with ⟨e, hengine, rfl⟩
        exists ⟨e.phase, true, w.moves⟩
        constructor
        · simp [step, act, proceed, hduty, standing?, Run.requestStep, hengine, moves]
        · constructor
          · cases hstep : w.run.signals.step <;> simp [requestBy?, hduty, Standing.due, hstep]
          · exact id

theorem Pausing.balance {acts : List Act} (hpausing : w.Pausing) (hw : w.Reachable)
    (hx : w.standing? = some x) (hacts : ∀ a ∈ acts, a ≠ .call .resume ∧ a ≠ .call .stop) :
    ∃ y, (w.perform acts).standing? = some y ∧
      y.due = x.due + (w.requests acts).count false ∧
      (x.phase = .ended → y.phase = .ended) ∧
      (y.phase ≠ .ended →
        w.asking + w.advances acts = (w.requests acts).length + (w.perform acts).asking) := by
  induction acts generalizing w x with
  | nil => exact ⟨x, hx, rfl, id, fun _ => by simp [advances, requests]⟩
  | cons a acts ih =>
      rcases hacts a List.mem_cons_self with ⟨hresume, hstop⟩
      rcases hpausing.due_step hw hx hresume hstop with ⟨z, hz, hdue, hended⟩
      have hkept := ((happens_act w a).pausing hw.orderly hpausing hresume hstop).1
      have hpausing' : (w.step a).Pausing := ⟨hkept.paused, hkept.duty⟩
      rcases ih hpausing' (hw.step a) hz fun b hb => hacts b (List.mem_cons_of_mem a hb) with
        ⟨y, hy, hdue', hended', hcount⟩
      refine ⟨y, hy, ?_, fun h => hended' (hended h), ?_⟩
      · rw [hdue', hdue, requests, List.count_append, Nat.add_assoc]
      · intro hlive
        have hlive' : x.phase ≠ .ended := fun h => hlive (hended' (hended h))
        have hasking := w.asking_step a fun _ => hpausing.state hw.orderly hx hlive'
        have hrest := hcount hlive
        rw [requests, advances, perform_cons, List.length_append]
        omega

theorem Happens.unrequested {w' : Watch} (h : Happens w a w') (hstep : w.run.signals.step = false)
    (hnone : w.requestBy? a = none) : w'.run.signals.step = false := by
  cases h with
  | work _ hsteps => exact hsteps.step_of_false hstep
  | drop _ => rfl
  | request hduty => simp [requestBy?, hduty] at hnone
  | _ => exact hstep

theorem requests_of_step {acts : List Act} (hstep : w.run.signals.step = false) :
    w.requests acts = [] ∨ ∃ later, w.requests acts = false :: later := by
  induction acts generalizing w with
  | nil => exact Or.inl rfl
  | cons a acts ih =>
      rw [requests]
      cases hrequest : w.requestBy? a with
      | none => exact ih ((happens_act w a).unrequested hstep hrequest)
      | some found =>
          have hfound : found = false := by
            unfold requestBy? at hrequest
            split at hrequest
            · split at hrequest
              · cases hrequest
                exact hstep
              · cases hrequest
            · cases hrequest
          right
          rw [hfound]
          exact ⟨_, rfl⟩

/-!
# From a pause to the next rest

When the worker has come to wait and all requests are taken, it has made the moves that were due.
-/

theorem Happens.stage_of_pauses {w' : Watch} (h : Happens w a w') (hw : w.Pauses)
    (ha : ∀ call, a ≠ .call call) : w'.run.stage = w.run.stage := by
  cases h with
  | close hjoin _ =>
      cases hw with
      | dropping hduty | setting hduty _ | paused hduty _ _ => cases hjoin.symm.trans hduty
  | launch _ _ _ | refuse _ _ _ => exact absurd rfl (ha _)
  | _ => rfl

theorem stage_of_pauses (hw : w.Pauses) (acts : List Act)
    (hacts : ∀ a ∈ acts, ∀ call, a ≠ .call call) :
    (w.perform acts).run.stage = w.run.stage := by
  induction acts using List.reverseRecOn with
  | nil => rfl
  | append_singleton acts a ih =>
      have hearlier : ∀ b ∈ acts, ∀ call, b ≠ .call call := fun b hb =>
        hacts b (List.mem_append_left _ hb)
      rw [perform_concat, ← ih hearlier]
      apply (happens_act _ a).stage_of_pauses (pauses_perform hw acts hearlier)
      exact hacts a (by simp)

def pastPause (w : Watch) : Nat :=
  (w.run.engine.any fun e => e.phase.isPast).toNat

/-- A paused worker that has come to wait, with all requests taken, has moved once for each request
that found none open, and once more if it was past the pause when the pause came.  There are as many
requests as calls for a step, and the first one finds none open. -/
theorem requests_are_served (delay : Nat) (acts : List Act) :
    let w := (new delay).perform acts
    w.duty = .free → w.run.state = .running → ∀ during later,
    let p := (w.step (.call .pause)).perform during
    (∀ a ∈ during, ∀ call, a ≠ .call call) → p.duty = .free →
    (∀ a ∈ later, a ≠ .call .resume ∧ a ≠ .call .stop) →
    let v := p.perform later
    v.duty = .free → v.Held → v.run.signals.step = false →
      v.moves = p.moves + p.pastPause + (p.requests later).count false ∧
      (p.requests later).length = p.advances later ∧
      (p.requests later = [] ∨ ∃ others, p.requests later = false :: others) := by
  intro w hfree hstate during later p hduring hfree' hlater v hfree'' hheld htaken
  have hp : p = (new delay).perform (acts ++ .call .pause :: during) := by
    rw [perform_append, perform_cons]
  have hreachable : p.Reachable := ⟨delay, _, hp⟩
  have hpauses : p.Pauses := pauses_perform (pauses_pause hfree hstate) during hduring
  have hpausing : p.Pausing := (hpauses.credit_le hfree').1
  have hstep : p.run.signals.step = false := by
    cases hpauses with
    | paused _ _ hstep => exact hstep
    | dropping hduty | setting hduty _ => cases hfree'.symm.trans hduty
  have hstage : p.run.stage = .running := by
    have hentered : (w.step (.call .pause)).run = w.run := by
      simp [step, act, enter, hfree, hstate]
    rw [stage_of_pauses (pauses_pause hfree hstate) during hduring, hentered]
    exact ((orderly_perform delay acts).staged.of_state false hstate).1
  simp only [v] at hfree'' htaken ⊢
  rcases hreachable.orderly.staged.engine_of_running hstage with ⟨e, hengine⟩
  rcases hpausing.balance hreachable (standing?_eq hengine) hlater with ⟨y, hy, hdue, _, hcount⟩
  rcases hheld with ⟨e', hengine', hhold⟩
  cases hy.symm.trans (standing?_eq hengine')
  have hlive : e'.phase ≠ .ended := by
    intro hended
    rw [hended] at hhold
    cases hhold
  constructor
  · have hpast : p.pastPause = e.phase.isPast.toNat := by simp [pastPause, hengine]
    simpa [Standing.due, Phase.isPast_of_isHold hhold, htaken, hstep, hpast] using hdue
  · constructor
    · have hcalls := hcount hlive
      simp only [asking, hfree', hfree''] at hcalls
      simpa using hcalls.symm
    · exact requests_of_step hstep

def leavingStart : List Act :=
  .call (.start endless) :: List.replicate 8 (.work (.inOrder true))

/-- The supervisor asks for a step twice before the worker has its next turn. -/
def hastyCalls : List Act :=
  [.call .advance, .proceed, .call .advance, .proceed]

def patientCalls : List Act :=
  hastyCalls ++ List.replicate 19 (Act.work (.inOrder true)) ++ [Act.call .advance, Act.proceed] ++
    List.replicate 11 (Act.work (.inOrder true))

theorem requests_are_served_endless :
    let w := (new 0).perform leavingStart
    let p := (w.step (.call .pause)).perform [.proceed, .proceed]
    let v := p.perform patientCalls
    w.duty = .free ∧ w.run.state = .running ∧ p.duty = .free ∧ v.duty = .free ∧ v.Held ∧
      v.run.signals.step = false ∧ p.pastPause = 1 ∧
      p.requests patientCalls = [false, true, false] ∧ v.moves = p.moves + 3 := by
  intro w p v
  -- evaluated together, so that the run is evaluated once
  have hrun : (w.duty, w.run.state, p.duty, p.pastPause, p.requests patientCalls, v.duty,
      v.run.signals.step, v.run.engine.any fun e => e.phase.isHold) =
        (.free, .running, .free, 1, [false, true, false], .free, false, true) := by cbv
  simp only [Prod.mk.injEq] at hrun
  rcases hrun with ⟨hfree, hrunning, hfree', hpast, hrequests, hfree'', htaken, hany⟩
  have hheld : v.Held := held_of_any hany
  have hserved := requests_are_served 0 leavingStart hfree hrunning [.proceed, .proceed]
    patientCalls (by simp) hfree' (by simp [patientCalls, hastyCalls]) hfree'' hheld htaken
  have hmoves := hserved.1
  rw [hpast, hrequests] at hmoves
  exact ⟨hfree, hrunning, hfree', hfree'', hheld, htaken, hpast, hrequests, hmoves⟩

/-- Two calls for a step in one pause, and one move: the second request is lost in the first. -/
theorem hasty_calls_move_once :
    let w := (new 0).perform endlessStart
    let p := (w.step (.call .pause)).perform endlessPause
    let later := hastyCalls ++ List.replicate 11 (Act.work (.inOrder true))
    let v := p.perform later
    w.duty = .free ∧ w.run.state = .running ∧ p.duty = .free ∧ p.run.state = .paused ∧
      v.duty = .free ∧ v.Held ∧ v.run.signals.step = false ∧ p.advances later = 2 ∧
      ¬ p.moves + p.advances later ≤ v.moves := by
  intro w p later v
  have hrun : (w.duty, w.run.state, p.duty, p.run.state, p.moves, p.advances later, v.duty,
      v.run.signals.step, v.moves, v.run.engine.any fun e => e.phase.isHold) =
        (.free, .running, .free, .paused, 1, 2, .free, false, 2, true) := by cbv
  simp only [Prod.mk.injEq] at hrun
  rcases hrun with ⟨hfree, hrunning, hfree', hpaused, hbefore, hadvances, hfree'', htaken, hafter,
    hany⟩
  have hheld : v.Held := held_of_any hany
  rw [hadvances, hbefore, hafter]
  exact ⟨hfree, hrunning, hfree', hpaused, hfree'', hheld, htaken, rfl, by decide⟩

end Watch
end Blockwise
