import Blockwise.Proofs.Run.Stages

/-!
# What a pause lets through

While a run is paused, the worker goes on by a block only on credit: it was past the pause when
the pause came, or a step was requested.  A move uses up a credit, and only a request gives one.
-/

namespace Blockwise

theorem Phase.isPast_ofFault (fault : Fault) : (Phase.ofFault fault).isPast = false := by
  unfold Phase.ofFault
  split <;> rfl

theorem Engine.Steps.credit_le {chance : Chance} {s s' : Signals} {e e' : Engine}
    {done : List Deed} (h : e.Steps chance s s' e' done) (hpaused : s.paused = true) :
    done.countP Deed.isMove + e'.phase.isPast.toNat + s'.step.toNat ≤
      e.phase.isPast.toNat + s.step.toNat := by
  cases h with
  | pass _ hresumed => cases hpaused.symm.trans hresumed
  | fail hphase => simp [go, Phase.isPast_ofFault, Deed.isMove]
  | move hphase => simp [hphase, Phase.isPast, Deed.isMove]
  | grant hphase hstep => simp [hphase, hstep, go, Phase.isPast]
  | choose hphase _ _ => simp [hphase, go, Phase.isPast]
  | doze _ _ | rest _ => simp
  | _ => simp [go, Phase.isPast, Deed.isMove]

namespace Watch

variable {w w' : Watch} {a : Act}

def moves (w : Watch) : Nat :=
  w.deeds.countP Deed.isMove

/-- The moves that the worker is free to make under a pause: it is past the pause, or a step is
requested or about to be. -/
def credit (w : Watch) : Nat :=
  (w.run.engine.any fun e => e.phase.isPast).toNat + w.run.signals.step.toNat +
    (decide (w.duty = .requesting)).toNat

structure Pausing (w : Watch) : Prop where
  paused : w.run.signals.paused = true
  duty : w.duty = .free ∨ w.duty = .requesting

theorem Pausing.not_idle (h : w.Pausing) (hw : w.Orderly) : w.run.stage ≠ .idle := by
  intro hidle
  rcases hw.staged.of_idle hidle with ⟨_, hpaused, _, _⟩
  cases hpaused.symm.trans h.paused

/-- Under a pause, each act keeps the balance of moves and credit, but for a request. -/
theorem Happens.pausing (h : Happens w a w') (hw : w.Orderly) (hpausing : w.Pausing)
    (hresume : a ≠ .call .resume) (hstop : a ≠ .call .stop) :
    w'.Pausing ∧ w'.moves + w'.credit ≤ w.moves + w.credit + a.isAdvance.toNat := by
  have hduty := hpausing.duty
  cases h with
  | rest => exact ⟨hpausing, Nat.le_add_right _ _⟩
  | @work chance e e' s done hengine hsteps =>
      refine ⟨⟨hsteps.paused.trans hpausing.paused, hduty⟩, ?_⟩
      have hcredit := hsteps.credit_le hpausing.paused
      simp only [moves, credit, hengine, Option.any_some, List.countP_append]
      omega
  | launch _ hidle _ | refuse _ hidle _ => exact absurd hidle (hpausing.not_idle hw)
  | pause _ hstate =>
      have hresumed := (hw.staged.of_state false hstate).2
      cases hpausing.paused.symm.trans hresumed
  | resume _ _ => exact absurd rfl hresume
  | stop _ => exact absurd rfl hstop
  | advance hfree _ =>
      refine ⟨⟨hpausing.paused, Or.inr rfl⟩, ?_⟩
      simp only [moves, credit, hfree, Act.isAdvance]
      simp
      omega
  | retime hfree => exact ⟨⟨hpausing.paused, hduty⟩, Nat.le_refl _⟩
  | serve hfree hengine _ _ _ =>
      refine ⟨⟨hpausing.paused, hduty⟩, ?_⟩
      simp [moves, credit, hengine]
  | request hrequest =>
      refine ⟨⟨hpausing.paused, Or.inl rfl⟩, ?_⟩
      simp only [moves, credit, hrequest, Run.requestStep]
      simp
      omega
  | drop h | set h | cancel h | notify h | release h | close h _ => simp [h] at hduty

theorem pausing_perform {delay : Nat} {acts : List Act}
    (hpausing : ((new delay).perform acts).Pausing) (more : List Act)
    (hmore : ∀ a ∈ more, a ≠ .call .resume ∧ a ≠ .call .stop) :
    (((new delay).perform acts).perform more).Pausing ∧
      (((new delay).perform acts).perform more).moves +
          (((new delay).perform acts).perform more).credit ≤
        ((new delay).perform acts).moves + ((new delay).perform acts).credit +
          more.countP Act.isAdvance := by
  induction more using List.reverseRecOn with
  | nil => exact ⟨hpausing, Nat.le_refl _⟩
  | append_singleton more a ih =>
      rcases ih fun b hb => hmore b (List.mem_append_left _ hb) with ⟨hpausing', hbalance⟩
      rcases hmore a (by simp) with ⟨hresume, hstop⟩
      have horderly := orderly_perform delay (acts ++ more)
      rw [perform_append] at horderly
      rcases (happens_act _ a).pausing horderly hpausing' hresume hstop with ⟨hkept, hstep⟩
      rw [perform_concat]
      refine ⟨⟨hkept.paused, hkept.duty⟩, ?_⟩
      have hcount : (more ++ [a]).countP Act.isAdvance =
          more.countP Act.isAdvance + a.isAdvance.toNat := by
        cases ha : a.isAdvance <;> simp [List.countP_append, ha]
      rw [hcount]
      exact Nat.le_trans hstep (by omega)

/-!
# The call that pauses

When the call returns, the worker can make one move at most, for it may have been past the wait
before the pause was set.
-/

inductive Pauses (w : Watch) : Prop where
  | dropping : w.duty = .dropping true → Pauses w
  | setting : w.duty = .setting true → w.run.signals.step = false → Pauses w
  | paused : w.duty = .free → w.run.signals.paused = true → w.run.signals.step = false → Pauses w

theorem Happens.pauses (h : Happens w a w') (hw : w.Pauses) (ha : ∀ call, a ≠ .call call) :
    w'.Pauses := by
  cases h with
  | rest => exact hw
  | work _ hsteps =>
      cases hw with
      | dropping hduty => exact Pauses.dropping hduty
      | setting hduty hstep => exact Pauses.setting hduty (hsteps.step_of_false hstep)
      | paused hduty hpaused hstep =>
          exact Pauses.paused hduty (hsteps.paused.trans hpaused) (hsteps.step_of_false hstep)
  | drop hdrop =>
      cases hw with
      | dropping hduty =>
          cases hdrop.symm.trans hduty
          exact Pauses.setting rfl rfl
      | setting hduty _ | paused hduty _ _ => cases hdrop.symm.trans hduty
  | set hset =>
      cases hw with
      | setting hduty hstep =>
          cases hset.symm.trans hduty
          exact Pauses.paused rfl rfl hstep
      | dropping hduty | paused hduty _ _ => cases hset.symm.trans hduty
  | request h | cancel h | notify h | release h | close h _ =>
      cases hw with
      | dropping hduty | setting hduty _ | paused hduty _ _ => cases h.symm.trans hduty
  | launch _ _ _ | refuse _ _ _ | pause _ _ | resume _ _ | advance _ _ | stop _ | retime _
  | serve _ _ _ _ _ => exact absurd rfl (ha _)

theorem pauses_perform (h : w.Pauses) (acts : List Act)
    (hacts : ∀ a ∈ acts, ∀ call, a ≠ .call call) :
    (w.perform acts).Pauses := by
  induction acts generalizing w with
  | nil => exact h
  | cons a acts ih =>
      have hact := (happens_act w a).pauses h (hacts a List.mem_cons_self)
      refine ih (w := w.step a) ?_ fun b hb => hacts b (List.mem_cons_of_mem _ hb)
      cases hact with
      | dropping hduty => exact Pauses.dropping hduty
      | setting hduty hstep => exact Pauses.setting hduty hstep
      | paused hduty hpaused hstep => exact Pauses.paused hduty hpaused hstep

theorem pauses_pause (hfree : w.duty = .free) (hstate : w.run.state = .running) :
    (w.step (.call .pause)).Pauses := by
  apply Pauses.dropping
  simp [step, act, enter, hfree, hstate]

theorem Pauses.credit_le (h : w.Pauses) (hfree : w.duty = .free) : w.Pausing ∧ w.credit ≤ 1 := by
  cases h with
  | dropping hduty | setting hduty _ => cases hfree.symm.trans hduty
  | paused hduty hpaused hstep =>
      refine ⟨⟨hpaused, Or.inl hduty⟩, ?_⟩
      simp only [credit, hstep, hduty]
      exact Bool.toNat_le _

end Watch
end Blockwise
