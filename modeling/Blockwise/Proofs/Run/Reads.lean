import Blockwise.Proofs.Evaluation.CalledOff
import Blockwise.Proofs.Run.Stages

/-!
# Pending reads

The prompt is up exactly while the worker is in a read: it waits for a line, or has its answer and
has not taken the prompt down yet.  A read that is called off is the last that the worker does for
its program.
-/

namespace Blockwise

namespace Phase

def isReading : Phase → Bool
  | waiting _ _ _ | answering _ _ => true
  | _ => false

theorem isReading_ofFault (fault : Fault) : (ofFault fault).isReading = false := by
  unfold ofFault
  split <;> rfl

end Phase

namespace Engine

variable {chance : Chance} {s s' : Signals} {e e' : Engine} {done : List Deed}

theorem Steps.prompt (h : Steps chance s e s' e' done)
    (hprompt : s.prompt.isSome = e.phase.isReading) : s'.prompt.isSome = e'.phase.isReading := by
  cases h with
  | ask _ | answer _ => rfl
  | obey hcheck _ =>
      rw [hprompt]
      cases hphase : e.phase <;> simp [hphase, Phase.isCheck, Phase.isReading, go] at hcheck ⊢
  | fail hphase =>
      rw [hphase] at hprompt
      exact hprompt.trans (Phase.isReading_ofFault _).symm
  | doze _ _ | rest _ => exact hprompt
  | enter hphase | arrive hphase _ | finish hphase _ | begin hphase _ | leave hphase _
  | write hphase | look hphase | interrupt hphase _ | take hphase _ | publish hphase
  | listed hphase | time hphase | wake hphase _ | hold hphase _ | pass hphase _ | stay hphase _
  | grant hphase _ | deny hphase _ | choose hphase _ _ | balk hphase _ _ | lapse hphase _ _
  | move hphase | raise hphase | report hphase | quit hphase =>
      rw [hphase] at hprompt
      exact hprompt

end Engine

namespace Watch

variable {w w' : Watch} {a : Act}

/-- The prompt tells whether the worker is in a read. -/
def Prompts (w : Watch) : Prop :=
  ∀ e, w.run.engine = some e → w.run.signals.prompt.isSome = e.phase.isReading

theorem Prompts.congr (h : w.Prompts) (hengine : w'.run.engine = w.run.engine)
    (hprompt : w'.run.signals.prompt = w.run.signals.prompt) : w'.Prompts := by
  intro e he
  rw [hprompt]
  exact h e (hengine.symm.trans he)

theorem Happens.prompts (h : Happens w a w') (hstaged : w.run.Staged) (hw : w.Prompts) :
    w'.Prompts := by
  intro e' he'
  cases h.succeeds he' with
  | stepped _ hengine hsteps => exact hsteps.prompt (hw _ hengine)
  | started hidle _ hsignals _ =>
      rcases hstaged.of_idle hidle with ⟨_, _, _, hprompt⟩
      rw [hsignals, hprompt]
      rfl
  | @stayed e _ _ hengine _ hprompt _ =>
      rw [hprompt]
      exact hw e hengine

theorem prompts_perform (delay : Nat) (acts : List Act) : ((new delay).perform acts).Prompts := by
  apply always_orderly
  · intro delay e he
    cases he
  · intro w a horderly hw
    exact ((happens_act w a).prompts horderly.staged hw).congr rfl rfl

theorem prompt_of_ended (delay : Nat) (acts : List Act)
    (hended : ((new delay).perform acts).run.isLive = false) :
    ((new delay).perform acts).run.prompt? = none := by
  have hprompts := prompts_perform delay acts
  have hstaged := (orderly_perform delay acts).staged
  generalize (new delay).perform acts = w at hended hprompts hstaged ⊢
  cases hstaged with
  | idle _ _ _ _ hprompt => exact hprompt
  | stopped _ _ hprompt => exact hprompt
  | running _ hengine =>
      have hprompt := hprompts _ hengine
      rw [Run.ended_of_isLive hengine hended] at hprompt
      exact Option.not_isSome_iff_eq_none.mp (Bool.eq_false_iff.mp hprompt)

end Watch

/-!
# Reads that are called off

A read that is called off fails.  It is the last of its block, since no block that a source compiles
to goes on after a failed read.
-/

namespace Phase

def StopsShort : Phase → Prop
  | checking step => ∀ store, (step.tree.evaluate store).StopsShort
  | talking _ talk => Dialogue.StopsShort talk
  | waiting _ _ next =>
      (∀ fault, ∃ store, next (.error fault) = .done (.error fault, store)) ∧
        ∀ line, Dialogue.StopsShort (next (.ok line))
  | answering _ talk => Dialogue.StopsShort talk
  | _ => True

theorem stopsShort_ofFault (fault : Fault) : (ofFault fault).StopsShort := by
  unfold ofFault
  split <;> trivial

end Phase

namespace Engine

variable {chance : Chance} {s s' : Signals} {e e' : Engine} {done : List Deed}

structure StopsShort (e : Engine) : Prop where
  steps : ∀ id step, e.program.get? id = some step →
    ∀ store, (step.tree.evaluate store).StopsShort
  phase : e.phase.StopsShort

theorem stopsShort_new {chart : Chart} {program : Program}
    (hbuild : Program.build chart = .ok program) : (new program).StopsShort where
  steps := fun _ _ hget store => Program.stopsShort_of_get? hbuild hget store
  phase := trivial

theorem Steps.stopsShort (h : Steps chance s e s' e' done) (he : e.StopsShort) :
    e'.StopsShort := by
  have hphase := he.phase
  refine ⟨?_, ?_⟩
  · rw [h.program]
    exact he.steps
  · cases h with
    | arrive _ hget => exact he.steps _ _ hget
    | begin hcheck _ =>
        rw [hcheck] at hphase
        exact hphase e.store
    | fail _ => exact Phase.stopsShort_ofFault _
    | write htalk | ask htalk =>
        rw [htalk] at hphase
        exact hphase
    | look hwait =>
        rw [hwait] at hphase
        exact hphase
    | interrupt hwait _ =>
        rw [hwait] at hphase
        rcases hphase.1 Cause.interrupted.fault with ⟨store, hdone⟩
        change Dialogue.StopsShort _
        rw [hdone]
        trivial
    | @take _ _ _ line _ hwait _ =>
        rw [hwait] at hphase
        exact hphase.2 line
    | answer hanswer =>
        rw [hanswer] at hphase
        exact hphase
    | doze _ _ | rest _ => exact hphase
    | _ => trivial

end Engine

namespace Watch

variable {w w' : Watch} {a : Act}

/-- In a run of a chart, a read that is called off is the last of its block. -/
def StopsShort (w : Watch) : Prop :=
  ∀ e, w.run.engine = some e → e.StopsShort

theorem Happens.stopsShort (h : Happens w a w') (hw : w.StopsShort) : w'.StopsShort := by
  intro e' he'
  cases h.succeeds he' with
  | stepped _ hengine hsteps => exact hsteps.stopsShort (hw _ hengine)
  | started _ hbuild _ _ => exact Engine.stopsShort_new hbuild
  | stayed hengine _ _ _ =>
      have hbefore := hw _ hengine
      exact ⟨hbefore.steps, hbefore.phase⟩

theorem stopsShort_perform (delay : Nat) (acts : List Act) :
    ((new delay).perform acts).StopsShort := by
  apply always_orderly
  · intro delay e he
    cases he
  · intro w a _ hw
    exact (happens_act w a).stopsShort hw

end Watch
end Blockwise
