import Blockwise.Proofs.Run.Refinement
import Blockwise.Proofs.Terminal.Invariants

/-!
# What has been printed

The loop prints what it takes, in order, and goes on from a pass over the channels only if it has
taken nothing.  So what it has printed then is what the worker had written when the pass began.
What the worker writes after that is printed in a later pass, but a stop gives up the channels: if
the worker was not yet waiting for a line when the loop last looked, its last lines can be lost.
-/

namespace Blockwise

/-!
# Workers that wait for a line

A worker whose read has no line does nothing but look for one, or end when the read is called off.
So nothing is written meanwhile, and nothing after the worker has ended.
-/

namespace Phase

def IsCalledOff : Phase → Prop
  | answering _ talk | talking _ talk =>
      ∃ store, talk = .done (.error Cause.interrupted.fault, store)
  | ended => True
  | _ => False

end Phase

namespace Engine

/-- The worker waits for a line that nobody has sent, or has given up. -/
def IsWaiting (e : Engine) : Prop :=
  e.phase.isRead = true ∧ e.wires.input.toList = [] ∨ e.phase.IsCalledOff

variable {chance : Chance} {s s' : Signals} {e e' : Engine} {done : List Deed}

theorem Steps.isWaiting (h : Steps chance s e s' e' done) (hshort : e.StopsShort)
    (he : e.IsWaiting) : e'.IsWaiting ∧ done.filterMap Deed.line? = [] := by
  have hphase := hshort.phase
  unfold IsWaiting at he
  cases h with
  | look hwait =>
      rw [hwait] at he
      rcases he with ⟨_, hinput⟩ | hoff
      · exact ⟨Or.inl ⟨rfl, hinput⟩, rfl⟩
      · cases hoff
  | interrupt hwait _ =>
      rw [hwait] at hphase
      exact ⟨Or.inr (hphase.1 _), rfl⟩
  | take hwait hline =>
      rw [hwait] at he
      rcases he with ⟨_, hinput⟩ | hoff
      · cases hinput.symm.trans hline
      · cases hoff
  | answer hanswer =>
      rw [hanswer] at he
      rcases he with ⟨hread, _⟩ | hoff
      · cases hread
      · exact ⟨Or.inr hoff, rfl⟩
  | fail htalk =>
      rw [htalk] at he
      rcases he with ⟨hread, _⟩ | ⟨store, hdone⟩
      · cases hread
      · cases hdone
        exact ⟨Or.inr trivial, rfl⟩
  | leave htalk hvalue =>
      rw [htalk] at he
      rcases he with ⟨hread, _⟩ | ⟨store, hdone⟩
      · cases hread
      · cases hdone
        cases hvalue
  | write htalk | ask htalk =>
      rw [htalk] at he
      rcases he with ⟨hread, _⟩ | ⟨store, hdone⟩
      · cases hread
      · cases hdone
  | rest hended => exact ⟨Or.inr (by rw [hended]; trivial), rfl⟩
  | obey hcheck _ =>
      exact ⟨Or.inr trivial, rfl⟩
  | enter hphase' | arrive hphase' _ | finish hphase' _ | begin hphase' _ | publish hphase'
  | listed hphase' | time hphase' | doze hphase' _ | wake hphase' _ | hold hphase' _
  | pass hphase' _ | stay hphase' _ | grant hphase' _ | deny hphase' _ | choose hphase' _ _
  | balk hphase' _ _ | lapse hphase' _ _ | move hphase' | raise hphase' | report hphase'
  | quit hphase' =>
      rw [hphase'] at he
      rcases he with ⟨hread, _⟩ | hoff
      · cases hread
      · cases hoff

theorem Steps.reading (h : Steps chance s e s' e' done) (hcalm : s.cancelled = false)
    (hstops : e.wires.stops = 0) (hread : e.phase.isRead = true) :
    (e'.phase.isRead = true ∧ s' = s ∧ e'.wires = e.wires ∧ done = []) ∨
      (e'.phase.isRead = false ∧ ∃ line,
        e.wires.input.toList = line :: e'.wires.input.toList) := by
  cases h with
  | look _ => exact Or.inl ⟨rfl, rfl, rfl, rfl⟩
  | take _ hline => exact Or.inr ⟨rfl, _, hline⟩
  | interrupt _ hinterrupted =>
      rcases hinterrupted with hcancelled | hsent
      · cases hcalm.symm.trans hcancelled
      · exact absurd hstops hsent
  | obey _ hcancelled => cases hcalm.symm.trans hcancelled
  | enter hphase | arrive hphase _ | finish hphase _ | begin hphase _ | fail hphase
  | leave hphase _ | write hphase | ask hphase | answer hphase | publish hphase | listed hphase
  | time hphase | doze hphase _ | wake hphase _ | hold hphase _ | pass hphase _ | stay hphase _
  | grant hphase _ | deny hphase _ | choose hphase _ _ | balk hphase _ _ | lapse hphase _ _
  | move hphase | raise hphase | report hphase | quit hphase | rest hphase =>
      rw [hphase] at hread
      cases hread

theorem Steps.asking (h : Steps chance s e s' e' done) (hcalm : s.cancelled = false)
    (hstops : e.wires.stops = 0) (hasks : e.asks = true) :
    e'.asks = true ∧ s' = s ∧ e'.wires = e.wires ∧ done = [] := by
  rcases asks_iff.mp hasks with ⟨hread, hinput⟩
  rcases h.reading hcalm hstops hread with ⟨hread', hsame, hwires, hdone⟩ | ⟨_, line, hline⟩
  · refine ⟨asks_iff.mpr ⟨hread', ?_⟩, hsame, hwires, hdone⟩
    rw [hwires]
    exact hinput
  · cases hinput.symm.trans hline

end Engine

namespace Act

def isQuiet : Act → Bool
  | work _ | call .drainOutput | call .drainErrors | call .drainUpdates => true
  | _ => false

end Act

namespace Watch

variable {w w' g : Watch} {a : Act}

theorem Happens.deeds_of_other (h : Happens w a w') (ha : a.isWork = false) :
    w'.deeds = w.deeds := by
  cases h with
  | work _ _ => cases ha
  | _ => rfl

theorem written_of_other (ha : a.isWork = false) : (w.step a).written = w.written :=
  congrArg (List.filterMap Deed.line?) ((happens_act w a).deeds_of_other ha)

theorem asks_step (hw : w.Reachable) (hcalm : w.run.signals.cancelled = false)
    (hquiet : a.isQuiet = true) (hasks : w.run.asks = true) :
    (w.step a).run.asks = true ∧ (w.step a).written = w.written := by
  by_cases hwork : a.isWork = true
  · cases a with
    | work chance =>
        rcases Run.asks_iff.mp hasks with ⟨e, hengine, hasks'⟩
        have hstops := (hw.runs hcalm e hengine).stops
        rcases (e.steps_step chance w.run.signals).asking hcalm hstops hasks' with
          ⟨hasks'', _, _, hdeeds⟩
        constructor
        · rw [Run.asks_iff]
          simp [step, act_work hengine, hasks'']
        · simp [step, act_work hengine, written, hdeeds]
    | _ => cases hwork
  · refine ⟨?_, written_of_other (Bool.eq_false_iff.mpr hwork)⟩
    change (w.act a).run.asks = true
    cases a with
    | call call =>
        unfold act
        dsimp only
        split
        · cases call with
          | drainOutput => exact (Run.asks_drainOutput _).trans hasks
          | drainErrors => exact (Run.asks_drainErrors _).trans hasks
          | drainUpdates => exact (Run.asks_drainUpdates _).trans hasks
          | _ => cases hquiet
        · exact hasks
    | work _ => exact absurd rfl hwork
    | proceed => cases hquiet

def IsWaiting (w : Watch) : Prop :=
  ∀ e, w.run.engine = some e → e.IsWaiting

theorem isWaiting_of_asks (h : w.run.asks = true) : w.IsWaiting := by
  rcases Run.asks_iff.mp h with ⟨e, hengine, hasks⟩
  intro e' he'
  cases hengine.symm.trans he'
  exact Or.inl (Engine.asks_iff.mp hasks)

theorem Happens.isWaiting (h : Happens w a w') (hshort : w.StopsShort)
    (ha : ∀ call, a ≠ .call call) (hw : w.IsWaiting) :
    w'.IsWaiting ∧ w'.written = w.written := by
  cases h with
  | work hengine hsteps =>
      rcases hsteps.isWaiting (hshort _ hengine) (hw _ hengine) with ⟨hwaiting, hnone⟩
      refine ⟨?_, by simp [written, hnone]⟩
      intro e' he'
      cases he'
      exact hwaiting
  | notify _ =>
      refine ⟨?_, rfl⟩
      intro e' he'
      rcases Run.exists_of_sendStop he' with ⟨e, hengine, rfl⟩
      exact hw e hengine
  | close _ _ =>
      refine ⟨?_, rfl⟩
      intro e he
      cases he
  | rest | drop _ | set _ | request _ | cancel _ | release _ => exact ⟨hw, rfl⟩
  | launch _ _ _ | refuse _ _ _ | pause _ _ | resume _ _ | advance _ _ | stop _ | retime _
  | serve _ _ _ _ _ => exact absurd rfl (ha _)

def Outlasts (w g : Watch) : Prop :=
  g.run.isLive = false → w.run.isLive = false ∧ w.written = g.written

theorem Outlasts.rfl : w.Outlasts w :=
  fun hended => ⟨hended, Eq.refl _⟩

theorem Outlasts.step (h : w.Outlasts g) (ha : a.isStart = false) : (w.step a).Outlasts g := by
  intro hended
  rcases h hended with ⟨hended', hwritten⟩
  rcases (happens_act w a).ended ha hended' with ⟨hended'', hdeeds⟩
  exact ⟨hended'', (congrArg (List.filterMap Deed.line?) hdeeds).trans hwritten⟩

theorem drainOutput_of_none {r : Run} (h : r.engine = none) : r.drainOutput.1 = [] := by
  simp [Run.drainOutput, h]

end Watch

namespace Conversation

variable {c c' : Conversation} {turn : Turn} {delay : Nat} {a : Act}

theorem Kept.stopsShort (h : c.Kept delay) : c.record.watch.StopsShort := by
  rcases h.reachable with ⟨_, acts, hacts⟩
  rw [hacts]
  exact Watch.stopsShort_perform _ acts

/-!
# What the loop saw when it last took lines

The glance is the run as the last pass found it.  If that pass found no lines, what has been printed
is what had been written then.  A worker that was waiting then has written nothing since.
-/

theorem isFinishing_looked (r : Run) :
    (Terminal.Phase.flushing (!r.isLive)).isFinishing = !r.isLive := by
  cases r.isLive <;> rfl

theorem isServing_of_isPrinting {phase : Terminal.Phase} (h : phase.isPrinting = true) :
    phase.isServing = false := by
  cases phase <;> first | rfl | cases h

theorem leave_cases (t : Terminal) (h : t.phase.isPrinting = true) :
    t.phase.isFinishing = false ∧ t.leave.phase = .prompting ∨
      t.phase.isFinishing = true ∧
        (t.leave.phase = .closing ∨ ∃ success, t.leave.phase = .exited success) := by
  cases hphase : t.phase with
  | flushing finished =>
      cases finished with
      | true => exact Or.inr ⟨rfl, Or.inl (by simp [Terminal.leave, hphase])⟩
      | false => exact Or.inl ⟨rfl, by simp [Terminal.leave, hphase]⟩
  | closing => exact Or.inr ⟨rfl, Or.inr ⟨_, by simp only [Terminal.leave, hphase]; rfl⟩⟩
  | _ =>
      rw [hphase] at h
      cases h

theorem leave_ne_fetching (t : Terminal) (h : t.phase.isPrinting = true) :
    t.leave.phase ≠ .fetching := by
  intro hfetching
  rcases leave_cases t h with ⟨_, hnext⟩ | ⟨_, hnext | ⟨_, hnext⟩⟩ <;>
    cases hnext.symm.trans hfetching

/-- The loop is in a pass that has taken lines already, or has come from one and sees to a pending
read. -/
def Fresh (c : Conversation) : Prop :=
  c.pass.lines?.isSome = true ∨ c.terminal.phase.isServing = true

def FoundNone (c : Conversation) : Prop :=
  c.pass.lines? = some [] ∨ c.terminal.phase.isServing = true ∨
    ∃ success, c.terminal.phase = .exited success

theorem not_fresh (hpass : c.pass = .takingLines) (hphase : c.terminal.phase.isServing = false) :
    ¬ c.Fresh := by
  rintro (hsome | hserving)
  · rw [hpass] at hsome
    cases hsome
  · cases hphase.symm.trans hserving

theorem not_foundNone (hpass : c.pass = .takingLines)
    (hphase : c.terminal.phase = .looking ∨ c.terminal.phase.isPrinting = true) :
    ¬ c.FoundNone := by
  rintro (hnone | hserving | ⟨success, hexited⟩)
  · rw [hpass] at hnone
    cases hnone
  · rcases hphase with hlooking | hprinting
    · rw [hlooking] at hserving
      cases hserving
    · cases (isServing_of_isPrinting hprinting).symm.trans hserving
  · rw [hexited] at hphase
    rcases hphase with hlooking | hprinting
    · cases hlooking
    · cases hprinting

structure Stopped (c : Conversation) (g : Watch) : Prop where
  lines : c.record.lines = g.written
  pass : c.pass.lines?.getD [] = []
  waiting : g.run.asks = true → c.record.watch.written = g.written ∧ c.record.watch.IsWaiting

/-- What the glance tells of the run. -/
structure Glanced (c : Conversation) : Prop where
  ended : c.record.watch.Outlasts c.glance
  finishing : c.terminal.phase.isFinishing = true → c.record.watch.run.isLive = false
  final : c.terminal.phase.isFinishing = true → c.pass.lines?.isSome = true →
    c.glance.run.isLive = false
  exited : ∀ success, c.terminal.phase = .exited success → c.glance.run.isLive = false
  asks : c.stop = none → c.Fresh → c.glance.run.asks = true →
    c.record.watch.run.asks = true ∧ c.record.watch.written = c.glance.written
  caught : c.stop = none → c.FoundNone → c.record.lines = c.glance.written
  stopped : ∀ g, c.stop = some g → c.Stopped g

theorem Happens.ended (h : c.Happens turn c') (hc : c.record.watch.Outlasts c.glance) :
    c'.record.watch.Outlasts c'.glance := by
  cases h with
  | work | takeFaults _ _ | takeUpdates _ _ | hand _ _ _ | stop _ _ _ _ | stopping _ _ _
  | stopped _ _ _ => exact hc.step rfl
  | takeLines _ _ => exact Watch.Outlasts.rfl.step rfl
  | _ => exact hc

theorem isLive_step (ha : a.isStart = false) (hended : c.record.watch.run.isLive = false) :
    (c.record.step a).watch.run.isLive = false :=
  ((Watch.happens_act c.record.watch a).ended ha hended).1

theorem Happens.finishing (h : c.Happens turn c') (hrun : c.terminal.run = c.record.watch.run)
    (hc : c.terminal.phase.isFinishing = true → c.record.watch.run.isLive = false) :
    c'.terminal.phase.isFinishing = true → c'.record.watch.run.isLive = false := by
  cases h with
  | look _ =>
      intro hfinishing
      change (Terminal.Phase.flushing _).isFinishing = true at hfinishing
      rw [isFinishing_looked, hrun] at hfinishing
      simpa using hfinishing
  | leave hphase _ =>
      intro hfinishing
      apply hc
      rcases leave_cases c.terminal hphase with ⟨_, hprompting⟩ | ⟨hbefore, _⟩
      · change c.terminal.leave.phase.isFinishing = true at hfinishing
        rw [hprompting] at hfinishing
        cases hfinishing
      · exact hbefore
  | work | takeLines _ _ | takeFaults _ _ | takeUpdates _ _ | stop _ _ _ _ | stopping _ _ _ =>
      exact fun hfinishing => isLive_step rfl (hc hfinishing)
  | unprompted _ _ | again _ _ _ | prompt _ _ _ | hand _ _ _ | retry _ _ _ _
  | stopped _ _ _ => exact nofun
  | rest _ | deliver _ | endInput _ | print _ _ _ => exact hc

theorem Happens.final (h : c.Happens turn c') (hc : c.Glanced)
    (hpass : c.terminal.phase.isPrinting = false → c.pass = .takingLines) :
    c'.terminal.phase.isFinishing = true → c'.pass.lines?.isSome = true →
      c'.glance.run.isLive = false := by
  have hbefore := hc.final
  cases h with
  | look hphase =>
      intro _ hsome
      change c.pass.lines?.isSome = true at hsome
      rw [hpass (by rw [hphase]; rfl)] at hsome
      cases hsome
  | takeLines _ _ => exact fun hfinishing _ => hc.finishing hfinishing
  | takeFaults _ hpass' | takeUpdates _ hpass' =>
      rw [hpass'] at hbefore
      exact hbefore
  | print _ _ _ | leave _ _ => exact fun _ => nofun
  | unprompted _ _ | again _ _ _ | prompt _ _ _ | hand _ _ _ | retry _ _ _ _
  | stopped _ _ _ => exact nofun
  | rest _ | work | deliver _ | endInput _ | stop _ _ _ _ | stopping _ _ _ => exact hbefore

theorem Happens.exited (h : c.Happens turn c') (hc : c.Glanced) :
    ∀ success, c'.terminal.phase = .exited success → c'.glance.run.isLive = false := by
  intro success hexited
  have hbefore := hc.exited success
  cases h with
  | leave hphase hpass =>
      rcases leave_cases c.terminal hphase with ⟨_, hprompting⟩ | ⟨hfinishing, _⟩
      · cases hprompting.symm.trans hexited
      · apply hc.final hfinishing
        rw [hpass]
        rfl
  | takeLines hphase _ =>
      change c.terminal.phase = _ at hexited
      rw [hexited] at hphase
      cases hphase
  | look _ | unprompted _ _ | again _ _ _ | prompt _ _ _ | hand _ _ _ | retry _ _ _ _
  | stopped _ _ _ => cases hexited
  | rest _ | work | deliver _ | endInput _ | takeFaults _ _ | takeUpdates _ _ | print _ _ _
  | stop _ _ _ _ | stopping _ _ _ => exact hbefore hexited

theorem Happens.asks (h : c.Happens turn c') (hc : c.Glanced) (hkept : c.Kept delay) :
    c'.stop = none → c'.Fresh → c'.glance.run.asks = true →
      c'.record.watch.run.asks = true ∧ c'.record.watch.written = c'.glance.written := by
  have hbefore := hc.asks
  have hstep : ∀ a : Act, a.isQuiet = true → c.stop = none → c.Fresh →
      c.glance.run.asks = true → (c.record.step a).watch.run.asks = true ∧
        (c.record.step a).watch.written = c.glance.written := by
    intro a hquiet hnone hfresh hasks
    rcases hbefore hnone hfresh hasks with ⟨hasks', hwritten⟩
    have hcalm := (hkept.stands.of_unstopped hnone).1.2
    rcases Watch.asks_step hkept.reachable hcalm hquiet hasks' with ⟨hasks'', hwritten'⟩
    exact ⟨hasks'', hwritten'.trans hwritten⟩
  have hserving : c.terminal.phase.isServing = true → c.Fresh := Or.inr
  cases h with
  | rest _ | deliver _ | endInput _ => exact hbefore
  | work => exact hstep _ rfl
  | takeLines _ _ =>
      intro hnone _ hasks
      have hcalm := (hkept.stands.of_unstopped hnone).1.2
      exact Watch.asks_step hkept.reachable hcalm rfl hasks
  | takeFaults _ hpass | takeUpdates _ hpass =>
      intro hnone _
      refine hstep _ rfl hnone (Or.inl ?_)
      rw [hpass]
      rfl
  | leave _ hpass =>
      intro hnone _
      refine hbefore hnone (Or.inl ?_)
      rw [hpass]
      rfl
  | again hphase _ _ | prompt hphase _ _ =>
      intro hnone _
      exact hbefore hnone (hserving (by rw [hphase]; rfl))
  | look hphase =>
      intro _ hfresh
      exact absurd hfresh (not_fresh (hkept.pass (by rw [hphase]; rfl)) rfl)
  | print hphase _ _ =>
      intro _ hfresh
      exact absurd hfresh (not_fresh rfl (isServing_of_isPrinting hphase))
  | unprompted hphase _ | hand hphase _ _ | retry hphase _ _ _ | stopped hphase _ _ =>
      intro _ hfresh
      exact absurd hfresh (not_fresh (hkept.pass (by rw [hphase]; rfl)) rfl)
  | stop _ _ _ _ => exact nofun
  | stopping _ hbusy _ =>
      intro hnone
      exact absurd (hkept.stands.of_unstopped hnone).2 hbusy

theorem lines_step (ha : a ≠ .call .drainOutput) : (c.record.step a).lines = c.record.lines := by
  change c.record.lines ++ c.record.watch.linesBy a = c.record.lines
  rw [Watch.linesBy_of_ne ha, List.append_nil]

theorem Happens.caught (h : c.Happens turn c') (hc : c.Glanced) (hkept : c.Kept delay) :
    c'.stop = none → c'.FoundNone → c'.record.lines = c'.glance.written := by
  have hbefore := hc.caught
  cases h with
  | rest _ | deliver _ | endInput _ => exact hbefore
  | work =>
      intro hnone hfound
      exact (lines_step (by simp)).trans (hbefore hnone hfound)
  | takeLines hphase hpass =>
      intro hnone hfound
      rcases hkept.stands.of_unstopped hnone with ⟨hunstopped, hfree⟩
      have hdrained : c.record.watch.run.drainOutput.1 = [] := by
        rw [← hkept.run]
        rcases hfound with hdrained | hserving | ⟨success, hexited⟩
        · exact Option.some.inj hdrained
        · cases (isServing_of_isPrinting hphase).symm.trans hserving
        · change c.terminal.phase = _ at hexited
          rw [hexited] at hphase
          cases hphase
      have hrest := hkept.rest hunstopped
      rw [Run.queuedLines_of_drain hdrained, List.append_nil] at hrest
      change c.record.lines ++ c.record.watch.linesBy (.call .drainOutput) = _
      simp [Watch.linesBy, hfree, hdrained, hrest]
  | takeFaults hphase hpass | takeUpdates hphase hpass =>
      intro hnone hfound
      refine (lines_step (by simp)).trans (hbefore hnone ?_)
      rw [FoundNone, hpass]
      exact hfound
  | print hphase _ _ =>
      intro _ hfound
      exact absurd hfound (not_foundNone rfl (Or.inr hphase))
  | leave _ hpass =>
      intro hnone _
      refine hbefore hnone (Or.inl ?_)
      rw [hpass]
      rfl
  | again hphase _ _ | prompt hphase _ _ =>
      intro hnone _
      exact hbefore hnone (Or.inr (Or.inl (by rw [hphase]; rfl)))
  | look hphase =>
      intro _ hfound
      exact absurd hfound (not_foundNone (hkept.pass (by rw [hphase]; rfl)) (Or.inr rfl))
  | unprompted hphase _ | hand hphase _ _ | retry hphase _ _ _ | stopped hphase _ _ =>
      intro _ hfound
      exact absurd hfound (not_foundNone (hkept.pass (by rw [hphase]; rfl)) (Or.inl rfl))
  | stop _ _ _ _ =>
      intro hnone
      cases hnone
  | stopping _ hbusy _ =>
      intro hnone
      exact absurd (hkept.stands.of_unstopped hnone).2 hbusy

theorem Stopped.congr {g : Watch} (h : c.Stopped g) (hrecord : c'.record = c.record)
    (hpass : c'.pass.lines?.getD [] = []) : c'.Stopped g :=
  ⟨by rw [hrecord]; exact h.lines, hpass, by rw [hrecord]; exact h.waiting⟩

theorem Stopped.act {g : Watch} (h : c.Stopped g) (hshort : c.record.watch.StopsShort)
    (ha : ∀ call, a ≠ .call call) (hrecord : c'.record = c.record.step a)
    (hpass : c'.pass = c.pass) : c'.Stopped g := by
  refine ⟨?_, by rw [hpass]; exact h.pass, ?_⟩
  · rw [hrecord, lines_step (ha _)]
    exact h.lines
  · intro hasks
    rcases h.waiting hasks with ⟨hwritten, hwaiting⟩
    rcases (Watch.happens_act c.record.watch a).isWaiting hshort ha hwaiting with
      ⟨hwaiting', hwritten'⟩
    rw [hrecord]
    exact ⟨hwritten'.trans hwritten, hwaiting'⟩

theorem Stopped.take {g : Watch} (h : c.Stopped g) (hengine : c.record.watch.run.engine = none)
    (ha : a.isStart = false) (hwork : a.isWork = false) (hrecord : c'.record = c.record.step a)
    (hpass : c'.pass.lines?.getD [] = []) : c'.Stopped g := by
  have hlines : c.record.watch.linesBy a = [] := by
    unfold Watch.linesBy
    split
    · rw [Watch.drainOutput_of_none hengine, ite_self]
    · rfl
  refine ⟨?_, hpass, ?_⟩
  · rw [hrecord]
    change c.record.lines ++ c.record.watch.linesBy a = _
    rw [hlines, List.append_nil]
    exact h.lines
  · intro hasks
    rcases h.waiting hasks with ⟨hwritten, _⟩
    have hnone := (Watch.happens_act c.record.watch a).engine_of_none ha hengine
    rw [hrecord]
    refine ⟨(Watch.written_of_other hwork).trans hwritten, ?_⟩
    intro e he
    cases hnone.symm.trans he

theorem Happens.wound (h : c.Happens turn c') (hc : c.Glanced) (hkept : c.Kept delay) :
    ∀ g, c'.stop = some g → c'.Stopped g := by
  intro g hg
  have hbefore := hc.stopped g
  -- Only a loop that has not stopped the run sees to a pending read.
  have hserving : c.terminal.phase.isServing = true → c.record.watch.duty = .free →
      c.stop ≠ some g := by
    intro hphase hfree hsome
    cases (hkept.stands.of_serving hphase hfree).1.symm.trans hsome
  have hprinting : c.terminal.phase.isPrinting = true → c.stop = some g →
      c.record.watch.run.engine = none := by
    intro hphase hsome
    cases hkept.stands with
    | unstopped hnone _ _ => cases hnone.symm.trans hsome
    | stopping _ _ hfetching => exact absurd hfetching (phase_ne_of_isPrinting hphase)
    | stopped _ _ hengine _ => exact hengine
  cases h with
  | rest _ => exact hbefore hg
  | deliver _ | endInput _ | look _ => exact (hbefore hg).congr rfl (hbefore hg).pass
  | work => exact (hbefore hg).act hkept.stopsShort (by simp) rfl rfl
  | takeLines hphase _ =>
      have hengine := hprinting hphase hg
      refine (hbefore hg).take hengine rfl rfl rfl ?_
      rw [hkept.run]
      exact Watch.drainOutput_of_none hengine
  | takeFaults hphase hpass | takeUpdates hphase hpass =>
      have hlines := (hbefore hg).pass
      rw [hpass] at hlines
      exact (hbefore hg).take (hprinting hphase hg) rfl rfl rfl hlines
  | print _ _ _ | leave _ _ => exact (hbefore hg).congr rfl rfl
  | unprompted hphase _ | again hphase _ _ | prompt hphase _ _ =>
      have hfree := hkept.stands.free (by simp [hphase])
      exact absurd hg (hserving (by rw [hphase]; rfl) hfree)
  | hand hphase hfree _ | retry hphase hfree _ _ =>
      exact absurd hg (hserving (by rw [hphase]; rfl) hfree)
  | stop hphase hfree _ _ =>
      cases hg
      have hphase' : c.terminal.phase.isServing = true := by
        rw [hphase]
        rfl
      have hnone := (hkept.stands.of_serving hphase' hfree).1
      refine ⟨?_, ?_, ?_⟩
      · rw [← hc.caught hnone (Or.inr (Or.inl hphase'))]
        exact lines_step (by simp)
      · change c.pass.lines?.getD [] = []
        rw [hkept.pass (by rw [hphase]; rfl)]
        rfl
      · intro hasks
        rcases hc.asks hnone (Or.inr hphase') hasks with ⟨hasks', hwritten⟩
        refine ⟨(Watch.written_of_other rfl).trans hwritten, ?_⟩
        have hsame : (c.record.step (.call .stop)).watch.run = c.record.watch.run := by
          simp [Record.step, Watch.step, Watch.act, Watch.enter, hfree]
        apply Watch.isWaiting_of_asks
        change (c.record.step (.call .stop)).watch.run.asks = true
        rw [hsame]
        exact hasks'
  | stopping _ _ _ => exact (hbefore hg).act hkept.stopsShort (by simp) rfl rfl
  | stopped hphase _ _ => exact (hbefore hg).act hkept.stopsShort (by simp) rfl rfl

theorem Glanced.step (h : c.Glanced) (hkept : c.Kept delay) (turn : Turn) :
    (c.step turn).Glanced := by
  have hhappens := c.happens_step turn
  exact ⟨hhappens.ended h.ended, hhappens.finishing hkept.run h.finishing,
    hhappens.final h hkept.pass, hhappens.exited h, hhappens.asks h hkept,
    hhappens.caught h hkept, hhappens.wound h hkept⟩

theorem glanced_start (chart : Chart) (catalog : Catalog) (delay : Nat) (input : List String) :
    (start chart catalog delay input).Glanced := by
  have hended : ∀ success, (start chart catalog delay input).terminal.phase = .exited success →
      (start chart catalog delay input).record.watch.run.isLive = false := by
    intro success hexited
    cases hbuild : Program.build chart with
    | ok program => simp [start, Terminal.start, Run.start, Run.new, hbuild] at hexited
    | error errors =>
        simp [start, Record.step, Watch.step, Watch.act, Watch.enter, Record.new, Watch.new,
          Run.start, Run.new, hbuild, Run.isLive]
  have hphase : (start chart catalog delay input).terminal.phase = .looking ∨
      ∃ success, (start chart catalog delay input).terminal.phase = .exited success := by
    unfold start Terminal.start
    dsimp only
    split
    · exact Or.inl rfl
    · exact Or.inr ⟨_, rfl⟩
  have hwritten : (Watch.new delay).written = [] := rfl
  constructor
  · exact Watch.Outlasts.rfl
  · intro hfinishing
    rcases hphase with hlooking | ⟨success, hexited⟩
    · rw [hlooking] at hfinishing
      cases hfinishing
    · exact hended success hexited
  · intro _ hsome
    cases hsome
  · exact hended
  · exact fun _ _ hasks => ⟨hasks, rfl⟩
  · intro _ _
    exact ((Watch.written_of_other (a := .call (.start chart)) rfl).trans hwritten).symm
  · intro g hg
    have hnone : (start chart catalog delay input).stop = none := rfl
    cases hnone.symm.trans hg

theorem glanced_perform (chart : Chart) (catalog : Catalog) (delay : Nat) (input : List String)
    (turns : List Turn) : ((start chart catalog delay input).perform turns).Glanced := by
  induction turns using List.reverseRecOn with
  | nil => exact glanced_start chart catalog delay input
  | append_singleton turns turn ih =>
      rw [perform_concat]
      exact ih.step (kept_perform chart catalog delay input turns) turn

/-- What is printed is the front of what the worker writes, in order, with the prompts between.
Where the loop sees to a pending read, all is printed that was written when it last looked, and that
is all that there is, if the worker was waiting for a line then and none was on its way.  When the
loop ends, everything is printed, unless it stopped the run before the worker was waiting so. -/
theorem prints_what_was_written (chart : Chart) (catalog : Catalog) (delay : Nat)
    (input : List String) (turns : List Turn) :
    let c := (start chart catalog delay input).perform turns
    let written := c.record.watch.written
    c.terminal.printed.toList = c.pieces.map Piece.text ∧
    c.lines <+: written ∧
    (c.stop = none → c.terminal.phase.isServing = true →
      c.lines = c.glance.written ∧ (c.glance.run.asks = true → c.lines = written)) ∧
    (∀ g, c.stop = some g →
      c.lines = g.written ∧ (g.run.asks = true → c.lines = written)) ∧
    (∀ success, c.terminal.phase = .exited success → c.stop = none → c.lines = written) := by
  intro c written
  have hkept : c.Kept delay := kept_perform chart catalog delay input turns
  have hglanced : c.Glanced := glanced_perform chart catalog delay input turns
  refine ⟨hkept.printed, hkept.written, ?_, ?_, ?_⟩
  · intro hnone hserving
    have hphase : c.terminal.phase.isPrinting = false := by
      cases hcase : c.terminal.phase <;> rw [hcase] at hserving <;> first | rfl | cases hserving
    have hlines : c.lines = c.glance.written :=
      (hkept.lines_of_not_printing hphase).trans (hglanced.caught hnone (Or.inr (Or.inl hserving)))
    refine ⟨hlines, ?_⟩
    intro hasks
    exact hlines.trans (hglanced.asks hnone (Or.inr hserving) hasks).2.symm
  · intro g hg
    have hstopped := hglanced.stopped g hg
    have hlines : c.lines = g.written := (hkept.lines_eq hstopped.pass).trans hstopped.lines
    refine ⟨hlines, ?_⟩
    intro hasks
    exact hlines.trans (hstopped.waiting hasks).1.symm
  · intro success hexited hnone
    have hphase : c.terminal.phase.isPrinting = false := by
      rw [hexited]
      rfl
    have hlines : c.lines = c.glance.written :=
      (hkept.lines_of_not_printing hphase).trans
        (hglanced.caught hnone (Or.inr (Or.inr ⟨success, hexited⟩)))
    exact hlines.trans (hglanced.ended (hglanced.exited success hexited)).2.symm

def inquiry : Chart where
  start := ⟨0⟩
  blocks :=
    [⟨⟨0⟩, "", .start (some ⟨1⟩)⟩, ⟨⟨1⟩, "\"so\"", .output (some ⟨2⟩)⟩,
      ⟨⟨2⟩, "read s as String", .input (some ⟨3⟩)⟩, ⟨⟨3⟩, "", .finish⟩]

def working (steps : Nat) : List Turn :=
  List.replicate steps (.work (.inOrder true))

def proceeding (steps : Nat) : List Turn :=
  List.replicate steps .proceed

def awaitedTurns : List Turn :=
  working 20 ++ .read :: proceeding 20 ++ working 10 ++ proceeding 20

theorem prints_what_was_written_awaited :
    let c := (start inquiry .english 0 []).perform awaitedTurns
    c.terminal.phase = .exited false ∧ (∃ g, c.stop = some g ∧ g.run.asks = true) ∧
      c.record.watch.written = ["so"] ∧ c.lines = c.record.watch.written := by
  intro c
  have hevaluated : c.terminal.phase = .exited false ∧
      (c.stop.any fun g => g.run.asks) = true ∧ c.record.watch.written = ["so"] := by
    decide +kernel
  rcases hevaluated with ⟨hexited, hstop, hwritten⟩
  rcases (Option.any_eq_true _ _).mp hstop with ⟨g, hg, hasks⟩
  have hprints := prints_what_was_written inquiry .english 0 [] awaitedTurns
  exact ⟨hexited, ⟨g, hg, hasks⟩, hwritten, (hprints.2.2.2.1 g hg).2 hasks⟩

/-- The loop looks when nothing has been written, then the worker writes its line and comes to its
read, and the loop sees the prompt and the end of standard input. -/
def overtakenTurns : List Turn :=
  proceeding 5 ++ working 20 ++ .read :: proceeding 6 ++ working 10 ++ proceeding 20

def echoTurns : List Turn :=
  .read :: working 10 ++ proceeding 7 ++ working 40 ++ proceeding 20

/-- The loop has looked when the worker writes its line and comes to its read.  So the prompt is
printed before the line, and the line is lost with the run that is stopped.  A line that is printed
behind a prompt stands on the line of the prompt. -/
theorem prompt_overtakes_line :
    let asking := (start inquiry .english 0 []).perform (overtakenTurns.take 26)
    let overtaken := (start inquiry .english 0 []).perform overtakenTurns
    let prompted := (start Session.echo .english 0 ["Ada"]).perform (echoTurns.take 17)
    let joined := (start Session.echo .english 0 ["Ada"]).perform echoTurns
    (asking.terminal.phase = .prompting ∧ asking.record.watch.run.asks = true ∧
      asking.record.watch.written = ["so"] ∧ asking.glance.written = [] ∧ asking.pieces = []) ∧
    (overtaken.terminal.phase = .exited false ∧ overtaken.record.watch.written = ["so"] ∧
      overtaken.terminal.standardOutput = "s (String)> ") ∧
    (prompted.terminal.phase = .fetching ∧ prompted.record.watch.written = [] ∧
      prompted.terminal.standardOutput = "s (String)> ") ∧
    (joined.terminal.phase = .exited true ∧ joined.record.watch.written = ["Ada"] ∧
      joined.terminal.standardOutput = "s (String)> Ada\n") := by
  intro asking overtaken prompted joined
  have hasking : asking.terminal.phase = .prompting ∧ asking.record.watch.run.asks = true ∧
      asking.record.watch.written = ["so"] ∧ asking.glance.written = [] ∧ asking.pieces = [] := by
    decide +kernel
  have hovertaken : overtaken.terminal.phase = .exited false ∧
      overtaken.record.watch.written = ["so"] ∧
      overtaken.terminal.standardOutput = "s (String)> " := by
    decide +kernel
  have hprompted : prompted.terminal.phase = .fetching ∧ prompted.record.watch.written = [] ∧
      prompted.terminal.standardOutput = "s (String)> " := by
    decide +kernel
  have hjoined : joined.terminal.phase = .exited true ∧ joined.record.watch.written = ["Ada"] ∧
      joined.terminal.standardOutput = "s (String)> Ada\n" := by
    decide +kernel
  exact ⟨hasking, hovertaken, hprompted, hjoined⟩

end Conversation

end Blockwise
