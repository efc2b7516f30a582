import Blockwise.Proofs.Run.Cancellation
import Blockwise.Proofs.Terminal.Conversation

/-!
# What holds throughout a conversation

The loop takes from the run in a pass only and prints what it has taken before it goes on.  It
stops the run only where it sees to a pending read, and then does nothing else until the worker
has ended; after that it only finishes.
-/

namespace Blockwise

/-!
# What takes no part in reads

Taking what a run has sent changes neither where its worker stands, nor the signals, nor the lines
that are on their way to it.
-/

theorem Channel.isEmpty_iff {α : Type} {c : Channel α} : c.isEmpty = true ↔ c.toList = [] := by
  simp [isEmpty, toList]

theorem Engine.asks_iff {e : Engine} :
    e.asks = true ↔ e.phase.isRead = true ∧ e.wires.input.toList = [] := by
  simp [asks, Channel.isEmpty_iff]

namespace Run

variable {r : Run}

theorem asks_iff : r.asks = true ↔ ∃ e, r.engine = some e ∧ e.asks = true := by
  simp [asks, Option.any_eq_true]

theorem isLive_of_asks (h : r.asks = true) : r.isLive = true := by
  rcases asks_iff.mp h with ⟨e, hengine, hasks⟩
  have hread := (Engine.asks_iff.mp hasks).1
  simp only [isLive, hengine, Option.any_some]
  cases hphase : e.phase <;> rw [hphase] at hread <;> first | rfl | cases hread

theorem engine_drainOutput (r : Run) :
    r.drainOutput.2.engine = r.engine.map fun e =>
      { e with wires := { e.wires with output := e.wires.output.drain.2 } } := by
  unfold drainOutput
  split
  · next hengine => simp [hengine]
  · next hengine => simp [hengine]

theorem engine_drainErrors (r : Run) :
    r.drainErrors.2.engine = r.engine.map fun e =>
      { e with wires := { e.wires with errors := e.wires.errors.drain.2 } } := by
  unfold drainErrors
  split
  · next hengine => simp [hengine]
  · next hengine => simp [hengine]

theorem engine_drainUpdates (r : Run) :
    r.drainUpdates.2.engine = r.engine.map fun e =>
      { e with wires := { e.wires with updates := e.wires.updates.drain.2 } } := by
  unfold drainUpdates
  split
  · next hengine => simp [hengine]
  · next hengine => simp [hengine]

@[simp] theorem signals_drainOutput (r : Run) : r.drainOutput.2.signals = r.signals := by
  unfold drainOutput
  split <;> rfl

@[simp] theorem signals_drainErrors (r : Run) : r.drainErrors.2.signals = r.signals := by
  unfold drainErrors
  split <;> rfl

@[simp] theorem signals_drainUpdates (r : Run) : r.drainUpdates.2.signals = r.signals := by
  unfold drainUpdates
  split <;> rfl

theorem asks_drainOutput (r : Run) : r.drainOutput.2.asks = r.asks := by
  rw [asks, engine_drainOutput, Option.any_map]
  rfl

theorem asks_drainErrors (r : Run) : r.drainErrors.2.asks = r.asks := by
  rw [asks, engine_drainErrors, Option.any_map]
  rfl

theorem asks_drainUpdates (r : Run) : r.drainUpdates.2.asks = r.asks := by
  rw [asks, engine_drainUpdates, Option.any_map]
  rfl

end Run

/-!
# Acts of the loop

The loop calls the run to take what it has sent, to hand over a line and to stop it, and never
pauses it.  How far it is with a stop shows in where it stands.
-/

namespace Watch

variable {w : Watch} {a : Act}

theorem run_drainOutput (hfree : w.duty = .free) :
    (w.step (.call .drainOutput)).run = w.run.drainOutput.2 := by
  simp [step, act, enter, hfree]

theorem run_drainErrors (hfree : w.duty = .free) :
    (w.step (.call .drainErrors)).run = w.run.drainErrors.2 := by
  simp [step, act, enter, hfree]

theorem run_drainUpdates (hfree : w.duty = .free) :
    (w.step (.call .drainUpdates)).run = w.run.drainUpdates.2 := by
  simp [step, act, enter, hfree]

theorem linesBy_of_ne (ha : a ≠ .call .drainOutput) : w.linesBy a = [] := by
  unfold linesBy
  split
  · exact absurd rfl ha
  · rfl

theorem engine_of_stop (hstop : w.duty.isStop = true) (hfree : (w.act .proceed).duty = .free) :
    (w.act .proceed).run.engine = none := by
  have hact := happens_act w .proceed
  generalize w.act .proceed = w' at hfree hact ⊢
  cases hact with
  | close _ _ => exact rfl
  | rest =>
      rw [hfree] at hstop
      cases hstop
  | set h | request h =>
      rw [h] at hstop
      cases hstop
  | drop _ | cancel _ | notify _ | release _ => cases hfree

theorem Happens.unpaused {w' : Watch} (h : Happens w a w')
    (hduty : w.duty = .free ∨ w.duty.isStop = true) (hw : w.run.signals.paused = false) :
    w'.run.signals.paused = false := by
  cases h with
  | work _ hsteps => exact hsteps.paused.trans hw
  | set hsetting =>
      rw [hsetting] at hduty
      rcases hduty with hfree | hstop
      · cases hfree
      · cases hstop
  | release _ => rfl
  | _ => exact hw

theorem duty_of_event (ha : a.event?.isSome = true) : (w.step a).duty = w.duty := by
  cases a with
  | work chance => rfl
  | proceed => cases ha
  | call call =>
      change (w.act (.call call)).duty = w.duty
      unfold act
      dsimp only
      split
      · cases call with
        | submit line | drainOutput | drainErrors | drainUpdates => rfl
        | _ => cases ha
      · rfl

end Watch

theorem Act.isStart_of_event {a : Act} (ha : a.event?.isSome = true) : a.isStart = false := by
  cases a with
  | call call =>
      cases call with
      | start chart => cases ha
      | _ => rfl
  | _ => rfl

namespace Conversation

variable {c c' : Conversation} {turn : Turn} {delay : Nat} {a : Act}

/-- How far the loop is with stopping the run. -/
inductive Stands (c : Conversation) : Prop where
  | unstopped : c.stop = none → c.record.watch.Unstopped → c.record.watch.duty = .free → Stands c
  | stopping : c.stop ≠ none → c.record.watch.duty.isStop = true →
      c.terminal.phase = .fetching → Stands c
  | stopped : c.stop ≠ none → c.record.watch.duty = .free → c.record.watch.run.engine = none →
      c.terminal.phase = .looking ∨ c.terminal.phase.isFinishing = true → Stands c

namespace Stands

theorem congr (h : c.Stands) (hstop : c'.stop = c.stop) (hrecord : c'.record = c.record)
    (hphase : c'.terminal.phase = c.terminal.phase) : c'.Stands := by
  cases h with
  | unstopped hnone hunstopped hfree =>
      exact unstopped (hstop.trans hnone) (by rwa [hrecord]) (by rwa [hrecord])
  | stopping hsome hduty hfetching =>
      exact stopping (by rwa [hstop]) (by rwa [hrecord]) (hphase.trans hfetching)
  | stopped hsome hfree hengine hlate =>
      exact stopped (by rwa [hstop]) (by rwa [hrecord]) (by rwa [hrecord]) (by rwa [hphase])

theorem act (h : c.Stands) (ha : a.event?.isSome = true) (hstop : c'.stop = c.stop)
    (hrecord : c'.record = c.record.step a) (hphase : c'.terminal.phase = c.terminal.phase) :
    c'.Stands := by
  have hduty : c'.record.watch.duty = c.record.watch.duty := by
    rw [hrecord]
    exact Watch.duty_of_event ha
  have hact := Watch.happens_act c.record.watch a
  cases h with
  | unstopped hnone hunstopped hfree =>
      refine unstopped (hstop.trans hnone) ?_ (hduty.trans hfree)
      rw [hrecord]
      apply hact.unstopped _ hunstopped
      intro hcall
      rw [hcall] at ha
      cases ha
  | stopping hsome hstopping hfetching =>
      exact stopping (by rwa [hstop]) (by rwa [hduty]) (hphase.trans hfetching)
  | stopped hsome hfree hengine hlate =>
      refine stopped (by rwa [hstop]) (hduty.trans hfree) ?_ (by rwa [hphase])
      rw [hrecord]
      exact hact.engine_of_none (Act.isStart_of_event ha) hengine

theorem free (h : c.Stands) (hphase : c.terminal.phase ≠ .fetching) :
    c.record.watch.duty = .free := by
  cases h with
  | unstopped _ _ hfree => exact hfree
  | stopping _ _ hfetching => exact absurd hfetching hphase
  | stopped _ hfree _ _ => exact hfree

theorem of_serving (h : c.Stands) (hphase : c.terminal.phase.isServing = true)
    (hfree : c.record.watch.duty = .free) : c.stop = none ∧ c.record.watch.Unstopped := by
  cases h with
  | unstopped hnone hunstopped _ => exact ⟨hnone, hunstopped⟩
  | stopping _ hstop _ =>
      rw [hfree] at hstop
      cases hstop
  | stopped _ _ _ hlate =>
      rcases hlate with hlooking | hfinishing
      · rw [hlooking] at hphase
        cases hphase
      · cases hcase : c.terminal.phase <;>
          simp [hcase, Terminal.Phase.isServing, Terminal.Phase.isFinishing] at hphase hfinishing

theorem of_unstopped (h : c.Stands) (hnone : c.stop = none) :
    c.record.watch.Unstopped ∧ c.record.watch.duty = .free := by
  cases h with
  | unstopped _ hunstopped hfree => exact ⟨hunstopped, hfree⟩
  | stopping hsome _ _ | stopped hsome _ _ _ => exact absurd hnone hsome

end Stands

/-- What holds of a conversation throughout. -/
structure Kept (delay : Nat) (c : Conversation) : Prop where
  run : c.terminal.run = c.record.watch.run
  record : ∃ acts, c.record = (Record.new delay).perform acts
  stands : c.Stands
  unpaused : c.record.watch.run.signals.paused = false
  pass : c.terminal.phase.isPrinting = false → c.pass = .takingLines
  printed : c.terminal.printed.toList = c.pieces.map Piece.text
  taken : c.lines ++ c.pass.lines?.getD [] = c.record.lines

theorem Happens.record (h : c.Happens turn c') :
    c'.record = c.record ∨ ∃ a : Act, a.isStart = false ∧ c'.record = c.record.step a := by
  cases h with
  | work | takeLines _ _ | takeFaults _ _ | takeUpdates _ _ | hand _ _ _ | stop _ _ _ _
  | stopping _ _ _ | stopped _ _ _ => exact Or.inr ⟨_, rfl, rfl⟩
  | _ => exact Or.inl rfl

theorem Happens.run (h : c.Happens turn c') (hrun : c.terminal.run = c.record.watch.run) :
    c'.terminal.run = c'.record.watch.run := by
  cases h <;> first | exact hrun | rfl

theorem phase_ne_of_isPrinting (h : c.terminal.phase.isPrinting = true) :
    c.terminal.phase ≠ .fetching := by
  intro hphase
  rw [hphase] at h
  cases h

theorem Happens.stands (h : c.Happens turn c') (hrun : c.terminal.run = c.record.watch.run)
    (hc : c.Stands) : c'.Stands := by
  cases h with
  | rest _ => exact hc
  | work => exact hc.act rfl rfl rfl rfl
  | takeLines _ _ | takeFaults _ _ | takeUpdates _ _ => exact hc.act rfl rfl rfl rfl
  | deliver _ | endInput _ | print _ _ _ => exact hc.congr rfl rfl rfl
  | look hphase =>
      cases hc with
      | unstopped hnone hunstopped hfree => exact Stands.unstopped hnone hunstopped hfree
      | stopping _ _ hfetching => cases hphase.symm.trans hfetching
      | stopped hsome hfree hengine _ =>
          refine Stands.stopped hsome hfree hengine (Or.inr ?_)
          have hended : c.terminal.run.isLive = false := by
            rw [hrun]
            simp [Run.isLive, hengine]
          simp [hended, Terminal.Phase.isFinishing]
  | leave hphase _ =>
      cases hc with
      | unstopped hnone hunstopped hfree => exact Stands.unstopped hnone hunstopped hfree
      | stopping _ _ hfetching => exact absurd hfetching (phase_ne_of_isPrinting hphase)
      | stopped hsome hfree hengine hlate =>
          refine Stands.stopped hsome hfree hengine (Or.inr ?_)
          rcases hlate with hlooking | hfinishing
          · rw [hlooking] at hphase
            cases hphase
          · cases hcase : c.terminal.phase with
            | flushing finished =>
                rw [hcase] at hfinishing
                cases finished with
                | true => simp [Terminal.leave, hcase, Terminal.Phase.isFinishing]
                | false => cases hfinishing
            | closing => simp [Terminal.leave, hcase, Terminal.Phase.isFinishing]
            | _ =>
                rw [hcase] at hphase
                cases hphase
  | unprompted hphase _ | again hphase _ _ | prompt hphase _ _ =>
      have hfree := hc.free (by simp [hphase])
      rcases hc.of_serving (by rw [hphase]; rfl) hfree with ⟨hnone, hunstopped⟩
      exact Stands.unstopped hnone hunstopped hfree
  | retry hphase hfree _ _ =>
      rcases hc.of_serving (by rw [hphase]; rfl) hfree with ⟨hnone, hunstopped⟩
      exact Stands.unstopped hnone hunstopped hfree
  | @hand line _ hphase hfree _ =>
      rcases hc.of_serving (by rw [hphase]; rfl) hfree with ⟨hnone, hunstopped⟩
      have hact := Watch.happens_act c.record.watch (.call (.submit line))
      refine Stands.unstopped hnone (hact.unstopped (by simp) hunstopped) ?_
      exact (Watch.duty_of_event rfl).trans hfree
  | stop hphase hfree _ _ =>
      refine Stands.stopping (by simp) ?_ hphase
      simp [onRun, Record.step, Watch.step, Watch.act, Watch.enter, hfree, Duty.isStop]
  | stopping hphase hbusy hstill =>
      cases hc with
      | unstopped _ _ hfree | stopped _ hfree _ _ => exact absurd hfree hbusy
      | stopping hsome hduty _ =>
          refine Stands.stopping hsome ?_ hphase
          rcases Watch.proceed_stop hduty with hfree | ⟨hstop, _⟩
          · exact absurd hfree hstill
          · exact hstop
  | stopped hphase hbusy hfree =>
      cases hc with
      | unstopped _ _ hfree | stopped _ hfree _ _ => exact absurd hfree hbusy
      | stopping hsome hduty _ =>
          exact Stands.stopped hsome hfree (Watch.engine_of_stop hduty hfree) (Or.inl rfl)

theorem Happens.pass (h : c.Happens turn c')
    (hc : c.terminal.phase.isPrinting = false → c.pass = .takingLines) :
    c'.terminal.phase.isPrinting = false → c'.pass = .takingLines := by
  cases h with
  | look _ => exact nofun
  | takeLines hphase _ | takeFaults hphase _ | takeUpdates hphase _ =>
      intro hnot
      cases hphase.symm.trans hnot
  | print _ _ _ | leave _ _ => exact fun _ => rfl
  | unprompted hphase _ | again hphase _ _ | prompt hphase _ _ | hand hphase _ _
  | retry hphase _ _ _ | stopped hphase _ _ =>
      intro _
      apply hc
      rw [hphase]
      rfl
  | _ => exact hc

theorem Happens.printed (h : c.Happens turn c')
    (hc : c.terminal.printed.toList = c.pieces.map Piece.text) :
    c'.terminal.printed.toList = c'.pieces.map Piece.text := by
  cases h with
  | print _ _ _ => simp [hc, Piece.text, Function.comp_def]
  | prompt _ _ _ => simp [hc, Piece.text]
  | _ => exact hc

theorem Happens.taken (h : c.Happens turn c') (hc : c.Kept delay) :
    c'.lines ++ c'.pass.lines?.getD [] = c'.record.lines := by
  have htaken := hc.taken
  cases h with
  | takeLines hphase hpass =>
      have hfree := hc.stands.free (phase_ne_of_isPrinting hphase)
      rw [hpass] at htaken
      change c.lines ++ c.terminal.run.drainOutput.1 =
        c.record.lines ++ c.record.watch.linesBy (.call .drainOutput)
      simp [← htaken, Pass.lines?, Watch.linesBy, hfree, hc.run]
  | takeFaults _ hpass | takeUpdates _ hpass =>
      rw [hpass] at htaken
      change c.lines ++ _ = c.record.lines ++ c.record.watch.linesBy _
      rw [Watch.linesBy_of_ne (by simp), List.append_nil]
      exact htaken
  | print _ hpass _ =>
      rw [hpass] at htaken
      rw [← htaken]
      simp [lines, Piece.line?, Pass.lines?, Function.comp_def]
  | leave _ hpass =>
      rw [hpass] at htaken
      exact htaken
  | prompt _ _ _ =>
      rw [← htaken]
      simp [lines, Piece.line?]
  | work | hand _ _ _ | stop _ _ _ _ | stopping _ _ _ | stopped _ _ _ =>
      change c.lines ++ c.pass.lines?.getD [] = c.record.lines ++ c.record.watch.linesBy _
      rw [Watch.linesBy_of_ne (by simp), List.append_nil]
      exact htaken
  | _ => exact htaken

theorem Stands.duty (h : c.Stands) :
    c.record.watch.duty = .free ∨ c.record.watch.duty.isStop = true := by
  cases h with
  | unstopped _ _ hfree | stopped _ hfree _ _ => exact Or.inl hfree
  | stopping _ hstop _ => exact Or.inr hstop

theorem Happens.unpaused (h : c.Happens turn c') (hc : c.Stands)
    (hunpaused : c.record.watch.run.signals.paused = false) :
    c'.record.watch.run.signals.paused = false := by
  rcases h.record with hsame | ⟨a, _, hstep⟩
  · rw [hsame]
    exact hunpaused
  · rw [hstep]
    exact (Watch.happens_act c.record.watch a).unpaused hc.duty hunpaused

theorem Kept.step (h : c.Kept delay) (turn : Turn) : (c.step turn).Kept delay := by
  have hhappens := c.happens_step turn
  refine ⟨hhappens.run h.run, ?_, hhappens.stands h.run h.stands,
    hhappens.unpaused h.stands h.unpaused, hhappens.pass h.pass, hhappens.printed h.printed,
    hhappens.taken h⟩
  rcases h.record with ⟨acts, hacts⟩
  rcases hhappens.record with hsame | ⟨a, _, hstep⟩
  · exact ⟨acts, hsame.trans hacts⟩
  · refine ⟨acts ++ [a], ?_⟩
    rw [hstep, hacts, Record.perform_concat]

theorem kept_start (chart : Chart) (catalog : Catalog) (delay : Nat) (input : List String) :
    (start chart catalog delay input).Kept delay where
  run := by simp [start, Terminal.start, Record.step, Watch.step, Watch.act, Watch.enter,
    Record.new, Watch.new]
  record := ⟨[.call (.start chart)], rfl⟩
  stands := by
    have hact := Watch.happens_act (Watch.new delay) (.call (.start chart))
    refine Stands.unstopped rfl (hact.unstopped (by simp) (Watch.unstopped_new delay)) ?_
    simp [start, Record.step, Watch.step, Watch.act, Watch.enter, Record.new, Watch.new]
  unpaused := by
    have hact := Watch.happens_act (Watch.new delay) (.call (.start chart))
    exact hact.unpaused (Or.inl rfl) rfl
  pass := fun _ => rfl
  printed := rfl
  taken := rfl

theorem kept_perform (chart : Chart) (catalog : Catalog) (delay : Nat) (input : List String)
    (turns : List Turn) : ((start chart catalog delay input).perform turns).Kept delay := by
  induction turns using List.reverseRecOn with
  | nil => exact kept_start chart catalog delay input
  | append_singleton turns turn ih =>
      rw [perform_concat]
      exact ih.step turn

theorem Kept.reachable (h : c.Kept delay) : c.record.watch.Reachable := by
  rcases h.record with ⟨acts, hacts⟩
  exact ⟨delay, acts, by rw [hacts, Record.watch_perform]; rfl⟩

theorem Kept.rest (h : c.Kept delay) (hunstopped : c.record.watch.Unstopped) :
    c.record.lines ++ c.record.watch.run.queuedLines = c.record.watch.written := by
  rcases h.record with ⟨acts, hacts⟩
  rw [hacts] at hunstopped ⊢
  exact (Record.rest_of_unstopped hunstopped).1

theorem Kept.lines_eq (h : c.Kept delay) (hpass : c.pass.lines?.getD [] = []) :
    c.lines = c.record.lines := by
  rw [← h.taken, hpass, List.append_nil]

theorem Kept.lines_of_not_printing (h : c.Kept delay)
    (hphase : c.terminal.phase.isPrinting = false) : c.lines = c.record.lines := by
  apply h.lines_eq
  rw [h.pass hphase]
  rfl

theorem Kept.written (h : c.Kept delay) : c.lines <+: c.record.watch.written := by
  rcases h.record with ⟨acts, hacts⟩
  have hdelivered := Record.delivered_perform delay acts
  rw [← hacts] at hdelivered
  have hfront : c.lines <+: c.record.lines := ⟨_, h.taken⟩
  exact hfront.trans hdelivered.lines

end Conversation

end Blockwise
