import Blockwise.Proofs.Terminal.Exiting

/-!
# How a conversation goes on

The worker comes closer to the end of its program with each of its steps, unless it waits for a line
or rests, and nobody else takes it back.  The loop comes closer to handing over a line that is there
for a worker that waits, and to its own end once the worker has ended.
-/

namespace Blockwise

/-!
# The pace of the worker

A worker at work shows something, takes a line or comes closer to that with each step, and the pace
counts the steps.  One that waits for a line stays where it is.
-/

namespace Phase

def pace : Phase → Nat
  | entering => 6
  | arriving => 4
  | checking _ => 3
  | talking _ _ => 5
  | waiting _ .stops _ => 3
  | waiting _ .cancellation _ => 2
  | waiting _ .line _ => 1
  | answering _ _ => 6
  | publishing _ _ rest => 10 + rest.length
  | timing _ _ => 9
  | pacing _ _ _ => 8
  | holding _ _ => 7
  | held _ _ => 9
  | stepping _ _ => 8
  | leaving _ _ => 6
  | moving _ => 5
  | failing _ => 3
  | reporting _ => 2
  | quitting => 1
  | ended => 0

theorem pace_pos_iff (phase : Phase) : 0 < phase.pace ↔ phase.isEnded = false := by
  cases phase with
  | waiting step wait next => cases wait <;> simp [pace, isEnded]
  | _ => simp [pace, isEnded]

theorem isEnded_of_isRead {phase : Phase} (h : phase.isRead = true) : phase.isEnded = false := by
  cases phase <;> first | rfl | cases h

theorem pace_of_isRead {phase : Phase} (h : phase.isRead = true) : phase.pace < 4 := by
  cases phase with
  | waiting step wait next => cases wait <;> simp [pace]
  | _ => cases h

theorem pace_ofFault_le (fault : Fault) : (ofFault fault).pace ≤ 3 := by
  unfold ofFault
  split <;> simp [pace]

theorem isRead_ofChoice (successor : Successor) (value : Value) :
    (ofChoice successor value).isRead = false := by
  rcases ofChoice_cases successor value with ⟨_, h⟩ | ⟨_, h⟩ | h <;> rw [h] <;> rfl

theorem pace_ofChoice_le (successor : Successor) (value : Value) :
    (ofChoice successor value).pace ≤ 5 := by
  rcases ofChoice_cases successor value with ⟨_, h⟩ | ⟨_, h⟩ | h <;> rw [h] <;> simp [pace]

end Phase

namespace Engine

def pace (e : Engine) : Nat :=
  if e.asks then 4 else e.phase.pace

theorem pace_of_not_isRead {e : Engine} (h : e.phase.isRead = false) : e.pace = e.phase.pace := by
  simp [pace, asks, h]

theorem pace_pos_iff (e : Engine) : 0 < e.pace ↔ e.phase.isEnded = false := by
  unfold pace
  split
  · next hasks => simp [Phase.isEnded_of_isRead (asks_iff.mp hasks).1]
  · exact e.phase.pace_pos_iff

theorem pace_of_isRead {e : Engine} (h : e.phase.isRead = true) : e.pace ≤ 4 := by
  unfold pace
  split
  · exact Nat.le_refl _
  · exact Nat.le_of_lt (Phase.pace_of_isRead h)

variable {chance : Chance} {s : Signals} {e : Engine}

/-- How many things the worker has shown and how many lines it has taken between the two. -/
def gain (before after : Engine) : Nat :=
  (before.shown after).length + (before.answered after).length

theorem gain_of_wires {e' : Engine} (hwires : e'.wires = e.wires)
    (h : e.phase.isRead = true ∨ e' = e) : e.gain e' = 0 := by
  have hprogress : e.shown e' = (e.sent e').map .wrote := by
    unfold shown
    dsimp only
    split
    · next hbefore hafter =>
      rcases h with hread | rfl
      · rw [hbefore] at hread
        cases hread
      · cases hbefore.symm.trans hafter
    · next hbefore hafter =>
      rcases h with hread | rfl
      · rw [hbefore] at hread
        cases hread
      · cases hbefore.symm.trans hafter
    · rfl
  rw [gain, hprogress]
  simp [sent, answered, hwires]

theorem gain_talk_pos (chance : Chance) (s : Signals) {step : Step} {talk : Talk}
    (hphase : e.phase = .talking step talk) :
    0 < e.gain (e.talk chance s step talk).2 ∨ (e.talk chance s step talk).2.pace < 5 := by
  cases talk with
  | done result =>
      rcases result with ⟨value, store⟩
      cases value with
      | error fault =>
          right
          have hread := Phase.isRead_ofFault fault
          have hpace := Phase.pace_ofFault_le fault
          rw [show (e.talk chance s step (.done (.error fault, store))).2 = e.go (.ofFault fault)
            from rfl, pace_of_not_isRead hread]
          exact Nat.lt_of_le_of_lt hpace (by decide)
      | empty | number x | string b | boolean b =>
          left
          simp [gain, shown, Engine.talk, hphase]
  | write line next =>
      left
      simp [gain, shown, sent, Engine.talk]
  | read prompt next =>
      right
      exact Nat.lt_of_le_of_lt (pace_of_isRead rfl) (by decide)

theorem gain_wait_pos {step : Step} {wait : Wait} {next : Except Fault String → Talk}
    (hphase : e.phase = .waiting step wait next) (hcalm : s.cancelled = false)
    (hstops : e.wires.stops = 0) (hasks : e.asks = false) :
    0 < e.gain (e.wait s step next wait) ∨ (e.wait s step next wait).pace < e.pace := by
  have hpace : e.pace = (Phase.waiting step wait next).pace := by
    rw [pace, hasks, hphase]
    rfl
  have hinput : e.wires.input.isEmpty = false := by
    rw [asks, hphase] at hasks
    exact hasks
  cases wait with
  | stops =>
      right
      rw [hpace]
      simp [Engine.wait, hstops, pace, asks, go, hinput, Phase.pace]
  | cancellation =>
      right
      rw [hpace]
      simp [Engine.wait, hcalm, pace, asks, go, hinput, Phase.pace]
  | line =>
      left
      cases hreceive : e.wires.input.receive? with
      | none =>
          have hnil := Channel.toList_of_receive?_none hreceive
          cases hinput.symm.trans (Channel.isEmpty_iff.mpr hnil)
      | some received =>
          have hline := Channel.toList_of_receive? hreceive
          have hsteps : Steps (.inOrder true) s e s (e.wait s step next .line) [] :=
            steps_wait hphase
          have hanswered := hsteps.answered
          simp only [Engine.wait, hreceive] at hanswered ⊢
          have hlength := congrArg List.length hanswered
          rw [hline, List.length_append, List.length_cons] at hlength
          simp only [gain]
          omega

/-- A worker that is not stopped, paused or without a line shows something, takes a line or comes
closer to it, unless it rests. -/
theorem pace_step_lt (chance : Chance) (hcalm : s.cancelled = false) (hfree : s.paused = false)
    (hstops : e.wires.stops = 0) (hlive : e.phase.isEnded = false) (hasks : e.asks = false) :
    0 < e.gain (e.step chance s).2 ∨ (e.step chance s).2.pace < e.pace ∨
      chance.delayOver = false ∧ (e.step chance s).2 = e := by
  have hnext : ∀ before : Phase, ∀ e' : Engine, e.phase = before → before.isRead = false →
      e'.phase.isRead = false → e'.phase.pace < before.pace → e'.pace < e.pace := by
    intro before e' hbefore hread hread' hless
    rw [← hbefore] at hread hless
    rw [pace_of_not_isRead hread, pace_of_not_isRead hread']
    exact hless
  unfold Engine.step
  cases hphase : e.phase with
  | ended =>
      rw [hphase] at hlive
      cases hlive
  | talking step talk =>
      rcases gain_talk_pos chance s hphase with hgain | hpace
      · exact Or.inl hgain
      · right
        left
        rw [pace_of_not_isRead (e := e) (by rw [hphase]; rfl), hphase]
        exact hpace
  | waiting step wait next =>
      rcases gain_wait_pos hphase hcalm hstops hasks with hgain | hpace
      · exact Or.inl hgain
      · exact Or.inr (Or.inl hpace)
  | checking step =>
      left
      simp [hcalm, gain, shown, hphase, go]
  | arriving =>
      right
      left
      dsimp only
      split
      · exact hnext _ _ hphase rfl rfl (by simp [Phase.pace, go])
      · exact hnext _ _ hphase rfl rfl (by simp [Phase.pace, go])
  | pacing step value delay =>
      right
      simp only [hcalm, Bool.false_eq_true, if_false]
      split
      · left
        exact hnext _ _ hphase rfl rfl (by simp [Phase.pace, go])
      · next hwaits =>
        right
        simp only [Bool.or_eq_true, not_or, Bool.not_eq_true] at hwaits
        exact ⟨hwaits.2, rfl⟩
  | publishing step value rest =>
      right
      left
      cases rest with
      | nil => exact hnext _ _ hphase rfl rfl (by simp [Phase.pace, go])
      | cons update rest => exact hnext _ _ hphase rfl rfl (by simp [Phase.pace])
  | leaving step value =>
      right
      left
      simp only [hcalm, Bool.false_eq_true, if_false]
      have hpace := Phase.pace_ofChoice_le step.successor value
      exact hnext _ _ hphase rfl (Phase.isRead_ofChoice _ _)
        (Nat.lt_of_le_of_lt hpace (by simp [Phase.pace]))
  | holding step value | held step value =>
      right
      left
      simp only [hfree, hcalm, Bool.false_eq_true, if_false]
      exact hnext _ _ hphase rfl rfl (by simp [Phase.pace, go])
  | stepping step value =>
      right
      left
      dsimp only
      split
      · exact hnext _ _ hphase rfl rfl (by simp [Phase.pace, go])
      · exact hnext _ _ hphase rfl rfl (by simp [Phase.pace, go])
  | moving target | reporting fault =>
      right
      left
      exact hnext _ _ hphase rfl rfl (by simp [Phase.pace])
  | entering | answering _ _ | timing _ _ | failing _ | quitting =>
      right
      left
      exact hnext _ _ hphase rfl rfl (by simp [Phase.pace, go])

end Engine

/-!
# The pace of the loop

A pass over the channels has so many steps left, and one that has taken something is worth another
pass.  From there the loop goes on to hand over a line while the worker waits for one, and to its
end when there is no worker at work.
-/

namespace Run

def queued (r : Run) : Nat :=
  r.queuedLines.length + r.queuedFaults.length + r.queuedUpdates.length

variable (r : Run)

theorem queued_drainOutput : r.drainOutput.2.queued + r.drainOutput.1.length = r.queued := by
  cases hengine : r.engine with
  | none => simp [drainOutput, hengine]
  | some e =>
      have hlength := congrArg List.length (Channel.drain_append e.wires.output)
      rw [List.length_append] at hlength
      simp [queued, queuedLines, queuedFaults, queuedUpdates, drainOutput, hengine]
      omega

theorem queued_drainErrors : r.drainErrors.2.queued + r.drainErrors.1.length = r.queued := by
  cases hengine : r.engine with
  | none => simp [drainErrors, hengine]
  | some e =>
      have hlength := congrArg List.length (Channel.drain_append e.wires.errors)
      rw [List.length_append] at hlength
      simp [queued, queuedLines, queuedFaults, queuedUpdates, drainErrors, hengine]
      omega

theorem queued_drainUpdates : r.drainUpdates.2.queued + r.drainUpdates.1.length = r.queued := by
  cases hengine : r.engine with
  | none => simp [drainUpdates, hengine]
  | some e =>
      have hlength := congrArg List.length (Channel.drain_append e.wires.updates)
      rw [List.length_append] at hlength
      simp [queued, queuedLines, queuedFaults, queuedUpdates, drainUpdates, hengine]
      omega

theorem isLive_drainOutput : r.drainOutput.2.isLive = r.isLive := by
  rw [isLive, engine_drainOutput, Option.any_map]
  rfl

theorem isLive_drainErrors : r.drainErrors.2.isLive = r.isLive := by
  rw [isLive, engine_drainErrors, Option.any_map]
  rfl

theorem isLive_drainUpdates : r.drainUpdates.2.isLive = r.isLive := by
  rw [isLive, engine_drainUpdates, Option.any_map]
  rfl

end Run

namespace Pass

def size : Pass → Nat
  | takingLines => 0
  | takingFaults lines => lines.length
  | takingUpdates lines faults => lines.length + faults.length
  | showing lines faults updates => lines.length + faults.length + updates.length

/-- How many steps are left of a pass, counted so that one that has taken something is worth
another. -/
def toGo : Pass → Nat
  | takingLines => 5
  | takingFaults _ => 4
  | takingUpdates _ _ => 3
  | showing _ _ _ => 2

end Pass

def Terminal.Phase.toGo (live : Bool) : Terminal.Phase → Nat
  | exited _ => 0
  | closing => 4
  | flushing true => 8
  | looking => 9
  | flushing false => if live then 5 else 14
  | prompting => if live then 1 else 10
  | fetching => if live then 0 else 10

namespace Conversation

variable {c c' : Conversation} {turn : Turn} {chart : Chart} {program : Program} {delay : Nat}
  {input : List String} {ending : Ending}

def toGo (c : Conversation) : Nat :=
  5 * (c.record.watch.run.queued + c.pass.size) + c.pass.toGo +
    c.terminal.phase.toGo c.record.watch.run.isLive

structure Steady (chart : Chart) (delay : Nat) (input : List String) (c : Conversation) :
    Prop where
  kept : c.Kept delay
  fed : c.Fed chart delay input
  glanced : c.Glanced
  answers : c.Answers

theorem steady_perform (chart : Chart) (catalog : Catalog) (delay : Nat) (input : List String)
    (turns : List Turn) :
    ((start chart catalog delay input).perform turns).Steady chart delay input where
  kept := kept_perform chart catalog delay input turns
  fed := fed_perform chart catalog delay input turns
  glanced := glanced_perform chart catalog delay input turns
  answers := answers_perform chart catalog delay input turns

theorem Kept.prompt_of_ended (h : c.Kept delay) (hended : c.record.watch.run.isLive = false) :
    c.record.watch.run.prompt? = none := by
  rcases h.reachable with ⟨_, acts, hacts⟩
  rw [hacts] at hended ⊢
  exact Watch.prompt_of_ended _ acts hended

theorem toGo_lt_of_taken {r : Run} {taken : Nat} (hrun : c'.record.watch.run = r)
    (hphase : c'.terminal.phase = c.terminal.phase)
    (hqueued : r.queued + taken = c.record.watch.run.queued)
    (hlive : r.isLive = c.record.watch.run.isLive) (hsize : c'.pass.size = c.pass.size + taken)
    (hpass : c'.pass.toGo < c.pass.toGo) : c'.toGo < c.toGo := by
  rw [toGo, toGo, hrun, hphase, hlive, hsize]
  omega

/-- Each step of the loop brings it closer to where it goes, be it to hand over a line that is
there or to its end, unless it stops the run. -/
theorem Happens.toGo_lt (h : c.Happens .proceed c') (hc : c.Kept delay)
    (hfree : c.record.watch.duty = .free)
    (hwaits : c.record.watch.run.isLive = true →
      c.record.watch.run.asks = true ∧ c.terminal.lines.toList ≠ []) :
    c'.toGo < c.toGo ∨ (∃ success, c'.terminal.phase = .exited success) ∨
      c.record.watch.run.isLive = true ∧ c'.record.watch.run.asks = false ∨
        c.stop = none ∧ c'.stop ≠ none := by
  cases h with
  | rest hexited => exact Or.inr (Or.inl ⟨_, hexited⟩)
  | look hphase =>
      left
      rw [toGo, toGo, hphase, hc.run]
      cases c.record.watch.run.isLive <;> simp [Terminal.Phase.toGo]
  | takeLines _ hpass =>
      left
      have hrun := Watch.run_drainOutput hfree
      refine toGo_lt_of_taken hrun rfl c.record.watch.run.queued_drainOutput
        c.record.watch.run.isLive_drainOutput ?_ ?_
      · simp [hpass, Pass.size, hc.run]
      · simp [hpass, Pass.toGo]
  | takeFaults _ hpass =>
      left
      have hrun := Watch.run_drainErrors hfree
      refine toGo_lt_of_taken hrun rfl c.record.watch.run.queued_drainErrors
        c.record.watch.run.isLive_drainErrors ?_ ?_
      · simp [hpass, Pass.size, hc.run]
      · simp [hpass, Pass.toGo]
  | takeUpdates _ hpass =>
      left
      have hrun := Watch.run_drainUpdates hfree
      refine toGo_lt_of_taken hrun rfl c.record.watch.run.queued_drainUpdates
        c.record.watch.run.isLive_drainUpdates ?_ ?_
      · simp [hpass, Pass.size, hc.run]
      · simp [hpass, Pass.toGo]
  | @print lines faults updates _ _ hpass hsome =>
      left
      rw [toGo, toGo, hpass]
      simp only [Pass.size, Pass.toGo]
      omega
  | leave hphase hpass =>
      left
      rw [toGo, toGo, hpass]
      simp only [Pass.size, Pass.toGo, List.length_nil]
      cases hcase : c.terminal.phase with
      | flushing finished =>
          cases finished with
          | true => simp [Terminal.leave, hcase, Terminal.Phase.toGo]
          | false =>
              simp only [Terminal.leave, hcase, Terminal.Phase.toGo]
              cases c.record.watch.run.isLive <;> simp
      | closing => simp [Terminal.leave, hcase, Terminal.Phase.toGo]
      | _ =>
          rw [hcase] at hphase
          cases hphase
  | unprompted hphase hnone =>
      left
      rw [hc.run] at hnone
      cases hlive : c.record.watch.run.isLive with
      | true => exact absurd hnone (hc.prompt_of_asks (hwaits hlive).1)
      | false => simp [toGo, hphase, hlive, Terminal.Phase.toGo]
  | again hphase hsome _ | prompt hphase hsome _ =>
      left
      rw [hc.run] at hsome
      cases hlive : c.record.watch.run.isLive with
      | true => simp [toGo, hphase, hlive, Terminal.Phase.toGo]
      | false => cases (hc.prompt_of_ended hlive).symm.trans hsome
  | @hand line _ hphase _ _ =>
      cases hlive : c.record.watch.run.isLive with
      | true =>
          refine Or.inr (Or.inr (Or.inl ⟨rfl, ?_⟩))
          rcases Run.asks_iff.mp (hwaits hlive).1 with ⟨e, hengine, _⟩
          change (c.record.watch.step (.call (.submit line))).run.asks = false
          rw [Run.asks, Watch.engine_submit hfree hengine hlive line, Option.any_some]
          exact Engine.asks_sendLine e line
      | false =>
          left
          have hrun : (c.record.step (.call (.submit line))).watch.run = c.record.watch.run := by
            simp [Record.step, Watch.step, Watch.act, Watch.enter, hfree, Run.submit, hlive]
          change 5 * ((c.record.step _).watch.run.queued + c.pass.size) + c.pass.toGo +
            Terminal.Phase.looking.toGo (c.record.step _).watch.run.isLive < _
          rw [hrun, toGo, hphase, hlive]
          exact Nat.lt_succ_self _
  | stop hphase _ _ _ =>
      have hnone := (hc.stands.of_serving (by rw [hphase]; rfl) hfree).1
      exact Or.inr (Or.inr (Or.inr ⟨hnone, by simp⟩))
  | retry hphase _ hnil _ =>
      cases hlive : c.record.watch.run.isLive with
      | true => exact absurd hnil (hwaits hlive).2
      | false =>
          left
          rw [toGo, toGo, hphase]
          simp [back, hlive, Terminal.Phase.toGo]
  | stopping _ hbusy _ | stopped _ hbusy _ => exact absurd hfree hbusy

/-!
# How far the run has come

Progress counts the things that the worker has shown and the lines that it has taken.  The run shows
no more than the sequential run does, so there is an end to it.
-/

def progress (c : Conversation) : Nat :=
  c.session.shown.length + c.answered.length

def pace (c : Conversation) : Nat :=
  (c.record.watch.run.engine.map Engine.pace).getD 0

def Closer (c c' : Conversation) : Prop :=
  c.progress < c'.progress ∨ c'.progress = c.progress ∧ c'.pace < c.pace

/-- The run is as far as before. -/
structure Level (c c' : Conversation) : Prop where
  progress : c'.progress = c.progress
  pace : c'.pace = c.pace
  asks : c'.record.watch.run.asks = c.record.watch.run.asks

theorem Level.trans {c'' : Conversation} (h : Level c c') (h' : Level c' c'') : Level c c'' :=
  ⟨h'.progress.trans h.progress, h'.pace.trans h.pace, h'.asks.trans h.asks⟩

theorem Level.closer {c'' : Conversation} (h : Level c c') (h' : Closer c' c'') :
    Closer c c'' := by
  rw [Closer, h.progress, h.pace] at h'
  exact h'

theorem pace_pos_iff (c : Conversation) : 0 < c.pace ↔ c.record.watch.run.isLive = true := by
  cases hengine : c.record.watch.run.engine with
  | none => simp [pace, Run.isLive, hengine]
  | some e => simpa [pace, Run.isLive, hengine] using e.pace_pos_iff

theorem Level.isLive (h : Level c c') :
    c'.record.watch.run.isLive = c.record.watch.run.isLive := by
  rw [Bool.eq_iff_iff, ← pace_pos_iff, ← pace_pos_iff, h.pace]

theorem Level.of_engine {e e' : Engine} (hengine : c.record.watch.run.engine = some e)
    (hengine' : c'.record.watch.run.engine = some e') (hprogress : c'.progress = c.progress)
    (hpace : e'.pace = e.pace) (hasks : e'.asks = e.asks) : Level c c' := by
  refine ⟨hprogress, ?_, ?_⟩
  · simp [Conversation.pace, hengine, hengine', hpace]
  · simp [Run.asks, hengine, hengine', hasks]

theorem Steady.exists_engine (h : c.Steady chart delay input)
    (hbuild : Program.build chart = .ok program) (hnone : c.stop = none) :
    ∃ e, c.record.watch.run.engine = some e := by
  rcases h.fed.tracks hbuild with ⟨e, htracks⟩
  refine ⟨e, ?_⟩
  rw [← h.fed.run hnone]
  exact htracks.engine

theorem Steady.work (h : c.Steady chart delay input) (hnone : c.stop = none) {e : Engine}
    (hengine : c.record.watch.run.engine = some e) (chance : Chance) :
    let e' := (e.step chance c.record.watch.run.signals).2
    (c.work chance).record.watch.run.engine = some e' ∧
      (c.work chance).progress = c.progress + e.gain e' := by
  intro e'
  have hrun : c.terminal.run = c.record.watch.run := h.kept.run
  have hsession : c.session.run = c.record.watch.run := h.fed.run hnone
  have hwork : c.record.watch.run.work chance = { c.record.watch.run with
      signals := (e.step chance c.record.watch.run.signals).1, engine := some e' } := by
    simp [Run.work, hengine, e']
  have hanswered : (c.work chance).answered = c.answered ++ e.answered e' := by
    change c.answered ++ c.terminal.run.answeredBetween (c.terminal.run.work chance) = _
    rw [hrun, hwork]
    simp [Run.answeredBetween, hengine]
  have hshown : (c.work chance).session.shown = c.session.shown ++ e.shown e' := by
    simp [Conversation.work, onRun, hnone, Act.event?, Session.step, Session.shownBy,
      hsession, hwork, hengine]
  constructor
  · change (c.record.watch.run.work chance).engine = some e'
    rw [hwork]
  · rw [progress, hanswered, hshown, List.length_append, List.length_append, progress, Engine.gain]
    omega

theorem Steady.work_cases (h : c.Steady chart delay input)
    (hbuild : Program.build chart = .ok program) (hnone : c.stop = none) (chance : Chance) :
    Closer c (c.work chance) ∨ Level c (c.work chance) ∧
      (chance.delayOver = true → c.record.watch.run.isLive = true →
        c.record.watch.run.asks = true) := by
  rcases h.exists_engine hbuild hnone with ⟨e, hengine⟩
  rcases h.work hnone hengine chance with ⟨hengine', hprogress⟩
  have hcalm := (h.kept.stands.of_unstopped hnone).1.2
  have hstops := (h.kept.reachable.runs hcalm e hengine).stops
  have hsteps := e.steps_step chance c.record.watch.run.signals
  have hasks : c.record.watch.run.asks = e.asks := by simp [Run.asks, hengine]
  cases hcase : e.asks with
  | true =>
      rcases hsteps.asking hcalm hstops hcase with ⟨hasks', _, hwires, _⟩
      have hgain := Engine.gain_of_wires hwires (Or.inl (Engine.asks_iff.mp hcase).1)
      refine Or.inr ⟨Level.of_engine hengine hengine' ?_ ?_ ?_, fun _ _ => hasks.trans hcase⟩
      · rw [hprogress, hgain, Nat.add_zero]
      · simp [Engine.pace, hasks', hcase]
      · rw [hasks', hcase]
  | false =>
      have hstill : (e.step chance c.record.watch.run.signals).2 = e →
          Level c (c.work chance) := by
        intro hsame'
        rw [hsame'] at hengine' hprogress
        refine Level.of_engine hengine hengine' ?_ rfl rfl
        rw [hprogress, Engine.gain_of_wires rfl (Or.inr rfl), Nat.add_zero]
      cases hended : e.phase.isEnded with
      | true =>
          have hphase := Phase.eq_ended_of_isEnded hended
          refine Or.inr ⟨hstill (by simp [Engine.step, hphase]), ?_⟩
          intro _ hlive
          simp [Run.isLive, hengine, hended] at hlive
      | false =>
          rcases Engine.pace_step_lt chance hcalm h.kept.unpaused hstops hended hcase with
            hgain | hpace | ⟨hrests, hsame'⟩
          · left
            left
            rw [hprogress]
            omega
          · left
            have hless : (c.work chance).pace < c.pace := by
              simpa [Conversation.pace, hengine, hengine'] using hpace
            rw [Closer, hprogress]
            omega
          · refine Or.inr ⟨hstill hsame', ?_⟩
            intro hover
            cases hrests.symm.trans hover

theorem progress_onRun {a : Act} (ha : ∀ chance, a ≠ .work chance) :
    (c.onRun a).progress = c.progress := by
  have hshown : (c.onRun a).session.shown = c.session.shown := by
    unfold onRun
    dsimp only
    split
    · cases a with
      | work chance => exact absurd rfl (ha chance)
      | proceed => rfl
      | call call => cases call <;> rfl
    · rfl
  rw [progress, hshown]
  rfl

theorem Happens.level (h : c.Happens turn c') (hc : c.Steady chart delay input)
    (hbuild : Program.build chart = .ok program) (hnone : c.stop = none) (hnone' : c'.stop = none)
    (hturn : ∀ chance, turn ≠ .work chance) :
    Closer c c' ∨ Level c c' ∧ (c'.record.watch.run.asks = true → c.terminal.lines.toList ≠ [] →
      c'.terminal.lines.toList ≠ []) := by
  have hfree := (hc.kept.stands.of_unstopped hnone).2
  rcases hc.exists_engine hbuild hnone with ⟨e, hengine⟩
  have htake : ∀ a : Act, a.isQuiet = true → a.isWork = false →
      c'.record.watch = c.record.watch.step a → c'.progress = c.progress → Level c c' := by
    intro a hquiet hwork hrecord hprogress
    rcases Watch.engine_taken hquiet hwork hfree with ⟨_, f, hf, hdrained⟩
    rw [← hrecord, hengine, Option.map_some] at hdrained
    refine Level.of_engine hengine hdrained hprogress ?_ ?_
    · simp [Engine.pace, Engine.asks, hf]
    · simp [Engine.asks, hf]
  cases h with
  | work => exact absurd rfl (hturn _)
  | takeLines _ _ | takeFaults _ _ | takeUpdates _ _ =>
      exact Or.inr ⟨htake _ rfl rfl rfl (progress_onRun (by simp)), fun _ => id⟩
  | deliver _ =>
      refine Or.inr ⟨⟨rfl, rfl, rfl⟩, fun _ _ => ?_⟩
      simp [Terminal.deliver]
  | @hand line _ hphase _ _ =>
      have hprogress : (c.onRun (.call (.submit line))).progress = c.progress :=
        progress_onRun (by simp)
      cases hlive : c.record.watch.run.isLive with
      | false =>
          have hrun : (c.record.watch.step (.call (.submit line))).run = c.record.watch.run := by
            simp [Watch.step, Watch.act, Watch.enter, hfree, Run.submit, hlive]
          refine Or.inr ⟨Level.of_engine hengine ?_ hprogress rfl rfl, ?_⟩
          · exact (congrArg Run.engine hrun).trans hengine
          · intro hasks
            change (c.record.watch.step _).run.asks = true at hasks
            rw [hrun] at hasks
            cases (Run.isLive_of_asks hasks).symm.trans hlive
      | true =>
          have hengine' := Watch.engine_submit hfree hengine hlive line
          have hsilent := Engine.asks_sendLine e line
          cases hasks : e.asks with
          | true =>
              left
              right
              refine ⟨hprogress, ?_⟩
              have hread := (Engine.asks_iff.mp hasks).1
              have hless : (e.sendLine line).pace < e.pace := by
                rw [Engine.pace, Engine.pace, hasks, hsilent]
                exact Phase.pace_of_isRead hread
              change ((c.record.watch.step _).run.engine.map Engine.pace).getD 0 < c.pace
              rw [hengine', pace, hengine]
              exact hless
          | false =>
              refine Or.inr ⟨Level.of_engine hengine hengine' hprogress ?_ ?_, ?_⟩
              · rw [Engine.pace, Engine.pace, hasks, hsilent]
                rfl
              · rw [hasks, hsilent]
              · intro hasks'
                change (c.record.watch.step _).run.asks = true at hasks'
                rw [Run.asks, hengine', Option.any_some, hsilent] at hasks'
                cases hasks'
  | stop _ _ _ _ => cases hnone'
  | stopping _ hbusy _ | stopped _ hbusy _ => exact absurd hfree hbusy
  | _ => exact Or.inr ⟨⟨rfl, rfl, rfl⟩, fun _ => id⟩

theorem Steady.step_cases (h : c.Steady chart delay input)
    (hbuild : Program.build chart = .ok program) (hnone : c.stop = none)
    (hnone' : (c.step turn).stop = none) :
    Closer c (c.step turn) ∨ Level c (c.step turn) ∧
      ((c.step turn).record.watch.run.asks = true → c.terminal.lines.toList ≠ [] →
        (c.step turn).terminal.lines.toList ≠ []) := by
  by_cases hwork : ∃ chance, turn = .work chance
  · rcases hwork with ⟨chance, rfl⟩
    exact (h.work_cases hbuild hnone chance).imp id fun ⟨hlevel, _⟩ => ⟨hlevel, fun _ => id⟩
  · exact (happens_step c turn).level h hbuild hnone hnone' fun chance hturn =>
      hwork ⟨chance, hturn⟩

theorem Steady.toGo_work_of_asks (h : c.Steady chart delay input) (hnone : c.stop = none)
    (hasks : c.record.watch.run.asks = true) (chance : Chance) :
    (c.work chance).toGo = c.toGo := by
  rcases Run.asks_iff.mp hasks with ⟨e, hengine, hasks'⟩
  rcases h.work hnone hengine chance with ⟨hengine', _⟩
  have hcalm := (h.kept.stands.of_unstopped hnone).1.2
  have hstops := (h.kept.reachable.runs hcalm e hengine).stops
  have hsteps := e.steps_step chance c.record.watch.run.signals
  rcases hsteps.asking hcalm hstops hasks' with ⟨hasks'', _, hwires, _⟩
  have hlive := Phase.isEnded_of_isRead (Engine.asks_iff.mp hasks').1
  have hlive' := Phase.isEnded_of_isRead (Engine.asks_iff.mp hasks'').1
  have hqueued : (c.work chance).record.watch.run.queued = c.record.watch.run.queued := by
    simp [Run.queued, Run.queuedLines, Run.queuedFaults, Run.queuedUpdates, hengine, hengine',
      hwires]
  have hsame : (c.work chance).record.watch.run.isLive = c.record.watch.run.isLive := by
    simp [Run.isLive, hengine, hengine', hlive, hlive']
  rw [toGo, hqueued, hsame]
  rfl

theorem toGo_work_of_ended (hended : c.record.watch.run.isLive = false) (chance : Chance) :
    (c.work chance).toGo = c.toGo := by
  have hrun : (c.work chance).record.watch.run = c.record.watch.run := work_of_ended hended chance
  rw [toGo, hrun]
  rfl

theorem toGo_read (c : Conversation) : c.read.toGo = c.toGo := by
  unfold read
  split <;> rfl

/-- A run shows no more than the sequential run with all the lines does. -/
theorem Steady.progress_le (h : c.Steady chart delay input)
    (hbuild : Program.build chart = .ok program) {blocks : Nat}
    (hends : (program.reference input blocks).ending = some ending) :
    c.progress ≤ (program.reference input blocks).shown.length + input.length := by
  rcases h.fed.tracks hbuild with ⟨e, htracks⟩
  rcases htracks.reference with ⟨cost, hreference⟩
  have hall := hreference (c.terminal.lines.toList ++ c.unread) blocks
  rw [← List.append_assoc, show c.session.submitted ++ c.terminal.lines.toList ++ c.unread = input
    from h.fed.lines, Nat.add_comm cost blocks] at hall
  have hsame : program.reference input (blocks + cost) = program.reference input blocks :=
    Program.follow_add program blocks cost _ _ hends
  have hshown : c.session.shown.length ≤ (program.reference input blocks).shown.length := by
    rw [← hsame, hall, Account.after, List.length_append]
    exact Nat.le_add_right _ _
  have hanswered : c.answered.length ≤ input.length :=
    (h.answers.front.trans h.fed.handed).length_le
  exact Nat.add_le_add hshown hanswered

end Conversation

end Blockwise
