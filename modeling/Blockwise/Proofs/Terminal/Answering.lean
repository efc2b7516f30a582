import Blockwise.Proofs.Terminal.Printing

/-!
# How reads are answered

The lines of standard input come to the reads in order.  As long as the loop sees no prompt of a
read that has its line already, it hands over a line only to a read that waits for one, so that each
read is prompted for once at most and the run is stopped only for want of a line.
-/

namespace Blockwise

/-!
# One step of the worker

A read has its prompt up from the step that comes to it on.  The worker takes the lines that are on
their way in order, and takes one only while it waits.
-/

namespace Phase

theorem isRead_ofFault (fault : Fault) : (ofFault fault).isRead = false := by
  unfold ofFault
  split <;> rfl

theorem isReading_of_isRead {phase : Phase} (h : phase.isRead = true) : phase.isReading = true := by
  unfold isRead at h
  split at h
  · rfl
  · cases h

end Phase

namespace Engine

variable {chance : Chance} {s s' : Signals} {e e' : Engine} {done : List Deed}

def Served (e : Engine) : Prop :=
  e.wires.input.toList = [] ∨ e.phase.isRead = true ∧ ∃ line, e.wires.input.toList = [line]

theorem Served.nil_of_isRead (h : e.Served) (hread : e.phase.isRead = false) :
    e.wires.input.toList = [] := by
  rcases h with hnil | ⟨hwait, _⟩
  · exact hnil
  · cases hread.symm.trans hwait

theorem Steps.answered (h : Steps chance s e s' e' done) :
    e.answered e' ++ e'.wires.input.toList = e.wires.input.toList := by
  unfold Engine.answered
  cases h with
  | @take _ _ _ line input _ hline =>
      have hsize : e.wires.input.size = input.size + 1 := by
        rw [Channel.size, ← Array.length_toList]
        exact congrArg List.length hline
      simp [hsize, hline]
  | _ => simp [go]

theorem Steps.of_isRead (h : Steps chance s e s' e' done) (hread : e'.phase.isRead = true) :
    e'.wires = e.wires ∧ (e.phase.isRead = true ∧ s'.prompt = s.prompt ∧ e.asked e' = [] ∨
      e.phase.isRead = false ∧ ∃ prompt, s'.prompt = some prompt ∧ e.asked e' = [prompt]) := by
  cases h with
  | ask htalk =>
      refine ⟨rfl, Or.inr ⟨by rw [htalk]; rfl, _, rfl, ?_⟩⟩
      simp [Engine.asked, htalk, go]
  | look hwait => exact ⟨rfl, Or.inl ⟨by rw [hwait]; rfl, rfl, by simp [Engine.asked, hwait]⟩⟩
  | fail _ => cases (Phase.isRead_ofFault _).symm.trans hread
  | doze hphase _ | rest hphase =>
      rw [hphase] at hread
      cases hread
  | _ => cases hread

theorem asked_of_not_isRead (h : e'.phase.isRead = false) : e.asked e' = [] := by
  unfold Engine.asked
  split
  · next hwait =>
    rw [hwait] at h
    cases h
  · rfl

theorem Steps.served (h : Steps chance s e s' e' done) (hcalm : s.cancelled = false)
    (hstops : e.wires.stops = 0) (he : e.Served) : e'.Served := by
  cases hread : e.phase.isRead with
  | false =>
      left
      have hanswered := h.answered
      rw [he.nil_of_isRead hread] at hanswered
      exact (List.append_eq_nil_iff.mp hanswered).2
  | true =>
      rcases h.reading hcalm hstops hread with ⟨hread', _, hwires, _⟩ | ⟨_, line, hline⟩
      · rw [Served, hwires, hread']
        rw [Served, hread] at he
        exact he
      · left
        rcases he with hnil | ⟨_, _, hone⟩
        · cases hnil.symm.trans hline
        · rw [hone, List.cons.injEq] at hline
          exact hline.2.symm

theorem Steps.asked (h : Steps chance s e s' e' done) (hcalm : s.cancelled = false)
    (hstops : e.wires.stops = 0) (he : e.Served) :
    (e.asks = true → e'.asks = true ∧ s'.prompt = s.prompt ∧ e.asked e' = []) ∧
      (e.asks = false → e.asked e' = if e'.asks then s'.prompt.toList else []) := by
  constructor
  · intro hasks
    rcases h.asking hcalm hstops hasks with ⟨hasks', rfl, _, _⟩
    refine ⟨hasks', rfl, ?_⟩
    rcases h.of_isRead (asks_iff.mp hasks').1 with ⟨_, ⟨_, _, hasked⟩ | ⟨hread, _⟩⟩
    · exact hasked
    · cases hread.symm.trans (asks_iff.mp hasks).1
  · intro hasks
    cases hread' : e'.phase.isRead with
    | false =>
        have hasks' : e'.asks = false := by simp [Engine.asks, hread']
        rw [asked_of_not_isRead hread', hasks']
        rfl
    | true =>
        rcases h.of_isRead hread' with ⟨hwires, ⟨hread, _, hasked⟩ | ⟨hread, prompt, hup, hasked⟩⟩
        · have hasks' : e'.asks = false := by
            rw [Engine.asks, hread] at hasks
            rw [Engine.asks, hread', hwires]
            exact hasks
          rw [hasked, hasks']
          rfl
        · have hasks' : e'.asks = true := by
            rw [asks_iff, hwires]
            exact ⟨hread', he.nil_of_isRead hread⟩
          rw [hasked, hasks', hup]
          rfl

end Engine

/-!
# The lines of standard input

Only the loop hands lines to the run, and only the worker takes them.  As long as the loop has not
stopped the run, what it does with it are events of a session, whose reference says how far the run
has come.
-/

def Engine.sendLine (e : Engine) (line : String) : Engine :=
  { e with wires := { e.wires with input := e.wires.input.send line } }

theorem Engine.asks_sendLine (e : Engine) (line : String) : (e.sendLine line).asks = false := by
  rw [Bool.eq_false_iff]
  intro hasks
  have hnil := (asks_iff.mp hasks).2
  rw [sendLine, Channel.toList_send] at hnil
  cases (List.append_eq_nil_iff.mp hnil).2

theorem Watch.engine_submit {w : Watch} {e : Engine} (hfree : w.duty = .free)
    (hengine : w.run.engine = some e) (hlive : w.run.isLive = true) (line : String) :
    (w.step (.call (.submit line))).run.engine = some (e.sendLine line) := by
  simp [step, act, enter, hfree, Run.submit, hlive, Run.withEngine, hengine, Engine.sendLine]

theorem Watch.input_proceed {w : Watch} {e' : Engine}
    (h : (w.step .proceed).run.engine = some e') :
    ∃ e, w.run.engine = some e ∧ e'.phase = e.phase ∧ e'.wires.input = e.wires.input := by
  change (w.act .proceed).run.engine = some e' at h
  have hact := happens_act w .proceed
  generalize w.act .proceed = w' at h hact
  cases hact with
  | notify _ =>
      rcases Run.exists_of_sendStop h with ⟨e, hengine, rfl⟩
      exact ⟨e, hengine, rfl, rfl⟩
  | close _ _ => cases h
  | rest | drop _ | set _ | request _ | cancel _ | release _ => exact ⟨e', h, rfl, rfl⟩

theorem Watch.engine_taken {w : Watch} {a : Act} (hquiet : a.isQuiet = true)
    (hwork : a.isWork = false) (hfree : w.duty = .free) :
    (w.step a).run.prompt? = w.run.prompt? ∧
      ∃ f : Wires → Wires, (∀ wires, (f wires).input = wires.input) ∧
        (w.step a).run.engine = w.run.engine.map fun e => { e with wires := f e.wires } := by
  cases a with
  | work _ => cases hwork
  | proceed => cases hquiet
  | call call =>
      cases call with
      | drainOutput =>
          rw [run_drainOutput hfree]
          exact ⟨congrArg Signals.prompt (Run.signals_drainOutput _),
            fun wires => { wires with output := wires.output.drain.2 }, fun _ => rfl,
            Run.engine_drainOutput _⟩
      | drainErrors =>
          rw [run_drainErrors hfree]
          exact ⟨congrArg Signals.prompt (Run.signals_drainErrors _),
            fun wires => { wires with errors := wires.errors.drain.2 }, fun _ => rfl,
            Run.engine_drainErrors _⟩
      | drainUpdates =>
          rw [run_drainUpdates hfree]
          exact ⟨congrArg Signals.prompt (Run.signals_drainUpdates _),
            fun wires => { wires with updates := wires.updates.drain.2 }, fun _ => rfl,
            Run.engine_drainUpdates _⟩
      | _ => cases hquiet

theorem Watch.input_taken {w : Watch} {a : Act} {e' : Engine} (hquiet : a.isQuiet = true)
    (hwork : a.isWork = false) (hfree : w.duty = .free)
    (h : (w.step a).run.engine = some e') :
    ∃ e, w.run.engine = some e ∧ e'.phase = e.phase ∧ e'.wires.input = e.wires.input := by
  rcases engine_taken hquiet hwork hfree with ⟨_, f, hf, hengine⟩
  rw [hengine] at h
  rcases Option.map_eq_some_iff.mp h with ⟨e, he, rfl⟩
  exact ⟨e, he, rfl, hf _⟩

theorem Watch.run_event {w : Watch} {a : Act} {event : Event} {s : Session}
    (ha : a.event? = some event) (hfree : w.duty = .free) (hrun : s.run = w.run) :
    (s.step event).run = (w.step a).run := by
  cases a with
  | work chance =>
      cases ha
      simp [Session.step, step, act, hrun]
  | proceed => cases ha
  | call call =>
      cases call with
      | submit line | drainOutput | drainErrors | drainUpdates =>
          cases ha
          simp [Session.step, step, act, enter, hfree, hrun]
      | _ => cases ha

namespace Act

def lines : Act → List String
  | call (.submit line) => [line]
  | _ => []

theorem submitted_event {a : Act} {event : Event} (ha : a.event? = some event) (s : Session) :
    (s.step event).submitted = s.submitted ++ a.lines := by
  cases a with
  | work chance =>
      cases ha
      exact (List.append_nil _).symm
  | proceed => cases ha
  | call call =>
      cases call with
      | submit line =>
          cases ha
          rfl
      | drainOutput | drainErrors | drainUpdates =>
          cases ha
          exact (List.append_nil _).symm
      | _ => cases ha

end Act

namespace Conversation

variable {c c' : Conversation} {turn : Turn} {chart : Chart} {delay : Nat} {input : List String}

/-- Where the lines of standard input are, and what the run has got of them. -/
structure Fed (chart : Chart) (delay : Nat) (input : List String) (c : Conversation) : Prop where
  lines : c.handed ++ c.terminal.lines.toList ++ c.unread = input
  ended : c.terminal.inputEnded = true → c.unread = []
  events : ∃ events, c.session = (Session.start delay chart).perform events
  run : c.stop = none → c.session.run = c.record.watch.run

theorem Fed.handed (h : c.Fed chart delay input) : c.handed <+: input := by
  rw [← h.lines, List.append_assoc]
  exact List.prefix_append _ _

theorem Fed.congr (h : c.Fed chart delay input) (hsession : c'.session = c.session)
    (hlines : c'.terminal.lines = c.terminal.lines) (hunread : c'.unread = c.unread)
    (hended : c'.terminal.inputEnded = c.terminal.inputEnded)
    (hrun : c'.stop = none → c.stop = none ∧ c'.record.watch.run = c.record.watch.run) :
    c'.Fed chart delay input := by
  refine ⟨?_, ?_, ?_, ?_⟩
  · rw [Conversation.handed, hsession, hlines, hunread]
    exact h.lines
  · rw [hended, hunread]
    exact h.ended
  · rw [hsession]
    exact h.events
  · intro hnone
    rcases hrun hnone with ⟨hnone', hsame⟩
    rw [hsession, hsame]
    exact h.run hnone'

theorem Fed.act (h : c.Fed chart delay input) (hkept : c.Kept delay) {a : Act} {event : Event}
    (ha : a.event? = some event) (hsession : c'.session = (c.onRun a).session)
    (hrecord : c'.record = (c.onRun a).record) (hstop : c'.stop = c.stop)
    (hlines : c.stop = none → c.terminal.lines.toList = a.lines ++ c'.terminal.lines.toList)
    (hstopped : c.stop ≠ none → c'.terminal.lines = c.terminal.lines)
    (hunread : c'.unread = c.unread) (hended : c'.terminal.inputEnded = c.terminal.inputEnded) :
    c'.Fed chart delay input := by
  have honRun : (c.onRun a).session =
      if c.stop.isNone then a.event?.elim c.session c.session.step else c.session := rfl
  cases hcase : c.stop with
  | some g =>
      have hsame : c'.session = c.session := by
        rw [hsession, honRun, hcase]
        rfl
      apply h.congr hsame (hstopped (by simp [hcase])) hunread hended
      intro hnone
      cases hcase.symm.trans (hstop.symm.trans hnone)
  | none =>
      have hstep : c'.session = c.session.step event := by
        rw [hsession, honRun, hcase, ha]
        rfl
      have hsubmitted := Act.submitted_event ha c.session
      refine ⟨?_, ?_, ?_, ?_⟩
      · rw [Conversation.handed, hstep, hsubmitted, hunread, List.append_assoc c.session.submitted,
          ← hlines hcase]
        exact h.lines
      · rw [hended, hunread]
        exact h.ended
      · rcases h.events with ⟨events, hevents⟩
        refine ⟨events ++ [event], ?_⟩
        rw [hstep, hevents]
        simp [Session.perform]
      · intro _
        rw [hstep, hrecord]
        exact Watch.run_event ha (hkept.stands.of_unstopped hcase).2 (h.run hcase)

theorem Happens.fed (h : c.Happens turn c') (hkept : c.Kept delay)
    (hc : c.Fed chart delay input) : c'.Fed chart delay input := by
  cases h with
  | rest _ => exact hc
  | work | takeLines _ _ | takeFaults _ _ | takeUpdates _ _ =>
      exact hc.act hkept rfl rfl rfl rfl (fun _ => rfl) (fun _ => rfl) rfl rfl
  | @deliver line rest hunread =>
      refine ⟨?_, ?_, hc.events, hc.run⟩
      · have hlines := hc.lines
        rw [hunread] at hlines
        simpa [Terminal.deliver, Conversation.handed] using hlines
      · intro hended
        cases hunread.symm.trans (hc.ended hended)
  | endInput hunread => exact ⟨hc.lines, fun _ => hunread, hc.events, hc.run⟩
  | look _ | print _ _ _ | leave _ _ | unprompted _ _ | again _ _ _ | prompt _ _ _
  | retry _ _ _ _ => exact hc.congr rfl rfl rfl rfl fun hnone => ⟨hnone, rfl⟩
  | hand hphase hfree hlines =>
      have hnone := (hkept.stands.of_serving (by rw [hphase]; rfl) hfree).1
      exact hc.act hkept rfl rfl rfl rfl (fun _ => hlines) (fun hsome => absurd hnone hsome) rfl rfl
  | stop hphase hfree _ _ =>
      have hnone := (hkept.stands.of_serving (by rw [hphase]; rfl) hfree).1
      have hsession : (c.onRun (.call .stop)).session = c.session := by
        simp [onRun, hnone, Act.event?]
      refine hc.congr ?_ rfl rfl rfl ?_
      · exact hsession
      · intro hnone'
        cases hnone'
  | stopping _ hbusy _ | stopped _ hbusy _ =>
      have hsession : (c.onRun .proceed).session = c.session := by
        simp [onRun, Act.event?]
      refine hc.congr ?_ rfl rfl rfl ?_
      · exact hsession
      · intro hnone
        exact absurd (hkept.stands.of_unstopped hnone).2 hbusy

theorem fed_start (chart : Chart) (catalog : Catalog) (delay : Nat) (input : List String) :
    (start chart catalog delay input).Fed chart delay input where
  lines := rfl
  ended := nofun
  events := ⟨[], rfl⟩
  run := by
    intro _
    simp [start, Session.start, Record.step, Watch.step, Watch.act, Watch.enter, Record.new,
      Watch.new]

theorem fed_perform (chart : Chart) (catalog : Catalog) (delay : Nat) (input : List String)
    (turns : List Turn) :
    ((start chart catalog delay input).perform turns).Fed chart delay input := by
  induction turns using List.reverseRecOn with
  | nil => exact fed_start chart catalog delay input
  | append_singleton turns turn ih =>
      rw [perform_concat]
      exact (happens_step _ turn).fed (kept_perform chart catalog delay input turns) ih

end Conversation

/-!
# Lines that are enough

If the worker waits for a line and all lines have been handed over, the sequential run with these
lines ends by an interrupted read.  So where the lines are enough, one of them is left for a worker
that waits.
-/

/-- The run of the program with the lines comes to the ending, and not for want of a line. -/
structure Program.Completes (program : Program) (lines : List String) (ending : Ending) : Prop where
  ends : ∃ blocks, (program.reference lines blocks).ending = some ending
  enough : ∀ fault, ending = .failed fault → fault.isInterruption = false

theorem Session.Tracks.interrupted {program : Program} {s : Session} {e : Engine}
    (h : s.Tracks program e) (hshort : e.StopsShort) (hasks : e.asks = true) :
    ∃ blocks, (program.reference s.submitted blocks).ending =
      some (.failed Cause.interrupted.fault) := by
  rcases Engine.asks_iff.mp hasks with ⟨hread, hinput⟩
  rcases h.reference with ⟨cost, hreference⟩
  have hcost := hreference [] 0
  rw [List.append_nil, List.append_nil, Nat.add_zero, hinput] at hcost
  have hphase := hshort.phase
  refine ⟨cost, ?_⟩
  rw [hcost]
  unfold Engine.remaining
  cases hcase : e.phase with
  | waiting step wait next =>
      rw [hcase] at hphase
      rcases hphase.1 Cause.interrupted.fault with ⟨store, hnext⟩
      simp only [Program.answerFrom, hnext, Program.attend_done, Program.conclude]
      rfl
  | _ =>
      rw [hcase] at hread
      cases hread

theorem Program.Completes.not_interrupted {program : Program} {lines : List String}
    {ending : Ending} (h : program.Completes lines ending) :
    ¬ ∃ blocks, (program.reference lines blocks).ending =
      some (.failed Cause.interrupted.fault) := by
  intro hinterrupted
  rcases h.ends with ⟨blocks, hends⟩
  have hsame := (Program.ends_iff hends).mp hinterrupted
  cases h.enough _ hsame.symm

namespace Conversation

variable {c c' : Conversation} {turn : Turn} {chart : Chart} {program : Program} {delay : Nat}
  {input : List String} {ending : Ending}

theorem engine_start (hbuild : Program.build chart = .ok program) (catalog : Catalog)
    (delay : Nat) (input : List String) :
    (start chart catalog delay input).record.watch.run.engine = some (.new program) := by
  simp [start, Record.step, Watch.step, Watch.act, Watch.enter, Record.new, Watch.new, Run.start,
    Run.new, hbuild]

theorem Fed.tracks (h : c.Fed chart delay input)
    (hbuild : Program.build chart = .ok program) : ∃ e, c.session.Tracks program e := by
  rcases h.events with ⟨events, hevents⟩
  rw [hevents]
  exact (Session.tracks_start hbuild delay).perform events

theorem Fed.exists_line (h : c.Fed chart delay input) (hkept : c.Kept delay)
    (hbuild : Program.build chart = .ok program) (hinput : program.Completes input ending)
    (hnone : c.stop = none) (hasks : c.record.watch.run.asks = true) :
    c.terminal.lines.toList ++ c.unread ≠ [] := by
  intro hnil
  rcases h.tracks hbuild with ⟨e, htracks⟩
  have hengine : c.record.watch.run.engine = some e := by
    rw [← h.run hnone]
    exact htracks.engine
  rcases Run.asks_iff.mp hasks with ⟨e', hengine', hasks'⟩
  cases hengine.symm.trans hengine'
  have hall : c.session.submitted = input := by
    rw [← h.lines, List.append_assoc, hnil, List.append_nil]
    rfl
  have hinterrupted := htracks.interrupted (hkept.stopsShort e hengine) hasks'
  rw [hall] at hinterrupted
  exact hinput.not_interrupted hinterrupted

theorem Fed.asks_of_none_left (h : c.Fed chart delay input) (hkept : c.Kept delay)
    (hbuild : Program.build chart = .ok program) (hinput : program.Completes input ending)
    (hnone : c.stop = none) (hlines : c.terminal.lines.toList = [])
    (hended : c.terminal.inputEnded = true) : c.record.watch.run.asks = false := by
  rw [Bool.eq_false_iff]
  intro hasks
  have hleft := h.exists_line hkept hbuild hinput hnone hasks
  rw [hlines, h.ended hended] at hleft
  exact hleft rfl

theorem handed_onRun (hstop : c.stop = none) {a : Act} {event : Event}
    (ha : a.event? = some event) : (c.onRun a).handed = c.handed ++ a.lines := by
  have hsubmitted := Act.submitted_event ha c.session
  simpa [onRun, handed, hstop, ha] using hsubmitted

theorem handed_onRun_of_lines {a : Act} (ha : a.lines = []) : (c.onRun a).handed = c.handed := by
  cases hstop : c.stop with
  | some g => simp [onRun, handed, hstop]
  | none =>
      cases hevent : a.event? with
      | none => simp [onRun, handed, hevent]
      | some event => rw [handed_onRun hstop hevent, ha, List.append_nil]

/-!
# The lines that reads have taken

They are the first that were handed over.  The others are on their way to the worker, unless it has
ended.
-/

structure Answers (c : Conversation) : Prop where
  front : c.answered <+: c.handed
  queue : ∀ e, c.record.watch.run.engine = some e → e.phase.isEnded = false →
    c.answered ++ e.wires.input.toList = c.handed

theorem Answers.congr (h : c.Answers) (hanswered : c'.answered = c.answered)
    (hhanded : c'.handed = c.handed)
    (hengine : ∀ e', c'.record.watch.run.engine = some e' →
      ∃ e, c.record.watch.run.engine = some e ∧ e'.phase = e.phase ∧
        e'.wires.input = e.wires.input) : c'.Answers := by
  refine ⟨?_, ?_⟩
  · rw [hanswered, hhanded]
    exact h.front
  · intro e' he' hlive
    rcases hengine e' he' with ⟨e, he, hphase, hinput⟩
    rw [hanswered, hhanded, hinput]
    exact h.queue e he (hphase ▸ hlive)

theorem Answers.work (h : c.Answers) (hrun : c.terminal.run = c.record.watch.run)
    (chance : Chance) : (c.work chance).Answers := by
  have hhanded : (c.work chance).handed = c.handed := handed_onRun_of_lines rfl
  cases hengine : c.record.watch.run.engine with
  | none =>
      have hsame : c.record.watch.run.work chance = c.record.watch.run := by
        simp [Run.work, hengine]
      refine h.congr ?_ hhanded ?_
      · change c.answered ++ c.terminal.run.answeredBetween _ = _
        simp [Run.answeredBetween, hrun, hengine]
      · intro e' he'
        change (c.record.watch.run.work chance).engine = some e' at he'
        rw [hsame] at he'
        exact ⟨e', he', rfl, rfl⟩
  | some e =>
      let e' := (e.step chance c.record.watch.run.signals).2
      have hsteps := e.steps_step chance c.record.watch.run.signals
      have hwork : (c.record.watch.run.work chance).engine = some e' := by
        simp [Run.work, hengine, e']
      have hanswered : (c.work chance).answered = c.answered ++ e.answered e' := by
        change c.answered ++ c.terminal.run.answeredBetween (c.terminal.run.work chance) = _
        rw [hrun, Run.answeredBetween, hengine, hwork]
      cases hended : e.phase.isEnded with
      | true =>
          have hrests := (hsteps.of_ended (Phase.eq_ended_of_isEnded hended)).2.1
          refine h.congr ?_ hhanded ?_
          · rw [hanswered, show e' = e from hrests]
            simp [Engine.answered]
          · intro e'' he''
            cases hwork.symm.trans he''
            exact ⟨e, hengine, congrArg Engine.phase hrests, by rw [show e' = e from hrests]⟩
      | false =>
          have hqueue : (c.work chance).answered ++ e'.wires.input.toList = c.handed := by
            rw [hanswered, List.append_assoc, hsteps.answered]
            exact h.queue e hengine hended
          rw [← hhanded] at hqueue
          refine ⟨⟨_, hqueue⟩, ?_⟩
          intro e'' he'' _
          cases hwork.symm.trans he''
          exact hqueue

theorem Answers.hand (h : c.Answers) (hfree : c.record.watch.duty = .free) {line : String}
    (hrecord : c'.record = c.record.step (.call (.submit line)))
    (hhanded : c'.handed = c.handed ++ [line]) (hanswered : c'.answered = c.answered) :
    c'.Answers := by
  refine ⟨?_, ?_⟩
  · rw [hanswered, hhanded]
    exact h.front.trans (List.prefix_append _ _)
  · intro e' he' hlive
    rw [hrecord] at he'
    change (c.record.watch.step _).run.engine = some e' at he'
    cases hcase : c.record.watch.run.isLive with
    | false =>
        have hsame : (c.record.watch.step (.call (.submit line))).run = c.record.watch.run := by
          simp [Watch.step, Watch.act, Watch.enter, hfree, Run.submit, hcase]
        rw [hsame] at he'
        rw [Run.ended_of_isLive he' hcase] at hlive
        cases hlive
    | true =>
        rcases (Option.any_eq_true _ _).mp hcase with ⟨e, hengine, hlive'⟩
        cases (Watch.engine_submit hfree hengine hcase line).symm.trans he'
        rw [hanswered, hhanded, Engine.sendLine, Channel.toList_send, ← List.append_assoc,
          h.queue e hengine (by simpa using hlive')]

theorem Happens.answers (h : c.Happens turn c') (hkept : c.Kept delay) (hc : c.Answers) :
    c'.Answers := by
  have hsame : ∀ e', c.record.watch.run.engine = some e' →
      ∃ e, c.record.watch.run.engine = some e ∧ e'.phase = e.phase ∧
        e'.wires.input = e.wires.input :=
    fun e' he' => ⟨e', he', rfl, rfl⟩
  cases h with
  | rest _ => exact hc
  | work => exact hc.work hkept.run _
  | takeLines hphase _ | takeFaults hphase _ | takeUpdates hphase _ =>
      have hfree := hkept.stands.free (phase_ne_of_isPrinting hphase)
      exact hc.congr rfl (handed_onRun_of_lines rfl) fun e' he' =>
        Watch.input_taken rfl rfl hfree he'
  | hand hphase hfree _ =>
      have hnone := (hkept.stands.of_serving (by rw [hphase]; rfl) hfree).1
      exact hc.hand hfree rfl (handed_onRun hnone rfl) rfl
  | stop _ hfree _ _ =>
      refine hc.congr rfl (handed_onRun_of_lines rfl) ?_
      have hrun : (c.record.watch.step (.call .stop)).run = c.record.watch.run := by
        simp [Watch.step, Watch.act, Watch.enter, hfree]
      change ∀ e', (c.record.watch.step (.call .stop)).run.engine = some e' → _
      rw [hrun]
      exact hsame
  | stopping _ _ _ | stopped _ _ _ =>
      exact hc.congr rfl (handed_onRun_of_lines rfl) fun e' he' => Watch.input_proceed he'
  | _ => exact hc.congr rfl rfl hsame

theorem answers_perform (chart : Chart) (catalog : Catalog) (delay : Nat) (input : List String)
    (turns : List Turn) : ((start chart catalog delay input).perform turns).Answers := by
  induction turns using List.reverseRecOn with
  | nil =>
      refine ⟨List.prefix_rfl, ?_⟩
      intro e he _
      cases hbuild : Program.build chart with
      | ok program =>
          have hengine := engine_start hbuild catalog delay input
          cases hengine.symm.trans he
          rfl
      | error errors =>
          simp [perform, start, Record.step, Watch.step, Watch.act, Watch.enter, Record.new,
            Watch.new, Run.start, Run.new, hbuild] at he
  | append_singleton turns turn ih =>
      rw [perform_concat]
      exact (happens_step _ turn).answers (kept_perform chart catalog delay input turns) ih

/-!
# Prompts

As long as the loop has seen no prompt of a read that had its line already, every prompt that it
prints belongs to a read that waits, and every line that it hands over is taken by that read.
-/

def owed (c : Conversation) : List String :=
  if c.record.watch.run.asks && !c.terminal.prompted then c.record.watch.run.prompt?.toList else []

/-- What holds as long as the loop has seen no prompt of a read that had its line already. -/
structure Polite (c : Conversation) : Prop where
  stop : c.stop = none
  served : ∀ e, c.record.watch.run.engine = some e →
    e.Served ∧ c.answered ++ e.wires.input.toList = c.handed
  prompted : c.terminal.prompted = true → c.record.watch.run.asks = true
  fetching : c.terminal.phase = .fetching → c.terminal.prompted = true
  asked : c.asked = c.prompts ++ c.owed

theorem Polite.congr (h : c.Polite) (hstop : c'.stop = c.stop) (hrecord : c'.record = c.record)
    (hanswered : c'.answered = c.answered) (hsession : c'.session = c.session)
    (hprompted : c'.terminal.prompted = c.terminal.prompted) (hasked : c'.asked = c.asked)
    (hprompts : c'.prompts = c.prompts)
    (hphase : c'.terminal.phase = .fetching → c.terminal.phase = .fetching) : c'.Polite := by
  refine ⟨hstop.trans h.stop, ?_, ?_, ?_, ?_⟩
  · rw [hrecord, hanswered, handed, hsession]
    exact h.served
  · rw [hrecord, hprompted]
    exact h.prompted
  · rw [hprompted]
    exact fun hfetching => h.fetching (hphase hfetching)
  · rw [hasked, hprompts, owed, hrecord, hprompted]
    exact h.asked

theorem Polite.take (h : c.Polite) (hfree : c.record.watch.duty = .free) {a : Act}
    (hrecord : c'.record = c.record.step a) (hquiet : a.isQuiet = true)
    (hwork : a.isWork = false) (hstop : c'.stop = c.stop)
    (hanswered : c'.answered = c.answered) (hhanded : c'.handed = c.handed)
    (hprompted : c'.terminal.prompted = c.terminal.prompted) (hasked : c'.asked = c.asked)
    (hprompts : c'.prompts = c.prompts)
    (hphase : c'.terminal.phase = .fetching → c.terminal.phase = .fetching) : c'.Polite := by
  have hwatch : c'.record.watch = c.record.watch.step a := by rw [hrecord]; rfl
  rcases Watch.engine_taken hquiet hwork hfree with ⟨hup, f, hf, hengine⟩
  rw [← hwatch] at hup hengine
  have hasks : c'.record.watch.run.asks = c.record.watch.run.asks := by
    rw [Run.asks, hengine, Option.any_map, Run.asks]
    congr 1
    funext e
    simp [Engine.asks, hf]
  refine ⟨hstop.trans h.stop, ?_, ?_, ?_, ?_⟩
  · intro e' he'
    rw [hengine] at he'
    rcases Option.map_eq_some_iff.mp he' with ⟨e, he, rfl⟩
    rw [hanswered, hhanded, Engine.Served, hf]
    exact h.served e he
  · rw [hasks, hprompted]
    exact h.prompted
  · rw [hprompted]
    exact fun hfetching => h.fetching (hphase hfetching)
  · rw [hasked, hprompts, owed, hasks, hprompted, hup]
    exact h.asked

theorem Polite.work (h : c.Polite) (hkept : c.Kept delay) {e : Engine}
    (hengine : c.record.watch.run.engine = some e) (chance : Chance) : (c.work chance).Polite := by
  let w := c.record.watch
  let s' := (e.step chance w.run.signals).1
  let e' := (e.step chance w.run.signals).2
  have hcalm := (hkept.stands.of_unstopped h.stop).1.2
  have hstops := (hkept.reachable.runs hcalm e hengine).stops
  have hsteps : e.Steps chance w.run.signals s' e' (e.deeds e') := e.steps_step chance _
  have hrun : (c.work chance).record.watch.run = { w.run with signals := s', engine := some e' } :=
    congrArg Watch.run (Watch.act_work hengine chance)
  have hwork : c.terminal.run.work chance = { w.run with signals := s', engine := some e' } := by
    rw [hkept.run]
    simp [Run.work, w, s', e', hengine]
  have hanswered : (c.work chance).answered = c.answered ++ e.answered e' := by
    change c.answered ++ c.terminal.run.answeredBetween (c.terminal.run.work chance) = _
    rw [hwork, hkept.run]
    simp [Run.answeredBetween, hengine]
  have hasked : (c.work chance).asked = c.asked ++ e.asked e' := by
    change c.asked ++ c.terminal.run.askedBetween (c.terminal.run.work chance) = _
    rw [hwork, hkept.run]
    simp [Run.askedBetween, hengine]
  have hhanded : (c.work chance).handed = c.handed :=
    (handed_onRun h.stop rfl).trans (List.append_nil _)
  have hasks : w.run.asks = e.asks := by simp [Run.asks, w, hengine]
  have hasks' : (c.work chance).record.watch.run.asks = e'.asks := by simp [Run.asks, hrun]
  have hup : (c.work chance).record.watch.run.prompt? = s'.prompt := by simp [Run.prompt?, hrun]
  rcases h.served e hengine with ⟨hserved, hqueue⟩
  rcases hsteps.asked hcalm hstops hserved with ⟨hstays, hcomes⟩
  refine ⟨h.stop, ?_, ?_, h.fetching, ?_⟩
  · intro e'' he''
    rw [hrun] at he''
    cases he''
    refine ⟨hsteps.served hcalm hstops hserved, ?_⟩
    rw [hanswered, hhanded, List.append_assoc, hsteps.answered]
    exact hqueue
  · intro hprompted
    rw [hasks']
    exact (hstays (hasks.symm.trans (h.prompted hprompted))).1
  · have howed := h.asked
    rw [hasked, howed, List.append_assoc]
    change c.prompts ++ _ = c.prompts ++ _
    congr 1
    change c.owed ++ e.asked e' = if _ && !c.terminal.prompted then _ else []
    rw [hasks', hup]
    cases hcase : e.asks with
    | true =>
        rcases hstays hcase with ⟨hasks'', hsame, hnone⟩
        rw [hnone, hasks'', hsame, List.append_nil, owed, show c.record.watch.run.asks = true from
          hasks.trans hcase]
        rfl
    | false =>
        have hasks'' : c.record.watch.run.asks = false := hasks.trans hcase
        have hprompted : c.terminal.prompted = false := by
          cases hprompted : c.terminal.prompted with
          | false => rfl
          | true => cases hasks''.symm.trans (h.prompted hprompted)
        rw [hcomes hcase, owed, hasks'', hprompted]
        simp

theorem Polite.hand (h : c.Polite) (hprompted : c.terminal.prompted = true)
    (hfree : c.record.watch.duty = .free) {line : String}
    (hrecord : c'.record = c.record.step (.call (.submit line)))
    (hsession : c'.session = (c.onRun (.call (.submit line))).session) (hstop : c'.stop = c.stop)
    (hanswered : c'.answered = c.answered) (hdone : c'.terminal.prompted = false)
    (hphase : c'.terminal.phase ≠ .fetching) (hasked : c'.asked = c.asked)
    (hprompts : c'.prompts = c.prompts) : c'.Polite := by
  have hasks := h.prompted hprompted
  rcases Run.asks_iff.mp hasks with ⟨e, hengine, hasks'⟩
  rcases Engine.asks_iff.mp hasks' with ⟨hread, hnil⟩
  have hengine' : c'.record.watch.run.engine = some (e.sendLine line) := by
    rw [hrecord]
    exact Watch.engine_submit hfree hengine (Run.isLive_of_asks hasks) line
  have hqueued : (e.sendLine line).wires.input.toList = [line] := by
    rw [Engine.sendLine, Channel.toList_send, hnil]
    rfl
  have hsilent : c'.record.watch.run.asks = false := by
    rw [Run.asks, hengine', Option.any_some]
    exact Engine.asks_sendLine e line
  have hhanded : c'.handed = c.handed ++ [line] := by
    rw [handed, hsession]
    exact handed_onRun h.stop rfl
  refine ⟨hstop.trans h.stop, ?_, ?_, fun hfetching => absurd hfetching hphase, ?_⟩
  · intro e' he'
    cases hengine'.symm.trans he'
    refine ⟨Or.inr ⟨hread, line, hqueued⟩, ?_⟩
    have hanswers := (h.served e hengine).2
    rw [hnil, List.append_nil] at hanswers
    rw [hanswered, hhanded, hqueued, hanswers]
  · intro hstill
    cases hdone.symm.trans hstill
  · have howed := h.asked
    rw [owed, hasks, hprompted] at howed
    rw [hasked, hprompts, howed, owed, hsilent]
    rfl

theorem Kept.prompt_of_asks (h : c.Kept delay) (hasks : c.record.watch.run.asks = true) :
    c.record.watch.run.prompt? ≠ none := by
  intro hnone
  have hprompts : c.record.watch.Prompts := by
    rcases h.reachable with ⟨_, acts, hacts⟩
    rw [hacts]
    exact Watch.prompts_perform _ acts
  rcases Run.asks_iff.mp hasks with ⟨e, he, hasks'⟩
  have hread := Phase.isReading_of_isRead (Engine.asks_iff.mp hasks').1
  have hsome := (hprompts e he).trans hread
  rw [show c.record.watch.run.signals.prompt = none from hnone] at hsome
  cases hsome

/-- Nothing but a stale prompt can make the loop stop a run that has lines enough. -/
theorem Happens.polite (h : c.Happens turn c') (hkept : c.Kept delay)
    (hfed : c.Fed chart delay input) (hbuild : Program.build chart = .ok program)
    (hinput : program.Completes input ending) (hc : c.Polite) (hhasty : c'.hasty = false) :
    c'.Polite := by
  rcases hfed.tracks hbuild with ⟨e, htracks⟩
  have hengine : c.record.watch.run.engine = some e := by
    rw [← hfed.run hc.stop]
    exact htracks.engine
  have hfree := (hkept.stands.of_unstopped hc.stop).2
  cases h with
  | rest _ => exact hc
  | work => exact hc.work hkept hengine _
  | deliver _ | endInput _ => exact hc.congr rfl rfl rfl rfl rfl rfl rfl id
  | look _ => exact hc.congr rfl rfl rfl rfl rfl rfl rfl nofun
  | retry _ _ _ _ => exact hc.congr rfl rfl rfl rfl rfl rfl rfl nofun
  | leave hphase _ =>
      refine hc.congr rfl rfl rfl rfl rfl rfl rfl ?_
      exact fun hfetching => absurd hfetching (leave_ne_fetching c.terminal hphase)
  | print _ _ _ =>
      refine hc.congr rfl rfl rfl rfl rfl rfl ?_ id
      simp [prompts, Piece.prompt?, Function.comp_def]
  | takeLines _ _ | takeFaults _ _ | takeUpdates _ _ =>
      exact hc.take hfree rfl rfl rfl rfl rfl (handed_onRun_of_lines rfl) rfl rfl rfl id
  | unprompted hphase hnone =>
      have hprompted : c.terminal.prompted = false := by
        cases hcase : c.terminal.prompted with
        | false => rfl
        | true =>
            rw [hkept.run] at hnone
            exact absurd hnone (hkept.prompt_of_asks (hc.prompted hcase))
      exact hc.congr rfl rfl rfl rfl hprompted.symm rfl rfl nofun
  | again hphase _ hprompted =>
      simp only [Bool.or_eq_false_iff, Bool.not_eq_false', hkept.run] at hhasty
      refine ⟨hc.stop, hc.served, fun _ => hhasty.2, fun _ => rfl, ?_⟩
      have howed := hc.asked
      rw [owed, hprompted] at howed
      exact howed
  | @prompt p hphase hsome hprompted =>
      simp only [Bool.or_eq_false_iff, Bool.not_eq_false', hkept.run] at hhasty
      rw [hkept.run] at hsome
      refine ⟨hc.stop, hc.served, fun _ => hhasty.2, fun _ => rfl, ?_⟩
      have howed := hc.asked
      rw [owed, hhasty.2, hprompted, hsome] at howed
      change c.asked = (c.pieces ++ [Piece.prompt p]).filterMap Piece.prompt? ++
        if c.record.watch.run.asks && !true then _ else []
      rw [howed, List.filterMap_append]
      simp [prompts, Piece.prompt?]
  | hand hphase hfree _ =>
      refine hc.hand (hc.fetching hphase) hfree rfl rfl rfl rfl rfl ?_ rfl rfl
      exact nofun
  | stop hphase hfree hlines hended =>
      have hasks := hc.prompted (hc.fetching hphase)
      have hsilent := hfed.asks_of_none_left hkept hbuild hinput hc.stop hlines hended
      cases hasks.symm.trans hsilent
  | stopping _ hbusy _ | stopped _ hbusy _ => exact absurd hfree hbusy

theorem start_ne_fetching (chart : Chart) (catalog : Catalog) (delay : Nat)
    (input : List String) : (start chart catalog delay input).terminal.phase ≠ .fetching := by
  intro hfetching
  unfold start Terminal.start at hfetching
  dsimp only at hfetching
  split at hfetching <;> cases hfetching

theorem polite_start (hbuild : Program.build chart = .ok program) (catalog : Catalog)
    (delay : Nat) (input : List String) : (start chart catalog delay input).Polite := by
  have hengine := engine_start hbuild catalog delay input
  have hsilent : (start chart catalog delay input).record.watch.run.asks = false := by
    simp [Run.asks, hengine, Engine.asks, Engine.new, Phase.isRead]
  refine ⟨rfl, ?_, ?_, ?_, ?_⟩
  · intro e he
    cases hengine.symm.trans he
    exact ⟨Or.inl rfl, rfl⟩
  · intro hprompted
    cases hprompted
  · exact fun hfetching => absurd hfetching (start_ne_fetching chart catalog delay input)
  · rw [owed, hsilent]
    rfl

theorem Happens.hasty (h : c.Happens turn c') (hhasty : c.hasty = true) : c'.hasty = true := by
  cases h with
  | again _ _ _ | prompt _ _ _ =>
      change (c.hasty || _) = true
      rw [hhasty]
      rfl
  | _ => exact hhasty

theorem polite_perform (hbuild : Program.build chart = .ok program) (catalog : Catalog)
    (delay : Nat) (hinput : program.Completes input ending) (turns : List Turn)
    (hhasty : ((start chart catalog delay input).perform turns).hasty = false) :
    ((start chart catalog delay input).perform turns).Polite := by
  induction turns using List.reverseRecOn with
  | nil => exact polite_start hbuild catalog delay input
  | append_singleton turns turn ih =>
      rw [perform_concat] at hhasty ⊢
      have hhappens := happens_step ((start chart catalog delay input).perform turns) turn
      have hkept := kept_perform chart catalog delay input turns
      have hfed := fed_perform chart catalog delay input turns
      have hbefore : ((start chart catalog delay input).perform turns).hasty = false := by
        rw [Bool.eq_false_iff]
        intro htrue
        cases (hhappens.hasty htrue).symm.trans hhasty
      exact hhappens.polite hkept hfed hbuild hinput (ih hbefore) hhasty

end Conversation

end Blockwise
