import Blockwise.Proofs.Run.Ending
import Blockwise.Proofs.Run.Progress
import Blockwise.Proofs.Run.Reads
import Blockwise.Proofs.Run.Session
import Blockwise.Terminal

/-!
# Conversations in a terminal

A run in a terminal under any order of the steps of its worker, of the reader of standard input and
of the loop.  A pass of the loop over the channels is cut where it takes something from one, and a
stop as every call is, so that the others may do anything in between.
-/

namespace Blockwise

/-!
# Passes and pieces

A pass takes lines, then faults, then updates, and prints nothing before it has taken everything.
What it prints is a row of pieces: a line that the program wrote ends with a line feed, and the
prompt of a read does not.
-/

inductive Pass where
  | takingLines
  | takingFaults (lines : List String)
  | takingUpdates (lines : List String) (faults : List Fault)
  | showing (lines : List String) (faults : List Fault) (updates : List (String × Value))

namespace Pass

def lines? : Pass → Option (List String)
  | takingLines => none
  | takingFaults lines | takingUpdates lines _ | showing lines _ _ => some lines

end Pass

inductive Piece where
  | line (s : String)
  | prompt (s : String)
  deriving DecidableEq, Repr

namespace Piece

def text : Piece → String
  | line s => s ++ "\n"
  | prompt s => s ++ "> "

def line? : Piece → Option String
  | line s => some s
  | prompt _ => none

def prompt? : Piece → Option String
  | line _ => none
  | prompt s => some s

end Piece

/-!
# What the loop sees of the run

The worker asks while it waits for a line and none is on its way.  What a step of it adds to the
prompts that reads have come to and to the lines that they have taken shows in the worker before and
after the step.
-/

namespace Act

/-- The act as an event of a session, if it is one: no part of a stop is. -/
def event? : Act → Option Event
  | work chance => some (.work chance)
  | call (.submit line) => some (.submit line)
  | call .drainOutput => some .drainOutput
  | call .drainErrors => some .drainErrors
  | call .drainUpdates => some .drainUpdates
  | _ => none

end Act

namespace Engine

def asks (e : Engine) : Bool :=
  e.phase.isRead && e.wires.input.isEmpty

def asked (before after : Engine) : List String :=
  match before.phase, after.phase with
  | .talking _ (.read prompt _), .waiting _ _ _ => [prompt]
  | _, _ => []

def answered (before after : Engine) : List String :=
  before.wires.input.toList.take (before.wires.input.size - after.wires.input.size)

end Engine

namespace Run

def asks (r : Run) : Bool :=
  r.engine.any Engine.asks

def askedBetween (before after : Run) : List String :=
  match before.engine, after.engine with
  | some e, some e' => e.asked e'
  | _, _ => []

def answeredBetween (before after : Run) : List String :=
  match before.engine, after.engine with
  | some e, some e' => e.answered e'
  | _, _ => []

end Run

namespace Terminal

namespace Phase

def isPrinting : Phase → Bool
  | flushing _ | closing => true
  | _ => false

def isFinishing : Phase → Bool
  | flushing true | closing | exited _ => true
  | _ => false

def isServing : Phase → Bool
  | prompting | fetching => true
  | _ => false

end Phase

/-- Where the loop goes when a pass has found nothing. -/
def leave (t : Terminal) : Terminal :=
  { t with
    phase :=
      match t.phase with
      | .flushing finished => if finished then .closing else .prompting
      | .closing => .exited (t.run.state = .stopped .finished)
      | phase => phase }

end Terminal

/-!
# Conversations

A turn is a step of the worker, of the reader of standard input, which goes on to the next line or
to the end, or of the loop.  The loop stays in a pass until it has found nothing there, and in a
stop until the stop returns.
-/

inductive Conversation.Turn where
  | work (chance : Chance)
  | read
  | proceed

/-- A run in a terminal, with the lines that are left to fetch and what has been printed.  The
session follows the run as long as the loop has not stopped it; `asked` holds the prompts of the
reads that the worker has come to, and `answered` the lines that they have taken.  The glance is the
run as the loop last took lines from it, and `stop` the glance before the loop stopped the run.  The
loop is hasty once it has seen the prompt of a read that had a line already, be it that the line was
still on its way. -/
structure Conversation where
  terminal : Terminal
  unread : List String
  pass : Pass
  pieces : List Piece
  record : Record
  session : Session
  asked : List String
  answered : List String
  glance : Watch
  stop : Option Watch
  hasty : Bool

namespace Conversation

def start (chart : Chart) (catalog : Catalog) (delay : Nat) (input : List String) :
    Conversation :=
  let record := (Record.new delay).step (.call (.start chart))
  { terminal := .start chart catalog delay
    unread := input
    pass := .takingLines
    pieces := []
    record := record
    session := .start delay chart
    asked := []
    answered := []
    glance := record.watch
    stop := none
    hasty := false }

def lines (c : Conversation) : List String :=
  c.pieces.filterMap Piece.line?

def prompts (c : Conversation) : List String :=
  c.pieces.filterMap Piece.prompt?

def handed (c : Conversation) : List String :=
  c.session.submitted

def onRun (c : Conversation) (a : Act) : Conversation :=
  let record := c.record.step a
  { c with
    terminal := { c.terminal with run := record.watch.run }
    record := record
    session := if c.stop.isNone then a.event?.elim c.session c.session.step else c.session }

def work (c : Conversation) (chance : Chance) : Conversation :=
  let run := c.terminal.run
  { c.onRun (.work chance) with
    asked := c.asked ++ run.askedBetween (run.work chance)
    answered := c.answered ++ run.answeredBetween (run.work chance) }

def read (c : Conversation) : Conversation :=
  match c.unread with
  | line :: rest => { c with terminal := c.terminal.deliver line, unread := rest }
  | [] => { c with terminal := c.terminal.endInput }

def present (c : Conversation) (lines : List String) (faults : List Fault)
    (updates : List (String × Value)) : Conversation :=
  if lines.isEmpty && faults.isEmpty && updates.isEmpty then
    { c with terminal := c.terminal.leave, pass := .takingLines }
  else
    { c with
      terminal := { c.terminal with
        printed := c.terminal.printed ++ (lines.map (· ++ "\n")).toArray
        complaints := c.terminal.complaints ++
          (faults.map (Terminal.faultLine c.terminal.catalog c.terminal.run.current?)).toArray }
      pieces := c.pieces ++ lines.map .line
      pass := .takingLines }

def flush (c : Conversation) : Conversation :=
  match c.pass with
  | .takingLines =>
      { c.onRun (.call .drainOutput) with
        pass := .takingFaults c.terminal.run.drainOutput.1
        glance := c.record.watch }
  | .takingFaults lines =>
      { c.onRun (.call .drainErrors) with
        pass := .takingUpdates lines c.terminal.run.drainErrors.1 }
  | .takingUpdates lines faults =>
      { c.onRun (.call .drainUpdates) with
        pass := .showing lines faults c.terminal.run.drainUpdates.1 }
  | .showing lines faults updates => c.present lines faults updates

def prompt (c : Conversation) : Conversation :=
  match c.terminal.run.prompt? with
  | none => { c with terminal := { c.terminal with prompted := false, phase := .looking } }
  | some prompt =>
      let again := c.terminal.prompted
      { c with
        terminal := { c.terminal with
          printed :=
            if again then c.terminal.printed else c.terminal.printed.push (prompt ++ "> ")
          prompted := true
          phase := .fetching }
        pieces := if again then c.pieces else c.pieces ++ [.prompt prompt]
        hasty := c.hasty || !c.terminal.run.asks }

def back (c : Conversation) : Conversation :=
  { c with terminal := { c.terminal with phase := .looking } }

def fetch (c : Conversation) : Conversation :=
  if c.record.watch.duty = .free then
    match c.terminal.lines.receive? with
    | some (line, lines) =>
        let handed := c.onRun (.call (.submit line))
        { handed with
          terminal := { handed.terminal with
            lines := lines, prompted := false, phase := .looking } }
    | none =>
        if c.terminal.inputEnded then
          { c.onRun (.call .stop) with stop := some c.glance }
        else c.back
  else
    let after := c.onRun .proceed
    if after.record.watch.duty = .free then after.back else after

def proceed (c : Conversation) : Conversation :=
  match c.terminal.phase with
  | .looking =>
      { c with terminal := { c.terminal with phase := .flushing (!c.terminal.run.isLive) } }
  | .flushing _ | .closing => c.flush
  | .prompting => c.prompt
  | .fetching => c.fetch
  | .exited _ => c

def step (c : Conversation) : Turn → Conversation
  | .work chance => c.work chance
  | .read => c.read
  | .proceed => c.proceed

def perform (c : Conversation) (turns : List Turn) : Conversation :=
  turns.foldl step c

theorem perform_concat (c : Conversation) (turns : List Turn) (turn : Turn) :
    c.perform (turns ++ [turn]) = (c.perform turns).step turn := by
  simp [perform]

end Conversation

/-!
# Steps that nothing comes between

Between two turns the loop is in a call, in a pass, or at rest.  The turns of a call or a pass that
nobody comes between do together what the terminal does at once, so a terminal that is left to
itself goes through one of the orders of turns.
-/

namespace Conversation

variable {c : Conversation}

theorem perform_append (c : Conversation) (turns turns' : List Turn) :
    c.perform (turns ++ turns') = (c.perform turns).perform turns' := by
  simp [perform]

theorem perform_works (hrun : c.terminal.run = c.record.watch.run) (works : List Chance) :
    let w := c.record.watch.perform (works.map .work)
    (c.perform (works.map .work)).terminal = { c.terminal with run := w.run } ∧
      (c.perform (works.map .work)).record.watch = w ∧
      (c.perform (works.map .work)).pass = c.pass := by
  induction works generalizing c with
  | nil =>
      refine ⟨?_, rfl, rfl⟩
      change c.terminal = { c.terminal with run := c.record.watch.run }
      rw [← hrun]
  | cons chance works ih => exact @ih (c.work chance) rfl

structure AtRest (c : Conversation) : Prop where
  run : c.terminal.run = c.record.watch.run
  duty : c.record.watch.duty = .free
  pass : c.pass = .takingLines

/-- Some turns bring the conversation to rest where the terminal is as given. -/
def Reaches (c : Conversation) (t : Terminal) : Prop :=
  ∃ turns, (c.perform turns).AtRest ∧ (c.perform turns).terminal = t

theorem AtRest.reaches (h : c.AtRest) : c.Reaches c.terminal :=
  ⟨[], h, rfl⟩

theorem Reaches.trans {t t' : Terminal} (h : c.Reaches t)
    (hnext : ∀ turns, (c.perform turns).AtRest → (c.perform turns).terminal = t →
      (c.perform turns).Reaches t') : c.Reaches t' := by
  rcases h with ⟨turns, hrest, ht⟩
  rcases hnext turns hrest ht with ⟨turns', hrest', ht'⟩
  rw [← perform_append] at hrest' ht'
  exact ⟨turns ++ turns', hrest', ht'⟩

theorem AtRest.reaches_settle (h : c.AtRest) (o : Observer) :
    c.Reaches (c.terminal.settle o) := by
  rcases Watch.exists_settleFor o.waitsOut o.fuel c.terminal.run with ⟨works, hworks⟩
  rcases perform_works h.run works with ⟨hterminal, hwatch, hpass⟩
  rcases Watch.perform_works c.record.watch works with ⟨hsettled, hduty⟩
  refine ⟨works.map .work, ⟨?_, ?_, hpass.trans h.pass⟩, ?_⟩
  · rw [hterminal, hwatch]
  · rw [hwatch, hduty]
    exact h.duty
  · rw [hterminal, hsettled, ← h.run, ← hworks]
    rfl

theorem AtRest.reaches_pass (h : c.AtRest) (hphase : c.terminal.phase.isPrinting = true)
    (o : Observer) : c.Reaches (c.terminal.step o) := by
  have hstep : c.terminal.step o =
      if c.terminal.flush.1 then c.terminal.flush.2 else c.terminal.flush.2.leave := by
    unfold Terminal.step
    cases hcase : c.terminal.phase with
    | flushing _ | closing =>
        dsimp only
        split
        · next t hflush => simp [hflush]
        · next t hflush =>
            have hsame : t.phase = c.terminal.phase := by
              have hsecond := congrArg (fun r => r.2.phase) hflush
              exact hsecond.symm
            simp [hflush, Terminal.leave, hsame, hcase]
    | _ => simp [hcase, Terminal.Phase.isPrinting] at hphase
  rw [hstep]
  have hpass := h.pass
  have hduty := h.duty
  have hrun := h.run
  refine ⟨List.replicate 4 .proceed, ?_⟩
  cases hcase : c.terminal.phase with
  | flushing _ | closing =>
      simp only [perform, step, proceed, flush, hcase, hpass, hduty, onRun, present, Record.step,
        Watch.step, Watch.act, Watch.enter, hrun, Terminal.flush, List.replicate, List.foldl_cons,
        List.foldl_nil, Watch.run_note, Watch.duty_note, if_true]
      split
      · next hnone =>
          simp only [Bool.and_eq_true, List.isEmpty_iff] at hnone
          exact ⟨⟨rfl, rfl, rfl⟩, by simp [hnone]⟩
      · next hsome => exact ⟨⟨rfl, rfl, rfl⟩, by simp [hsome]⟩
  | _ => simp [hcase, Terminal.Phase.isPrinting] at hphase

theorem AtRest.reaches_stop (h : c.AtRest) (hphase : c.terminal.phase = .fetching)
    (hnone : c.terminal.lines.receive? = none) (hinput : c.terminal.inputEnded = true)
    (o : Observer) (hended : (c.terminal.run.cancel.settle o).isLive = false) :
    c.Reaches (c.terminal.step o) := by
  rcases Watch.exists_settleFor o.waitsOut o.fuel c.terminal.run.cancel with ⟨works, hworks⟩
  let joining := c.perform (List.replicate 4 .proceed)
  have hjoining : joining.terminal = { c.terminal with run := c.terminal.run.cancel } ∧
      joining.record.watch.run = c.terminal.run.cancel ∧
      joining.record.watch.duty = .joining c.terminal.run.earlierReason? ∧
      joining.pass = c.pass := by
    simp [joining, perform, step, proceed, fetch, hphase, h.duty, hnone, hinput, onRun,
      Record.step, Watch.step, Watch.act, Watch.enter, Watch.proceed, Watch.note, h.run,
      Run.setCancelled, Run.sendStop, Run.setPaused, Run.cancel, Run.withEngine]
  have hsame : joining.terminal.run = joining.record.watch.run := by
    rw [hjoining.1, hjoining.2.1]
  rcases perform_works hsame works with ⟨hterminal, hwatch, hpass⟩
  rcases Watch.perform_works joining.record.watch works with ⟨hsettled, hheld⟩
  have hsettle : c.terminal.run.cancel.settle o = works.foldl (fun r chance => r.work chance)
      c.terminal.run.cancel := hworks
  rw [hjoining.2.1, ← hsettle] at hsettled
  rw [hjoining.2.2.1] at hheld
  rw [← hwatch] at hsettled hheld
  rw [← hwatch, hsettled, hjoining.1] at hterminal
  rw [hjoining.2.2.2, h.pass] at hpass
  refine ⟨List.replicate 4 .proceed ++ works.map .work ++ [.proceed], ?_⟩
  rw [perform_concat, perform_append]
  change ((joining.perform (works.map .work)).step .proceed).AtRest ∧
    ((joining.perform (works.map .work)).step .proceed).terminal = _
  have hclosed : (joining.perform (works.map .work)).step .proceed =
      ((joining.perform (works.map .work)).onRun .proceed).back := by
    simp [step, proceed, fetch, hterminal, hphase, hheld, onRun, Record.step, Watch.step, Watch.act,
      Watch.proceed, hsettled, hended]
  rw [hclosed]
  refine ⟨⟨rfl, ?_, hpass⟩, ?_⟩
  · simp [back, onRun, Record.step, Watch.step, Watch.act, Watch.proceed, hheld, hsettled, hended]
  · simp [back, onRun, hterminal, hphase, hheld, Record.step, Watch.step, Watch.act, Watch.proceed,
      hsettled, hended, Terminal.step, Terminal.fetch, hnone, hinput, Run.stop]

theorem AtRest.reaches_step (h : c.AtRest) (o : Observer)
    (hended : c.terminal.phase = .fetching → (c.terminal.run.cancel.settle o).isLive = false) :
    c.Reaches (c.terminal.step o) := by
  cases hphase : c.terminal.phase with
  | looking =>
      refine ⟨[.proceed], ⟨?_, ?_, ?_⟩, ?_⟩ <;>
        simp [perform, step, proceed, Terminal.step, hphase, h.run, h.duty, h.pass]
  | flushing _ | closing =>
      apply h.reaches_pass
      rw [hphase]
      rfl
  | prompting =>
      have hturn : c.perform [.proceed] = c.prompt := by simp [perform, step, proceed, hphase]
      refine ⟨[.proceed], ?_⟩
      rw [hturn]
      unfold prompt
      cases hprompt : c.terminal.run.prompt? with
      | none => exact ⟨⟨h.run, h.duty, h.pass⟩, by simp [Terminal.step, hphase, hprompt]⟩
      | some p => exact ⟨⟨h.run, h.duty, h.pass⟩, by simp [Terminal.step, hphase, hprompt]⟩
  | fetching =>
      cases hreceive : c.terminal.lines.receive? with
      | some received =>
          refine ⟨[.proceed], ⟨?_, ?_, ?_⟩, ?_⟩ <;>
            simp [perform, step, proceed, fetch, hphase, h.duty, hreceive, onRun, Terminal.step,
              Terminal.fetch, Record.step, Watch.step, Watch.act, Watch.enter, h.run, h.pass]
      | none =>
          cases hinput : c.terminal.inputEnded with
          | true => exact h.reaches_stop hphase hreceive hinput o (hended hphase)
          | false =>
              refine ⟨[.proceed], ⟨?_, ?_, ?_⟩, ?_⟩ <;>
                simp [perform, step, proceed, fetch, hphase, h.duty, hreceive, hinput, back,
                  Terminal.step, Terminal.fetch, h.run, h.pass]
  | exited success =>
      refine ⟨[], h, ?_⟩
      simp [perform, Terminal.step, hphase]

/-- A terminal that is left to itself goes through one of the orders of turns, as long as every
stop lets the worker come to its end. -/
theorem AtRest.reaches_advanceFor (h : c.AtRest) (o : Observer) (fuel : Nat)
    (hended : ∀ n < fuel, ∀ t, t = (c.terminal.advanceFor o n).settle o → t.phase = .fetching →
      (t.run.cancel.settle o).isLive = false) :
    c.Reaches (c.terminal.advanceFor o fuel) := by
  induction fuel generalizing c with
  | zero => exact h.reaches
  | succ fuel ih =>
      have hsettled := h.reaches_settle o
      rw [Terminal.advanceFor]
      split
      · exact hsettled
      · next hmoving =>
        refine hsettled.trans ?_
        intro turns hrest hterminal
        have hstepped := hrest.reaches_step o fun hphase =>
          hended 0 (Nat.succ_pos fuel) _ hterminal hphase
        rw [hterminal] at hstepped
        refine hstepped.trans ?_
        intro turns' hrest' hterminal'
        rw [← hterminal']
        refine ih hrest' ?_
        intro n hn t ht
        rw [hterminal'] at ht
        refine hended (n + 1) (Nat.succ_lt_succ hn) t ?_
        rw [ht, Terminal.advanceFor, if_neg hmoving]

end Conversation

/-!
# What a turn can do

There is one case for each thing that the worker, the reader or the loop can do, with what it takes
to happen.
-/

theorem Channel.toList_of_receive?_none {α : Type} {c : Channel α} (h : c.receive? = none) :
    c.toList = [] := by
  rcases c with ⟨⟨queued⟩⟩
  cases queued with
  | nil => rfl
  | cons first rest => simp [Channel.receive?] at h

namespace Conversation

variable {c : Conversation}

inductive Happens (c : Conversation) : Turn → Conversation → Prop where
  | rest {success : Bool} : c.terminal.phase = .exited success → Happens c .proceed c
  | work {chance : Chance} : Happens c (.work chance) (c.work chance)
  | deliver {line : String} {rest : List String} : c.unread = line :: rest →
      Happens c .read { c with terminal := c.terminal.deliver line, unread := rest }
  | endInput : c.unread = [] → Happens c .read { c with terminal := c.terminal.endInput }
  | look : c.terminal.phase = .looking →
      Happens c .proceed
        { c with terminal := { c.terminal with phase := .flushing (!c.terminal.run.isLive) } }
  | takeLines : c.terminal.phase.isPrinting = true → c.pass = .takingLines →
      Happens c .proceed
        { c.onRun (.call .drainOutput) with
          pass := .takingFaults c.terminal.run.drainOutput.1
          glance := c.record.watch }
  | takeFaults {lines : List String} : c.terminal.phase.isPrinting = true →
      c.pass = .takingFaults lines →
      Happens c .proceed
        { c.onRun (.call .drainErrors) with
          pass := .takingUpdates lines c.terminal.run.drainErrors.1 }
  | takeUpdates {lines : List String} {faults : List Fault} :
      c.terminal.phase.isPrinting = true → c.pass = .takingUpdates lines faults →
      Happens c .proceed
        { c.onRun (.call .drainUpdates) with
          pass := .showing lines faults c.terminal.run.drainUpdates.1 }
  | print {lines : List String} {faults : List Fault} {updates : List (String × Value)}
      {complaints : Array String} :
      c.terminal.phase.isPrinting = true → c.pass = .showing lines faults updates →
      0 < lines.length + faults.length + updates.length →
      Happens c .proceed
        { c with
          terminal := { c.terminal with
            printed := c.terminal.printed ++ (lines.map (· ++ "\n")).toArray
            complaints := complaints }
          pieces := c.pieces ++ lines.map .line
          pass := .takingLines }
  | leave : c.terminal.phase.isPrinting = true → c.pass = .showing [] [] [] →
      Happens c .proceed { c with terminal := c.terminal.leave, pass := .takingLines }
  | unprompted : c.terminal.phase = .prompting → c.terminal.run.prompt? = none →
      Happens c .proceed
        { c with terminal := { c.terminal with prompted := false, phase := .looking } }
  | again {prompt : String} : c.terminal.phase = .prompting →
      c.terminal.run.prompt? = some prompt → c.terminal.prompted = true →
      Happens c .proceed
        { c with
          terminal := { c.terminal with prompted := true, phase := .fetching }
          hasty := c.hasty || !c.terminal.run.asks }
  | prompt {prompt : String} : c.terminal.phase = .prompting →
      c.terminal.run.prompt? = some prompt → c.terminal.prompted = false →
      Happens c .proceed
        { c with
          terminal := { c.terminal with
            printed := c.terminal.printed.push (prompt ++ "> ")
            prompted := true
            phase := .fetching }
          pieces := c.pieces ++ [.prompt prompt]
          hasty := c.hasty || !c.terminal.run.asks }
  | hand {line : String} {lines : Channel String} : c.terminal.phase = .fetching →
      c.record.watch.duty = .free → c.terminal.lines.toList = line :: lines.toList →
      Happens c .proceed
        { c.onRun (.call (.submit line)) with
          terminal := { (c.onRun (.call (.submit line))).terminal with
            lines := lines, prompted := false, phase := .looking } }
  | stop : c.terminal.phase = .fetching → c.record.watch.duty = .free →
      c.terminal.lines.toList = [] → c.terminal.inputEnded = true →
      Happens c .proceed { c.onRun (.call .stop) with stop := some c.glance }
  | retry : c.terminal.phase = .fetching → c.record.watch.duty = .free →
      c.terminal.lines.toList = [] → c.terminal.inputEnded = false → Happens c .proceed c.back
  | stopping : c.terminal.phase = .fetching → c.record.watch.duty ≠ .free →
      (c.record.watch.act .proceed).duty ≠ .free → Happens c .proceed (c.onRun .proceed)
  | stopped : c.terminal.phase = .fetching → c.record.watch.duty ≠ .free →
      (c.record.watch.act .proceed).duty = .free → Happens c .proceed (c.onRun .proceed).back

theorem happens_flush (hphase : c.terminal.phase.isPrinting = true) :
    c.Happens .proceed c.flush := by
  unfold flush
  cases hpass : c.pass with
  | takingLines => exact Happens.takeLines hphase hpass
  | takingFaults lines => exact Happens.takeFaults hphase hpass
  | takingUpdates lines faults => exact Happens.takeUpdates hphase hpass
  | showing lines faults updates =>
      dsimp only
      unfold present
      split
      · next hnone =>
          simp only [Bool.and_eq_true, List.isEmpty_iff] at hnone
          rcases hnone with ⟨⟨rfl, rfl⟩, rfl⟩
          exact Happens.leave hphase hpass
      · next hsome =>
        refine Happens.print hphase hpass ?_
        simp only [Bool.and_eq_true, List.isEmpty_iff, ← List.length_eq_zero_iff] at hsome
        omega

theorem happens_prompt (hphase : c.terminal.phase = .prompting) :
    c.Happens .proceed c.prompt := by
  unfold prompt
  cases hprompt : c.terminal.run.prompt? with
  | none => exact Happens.unprompted hphase hprompt
  | some prompt =>
      cases hprompted : c.terminal.prompted with
      | true => exact Happens.again hphase hprompt hprompted
      | false => exact Happens.prompt hphase hprompt hprompted

theorem happens_fetch (hphase : c.terminal.phase = .fetching) : c.Happens .proceed c.fetch := by
  unfold fetch
  split
  · next hfree =>
    cases hreceive : c.terminal.lines.receive? with
    | some received => exact Happens.hand hphase hfree (Channel.toList_of_receive? hreceive)
    | none =>
        dsimp only
        split
        · next hended =>
          exact Happens.stop hphase hfree (Channel.toList_of_receive?_none hreceive) hended
        · next hopen =>
          have hnil := Channel.toList_of_receive?_none hreceive
          exact Happens.retry hphase hfree hnil (Bool.eq_false_iff.mpr hopen)
  · next hbusy =>
    dsimp only
    split
    · next hfree => exact Happens.stopped hphase hbusy hfree
    · next hstill => exact Happens.stopping hphase hbusy hstill

theorem happens_step (c : Conversation) (turn : Turn) : c.Happens turn (c.step turn) := by
  cases turn with
  | work chance => exact Happens.work
  | read =>
      change c.Happens .read c.read
      unfold read
      split
      · next line rest hunread => exact Happens.deliver hunread
      · next hunread => exact Happens.endInput hunread
  | proceed =>
      change c.Happens .proceed c.proceed
      unfold proceed
      cases hphase : c.terminal.phase with
      | looking => exact Happens.look hphase
      | flushing _ | closing =>
          apply happens_flush
          rw [hphase]
          rfl
      | prompting => exact happens_prompt hphase
      | fetching => exact happens_fetch hphase
      | exited _ => exact Happens.rest hphase

end Conversation
end Blockwise
