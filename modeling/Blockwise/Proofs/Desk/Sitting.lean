import Blockwise.Desk
import Blockwise.Proofs.Run.Ending

/-!
# Sittings at a desk

A desk in use, with its worker, under any order of what is done at the desk and of the steps of the
worker.  A frame is cut where it looks at the run or takes something from it, and so is a call that
controls the run, so that the worker may do anything in between.
-/

namespace Blockwise

/-- Where the desk stands in a frame, with what it has taken so far: the liveness that a frame began
with, none for a mere poll, then lines, faults and updates.  Nothing is shown before everything has
been taken. -/
inductive Errand where
  | free
  | takingLines (live : Option Bool)
  | takingFaults (live : Option Bool) (lines : List String)
  | takingUpdates (live : Option Bool) (lines : List String) (faults : List Fault)
  | showing (live : Option Bool) (lines : List String) (faults : List Fault)
      (updates : List (String × Value))

def Call.isStop : Call → Bool
  | .stop => true
  | _ => false

namespace Errand

def isFree : Errand → Bool
  | free => true
  | _ => false

def live? : Errand → Option Bool
  | free => none
  | takingLines live | takingFaults live _ | takingUpdates live _ _ | showing live _ _ _ => live

def lines? : Errand → Option (List String)
  | takingFaults _ lines | takingUpdates _ lines _ | showing _ lines _ _ => some lines
  | _ => none

def faults? : Errand → Option (List Fault)
  | takingUpdates _ _ faults | showing _ _ faults _ => some faults
  | _ => none

def updates? : Errand → Option (List (String × Value))
  | showing _ _ _ updates => some updates
  | _ => none

end Errand

/-!
# Turns

At the desk text is put into the input box, a run is started or controlled, a block is edited, and
frames and polls begin.  The worker may have its turn at any time, and the desk goes on with the
frame or the call that it is in.
-/

inductive Turn where
  | work (chance : Chance)
  | startRun
  | type (text : String)
  | submitInput
  | edit (id : BlockId) (content : String)
  | control (call : Call)
  | setDelay (delay : Nat)
  | frame
  | poll
  | proceed

/-- A desk in use, with the record of the run that was started last.  The answer is whether the last
frame asked for another one, until the desk is polled again or the run is started anew.  What was
wrong with the chart at the start is kept, and whether a stop was asked for since. -/
structure Sitting where
  desk : Desk
  record : Record
  errand : Errand
  answer : Option Bool
  refused : List BuildError
  stopped : Bool

namespace Sitting

def new (chart : Chart) (catalog : Catalog) (delay : Nat) : Sitting where
  desk := .new chart catalog delay
  record := .new delay
  errand := .free
  answer := none
  refused := []
  stopped := false

def isFree (s : Sitting) : Prop :=
  s.errand.isFree = true ∧ s.record.watch.duty = .free

instance (s : Sitting) : Decidable s.isFree :=
  inferInstanceAs (Decidable (_ ∧ _))

def onRun (s : Sitting) (a : Act) : Sitting :=
  let record := s.record.step a
  { s with record := record, desk := { s.desk with run := record.watch.run } }

def present (s : Sitting) (live : Option Bool) (lines : List String) (faults : List Fault)
    (updates : List (String × Value)) : Sitting :=
  let written := lines.map ConsoleLine.written
  let failed := faults.map fun f => ConsoleLine.failed (f.format s.desk.catalog)
  let came := !(lines.isEmpty && faults.isEmpty && updates.isEmpty)
  { s with
    desk := { s.desk with
      console := s.desk.console ++ (written ++ failed).toArray
      errorBlock := if faults.isEmpty then s.desk.errorBlock else s.desk.run.current?
      wasLive := live.getD s.desk.wasLive }
    errand := .free
    answer := live.map fun live => live || (s.desk.wasLive && !live) || came }

def proceed (s : Sitting) : Sitting :=
  match s.errand with
  | .free => s.onRun .proceed
  | .takingLines live =>
      { s.onRun (.call .drainOutput) with errand := .takingFaults live s.desk.run.drainOutput.1 }
  | .takingFaults live lines =>
      { s.onRun (.call .drainErrors) with
        errand := .takingUpdates live lines s.desk.run.drainErrors.1 }
  | .takingUpdates live lines faults =>
      { s.onRun (.call .drainUpdates) with
        errand := .showing live lines faults s.desk.run.drainUpdates.1 }
  | .showing live lines faults updates => s.present live lines faults updates

def begin (s : Sitting) : Turn → Sitting
  | .startRun =>
      { desk := s.desk.startRun
        record := (Record.new s.desk.delay).step (.call (.start s.desk.chart))
        errand := .free
        answer := none
        refused := ((Run.new s.desk.delay).start s.desk.chart).1
        stopped := false }
  | .type text => { s with desk := { s.desk with input := text } }
  | .submitInput =>
      { s.onRun (.call (.submit s.desk.input)) with desk := s.desk.submitInput }
  | .edit id content => { s with desk := s.desk.edit id content }
  | .control call =>
      if call.isControl then { s.onRun (.call call) with stopped := s.stopped || call.isStop }
      else s
  | .setDelay delay =>
      let after := s.onRun (.call (.setDelay delay))
      { after with desk := { after.desk with delay := delay } }
  | .frame => { s with errand := .takingLines (some s.desk.run.isLive), answer := none }
  | .poll => { s with errand := .takingLines none, answer := none }
  | .work _ | .proceed => s

def step (s : Sitting) : Turn → Sitting
  | .work chance => s.onRun (.work chance)
  | .proceed => s.proceed
  | turn => if s.isFree then s.begin turn else s

def perform (s : Sitting) (turns : List Turn) : Sitting :=
  turns.foldl step s

theorem perform_concat (s : Sitting) (turns : List Turn) (turn : Turn) :
    s.perform (turns ++ [turn]) = (s.perform turns).step turn := by
  simp [perform]

end Sitting

/-!
# Frames that nothing comes between

A frame that the worker does not come into is the desk's own, and so is a poll.
-/

namespace Sitting

variable {s : Sitting}

theorem perform_frame (hrun : s.desk.run = s.record.watch.run) (hfree : s.isFree) :
    let after := s.perform [.frame, .proceed, .proceed, .proceed, .proceed]
    after.desk = s.desk.needsRepaint.2 ∧ after.answer = some s.desk.needsRepaint.1 := by
  have hduty : s.record.watch.duty = .free := hfree.2
  simp [perform, step, begin, proceed, hfree, onRun, present, Record.step, Watch.step, Watch.act,
    Watch.enter, hduty, Desk.needsRepaint, Desk.poll, hrun]

theorem perform_poll (hrun : s.desk.run = s.record.watch.run) (hfree : s.isFree) :
    (s.perform [.poll, .proceed, .proceed, .proceed, .proceed]).desk = s.desk.poll.2 := by
  have hduty : s.record.watch.duty = .free := hfree.2
  simp [perform, step, begin, proceed, hfree, onRun, present, Record.step, Watch.step, Watch.act,
    Watch.enter, hduty, Desk.poll, hrun]

end Sitting

/-!
# What a turn can do

A turn does nothing to the run, or makes an act of it that takes nothing, or takes something in a
frame, or starts another run.  What the console shows of the run stays as it was unless a frame
shows what it has taken.
-/

namespace ConsoleLine

def written? : ConsoleLine → Option String
  | written s => some s
  | _ => none

def failed? : ConsoleLine → Option String
  | failed s => some s
  | _ => none

end ConsoleLine

namespace Desk

def shownLines (d : Desk) : List String :=
  d.console.toList.filterMap ConsoleLine.written?

def shownFailures (d : Desk) : List String :=
  d.console.toList.filterMap ConsoleLine.failed?

/-- The one desk shows the same of the run as the other, in the same words. -/
structure Keeps (d d' : Desk) : Prop where
  catalog : d'.catalog = d.catalog
  lines : d'.shownLines = d.shownLines
  failures : d'.shownFailures = d.shownFailures

theorem Keeps.rfl {d : Desk} : d.Keeps d :=
  ⟨Eq.refl _, Eq.refl _, Eq.refl _⟩

theorem exists_validate (d : Desk) (id : BlockId) :
    ∃ diagnostics, d.validate id = { d with diagnostics := diagnostics } := by
  unfold validate
  split <;> exact ⟨_, Eq.refl _⟩

theorem exists_validateEach (d : Desk) (ids : List BlockId) :
    ∃ diagnostics, ids.foldl validate d = { d with diagnostics := diagnostics } := by
  induction ids generalizing d with
  | nil => exact ⟨_, Eq.refl _⟩
  | cons id ids ih =>
      rcases d.exists_validate id with ⟨diagnostics, hvalidate⟩
      rw [List.foldl_cons, hvalidate]
      exact ih _

theorem exists_validateAll (d : Desk) :
    ∃ diagnostics, d.validateAll = { d with diagnostics := diagnostics } :=
  d.exists_validateEach d.chart.ids

theorem exists_edit (d : Desk) (id : BlockId) (content : String) :
    ∃ diagnostics, d.edit id content =
      { d with chart := d.chart.setContent id content, diagnostics := diagnostics } :=
  exists_validate { d with chart := d.chart.setContent id content } id

theorem keeps_submitInput (d : Desk) : d.Keeps d.submitInput := by
  refine ⟨Eq.refl _, ?_, ?_⟩
  · cases htaken : (d.run.submit d.input).1 <;>
      simp [submitInput, shownLines, ConsoleLine.written?, htaken]
  · cases htaken : (d.run.submit d.input).1 <;>
      simp [submitInput, shownFailures, ConsoleLine.failed?, htaken]

end Desk

namespace Sitting

inductive Happens (s : Sitting) : Sitting → Prop where
  | tidy {d : Desk} : d.run = s.desk.run → s.desk.Keeps d → Happens s { s with desk := d }
  | act {a : Act} {d : Desk} {stopped : Bool} : a.isPlain = true →
      (s.errand.isFree = false → ∃ chance, a = .work chance) →
      (stopped = false → s.stopped = false ∧ a ≠ .call .stop) →
      d.run = (s.record.step a).watch.run → s.desk.Keeps d →
      Happens s { s with desk := d, record := s.record.step a, stopped := stopped }
  | launch : Happens s (s.begin .startRun)
  | look {live : Option Bool} : s.isFree → (∀ b, live = some b → s.desk.run.isLive = b) →
      Happens s { s with errand := .takingLines live, answer := none }
  | takeLines {live : Option Bool} : s.errand = .takingLines live →
      Happens s
        { s.onRun (.call .drainOutput) with errand := .takingFaults live s.desk.run.drainOutput.1 }
  | takeFaults {live : Option Bool} {lines : List String} :
      s.errand = .takingFaults live lines →
      Happens s
        { s.onRun (.call .drainErrors) with
          errand := .takingUpdates live lines s.desk.run.drainErrors.1 }
  | takeUpdates {live : Option Bool} {lines : List String} {faults : List Fault} :
      s.errand = .takingUpdates live lines faults →
      Happens s
        { s.onRun (.call .drainUpdates) with
          errand := .showing live lines faults s.desk.run.drainUpdates.1 }
  | present {live : Option Bool} {lines : List String} {faults : List Fault}
      {updates : List (String × Value)} : s.errand = .showing live lines faults updates →
      Happens s (s.present live lines faults updates)

variable {s : Sitting}

theorem Happens.rest : s.Happens s :=
  Happens.tidy rfl Desk.Keeps.rfl

theorem happens_onRun {a : Act} (ha : a.isPlain = true)
    (hbusy : s.errand.isFree = false → ∃ chance, a = .work chance) (hstop : a ≠ .call .stop) :
    s.Happens (s.onRun a) :=
  Happens.act ha hbusy (fun h => ⟨h, hstop⟩) rfl ⟨rfl, rfl, rfl⟩

theorem happens_control (hfree : s.isFree) (call : Call) :
    s.Happens (s.begin (.control call)) := by
  simp only [begin]
  split
  · next hcontrol =>
    have hplain : (Act.call call).isPlain = true := by
      cases call <;> first | rfl | cases hcontrol
    refine Happens.act hplain ?_ ?_ rfl ⟨rfl, rfl, rfl⟩
    · intro hbusy
      cases hfree.1.symm.trans hbusy
    · intro hstopped
      rcases Bool.or_eq_false_iff.mp hstopped with ⟨hbefore, hcall⟩
      refine ⟨hbefore, ?_⟩
      rintro ⟨⟩
      cases hcall
  · exact Happens.rest

theorem happens_begin (hrun : s.desk.run = s.record.watch.run) (hfree : s.isFree)
    (turn : Turn) : s.Happens (s.begin turn) := by
  have hbusy : ∀ a : Act, s.errand.isFree = false → ∃ chance, a = .work chance := by
    intro a hbusy
    cases hfree.1.symm.trans hbusy
  cases turn with
  | startRun => exact Happens.launch
  | type text => exact Happens.tidy rfl ⟨rfl, rfl, rfl⟩
  | submitInput =>
      refine Happens.act rfl (hbusy _) ?_ ?_ s.desk.keeps_submitInput
      · intro hstopped
        exact ⟨hstopped, by simp⟩
      · have hduty : s.record.watch.duty = .free := hfree.2
        simp [Record.step, Watch.step, Watch.act, Watch.enter, hduty, Desk.submitInput, hrun]
  | edit id content =>
      rcases s.desk.exists_edit id content with ⟨diagnostics, hedit⟩
      simp only [begin, hedit]
      exact Happens.tidy rfl ⟨rfl, rfl, rfl⟩
  | control call => exact happens_control hfree call
  | setDelay delay =>
      refine Happens.act rfl (hbusy _) ?_ rfl ⟨rfl, rfl, rfl⟩
      intro hstopped
      exact ⟨hstopped, by simp⟩
  | frame =>
      refine Happens.look hfree ?_
      intro b hb
      exact Option.some.inj hb
  | poll =>
      refine Happens.look hfree ?_
      intro b hb
      cases hb
  | work _ | proceed => exact Happens.rest

theorem happens_proceed (s : Sitting) : s.Happens s.proceed := by
  unfold proceed
  cases herrand : s.errand with
  | free =>
      refine happens_onRun rfl ?_ nofun
      intro hbusy
      rw [herrand] at hbusy
      cases hbusy
  | takingLines live => exact Happens.takeLines herrand
  | takingFaults live lines => exact Happens.takeFaults herrand
  | takingUpdates live lines faults => exact Happens.takeUpdates herrand
  | showing live lines faults updates => exact Happens.present herrand

theorem happens_step (hrun : s.desk.run = s.record.watch.run) (turn : Turn) :
    s.Happens (s.step turn) := by
  have hbegin : s.Happens (if s.isFree then s.begin turn else s) := by
    split
    · next hfree => exact happens_begin hrun hfree turn
    · exact Happens.rest
  cases turn with
  | work chance => exact happens_onRun rfl (fun _ => ⟨chance, rfl⟩) nofun
  | proceed => exact happens_proceed s
  | _ => exact hbegin

end Sitting
end Blockwise
