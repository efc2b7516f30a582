import Blockwise.Proofs.Desk.Sitting

/-!
# The last frame

A frame looks at the run before it takes anything.  If it finds no worker at work, nothing is sent
any more, so what it does not find in the channels is not on its way either.  A frame that asks for
no other one found nothing in any of them.
-/

namespace Blockwise

/-- The frame has everything that was sent on each channel that it found empty. -/
structure Errand.Covers (errand : Errand) (r : Record) : Prop where
  ended : r.watch.run.isLive = false
  lines : errand.lines? = some [] → r.lines = r.watch.written
  faults : errand.faults? = some [] → r.watch.reported = r.watch.reports
  updates : errand.updates? = some [] → r.updates = r.watch.updated

theorem Errand.Covers.take {errand errand' : Errand} {r r' : Record} (h : errand.Covers r)
    (hrests : r.Rests r')
    (hlines : errand'.lines? = some [] → errand.lines? = some [] ∨ r.lines = r.watch.written)
    (hfaults : errand'.faults? = some [] →
      errand.faults? = some [] ∨ r.watch.reported = r.watch.reports)
    (hupdates : errand'.updates? = some [] →
      errand.updates? = some [] ∨ r.updates = r.watch.updated) : errand'.Covers r' where
  ended := hrests.ended
  lines := fun hnone => hrests.lines ((hlines hnone).elim h.lines id)
  faults := fun hnone => hrests.faults ((hfaults hnone).elim h.faults id)
  updates := fun hnone => hrests.updates ((hupdates hnone).elim h.updates id)

namespace Sitting

variable {s s' : Sitting}

/-!
# The run of a desk

In a frame the desk is in no call of its run, and has not told yet whether it needs another frame.
A channel that is found empty has nothing that has not been taken.
-/

structure Synced (s : Sitting) : Prop where
  run : s.desk.run = s.record.watch.run
  record : ∃ delay acts, s.record = (Record.new delay).perform acts
  busy : s.errand.isFree = false → s.record.watch.duty = .free ∧ s.answer = none

theorem synced_new (chart : Chart) (catalog : Catalog) (delay : Nat) :
    (new chart catalog delay).Synced where
  run := by
    rw [new]
    rcases Desk.exists_validateAll _ with ⟨diagnostics, hnew⟩
    rw [Desk.new, hnew]
    rfl
  record := ⟨delay, [], rfl⟩
  busy := nofun

theorem Synced.exists_step (h : s.Synced) (a : Act) :
    ∃ delay acts, s.record.step a = (Record.new delay).perform acts := by
  rcases h.record with ⟨delay, acts, hrecord⟩
  refine ⟨delay, acts ++ [a], ?_⟩
  rw [Record.perform_concat, hrecord]

theorem Synced.of_drain (h : s.Synced) (hunstopped : s.record.watch.Unstopped) :
    (s.desk.run.drainOutput.1 = [] → s.record.lines = s.record.watch.written) ∧
    (s.desk.run.drainErrors.1 = [] → s.record.watch.reported = s.record.watch.reports) ∧
    (s.desk.run.drainUpdates.1 = [] → s.record.updates = s.record.watch.updated) := by
  rcases h.record with ⟨delay, acts, hrecord⟩
  rw [h.run]
  rw [hrecord] at hunstopped ⊢
  rcases Record.rest_of_unstopped hunstopped with ⟨hlines, hfaults, hupdates⟩
  refine ⟨?_, ?_, ?_⟩
  · intro hnone
    rw [← hlines, Run.queuedLines_of_drain hnone, List.append_nil]
  · intro hnone
    rw [← hfaults, Run.queuedFaults_of_drain hnone, List.append_nil]
  · intro hnone
    rw [← hupdates, Run.queuedUpdates_of_drain hnone, List.append_nil]

theorem Synced.rests (h : s.Synced) {a : Act} (ha : a.isStart = false)
    (hended : s.record.watch.run.isLive = false) : s.record.Rests (s.record.step a) := by
  rcases h.record with ⟨delay, acts, hrecord⟩
  rw [hrecord] at hended ⊢
  exact Record.rests_step hended ha

theorem Synced.onRun {a : Act} {errand : Errand} (h : s.Synced) (hbusy : s.errand.isFree = false)
    (hduty : s.record.watch.duty = .free → (s.record.watch.act a).duty = .free) :
    Synced { s.onRun a with errand := errand } where
  run := rfl
  record := h.exists_step a
  busy := fun _ => ⟨hduty (h.busy hbusy).1, (h.busy hbusy).2⟩

theorem Happens.synced (h : s.Happens s') (hs : s.Synced) : s'.Synced := by
  cases h with
  | tidy hrun _ => exact ⟨hrun.trans hs.run, hs.record, hs.busy⟩
  | act _ hwork _ hrun _ =>
      refine ⟨hrun, hs.exists_step _, ?_⟩
      intro hbusy
      rcases hwork hbusy with ⟨chance, rfl⟩
      exact hs.busy hbusy
  | launch =>
      refine ⟨rfl, ⟨s.desk.delay, [.call (.start s.desk.chart)], rfl⟩, ?_⟩
      intro hbusy
      cases hbusy
  | look hfree _ => exact ⟨hs.run, hs.record, fun _ => ⟨hfree.2, rfl⟩⟩
  | takeLines herrand | takeFaults herrand | takeUpdates herrand =>
      apply hs.onRun
      · rw [herrand]
        rfl
      · intro hduty
        simp [Watch.act, Watch.enter, hduty]
  | present _ =>
      refine ⟨hs.run, hs.record, ?_⟩
      intro hbusy
      cases hbusy

/-!
# What the console shows

What is taken in a frame shows at its end.  A run that is started shows nothing of the one before.
-/

def refusals (s : Sitting) : List String :=
  (s.refused.map (Desk.buildErrorLine s.desk.catalog)).filterMap ConsoleLine.failed?

/-- The console shows the lines and the faults that were taken from the run, but for those that
were taken in the frame that is going on. -/
structure Showing (s : Sitting) : Prop where
  lines : s.desk.shownLines ++ s.errand.lines?.getD [] = s.record.lines
  failures : s.desk.shownFailures ++ (s.errand.faults?.getD []).map (·.format s.desk.catalog) =
    s.refusals ++ s.record.watch.reported.map (·.format s.desk.catalog)

theorem showing_new (chart : Chart) (catalog : Catalog) (delay : Nat) :
    (new chart catalog delay).Showing := by
  rw [new]
  rcases Desk.exists_validateAll _ with ⟨diagnostics, hnew⟩
  rw [Desk.new, hnew]
  constructor
  · rfl
  · rfl

theorem showing_launch (s : Sitting) : (s.begin .startRun).Showing := by
  have hwritten : ∀ errors : List BuildError,
      (errors.map (Desk.buildErrorLine s.desk.catalog)).filterMap ConsoleLine.written? = [] := by
    intro errors
    rw [List.filterMap_eq_nil_iff]
    simp [Desk.buildErrorLine, ConsoleLine.written?]
  constructor
  · simp [begin, Desk.startRun, Desk.shownLines, hwritten, Errand.lines?, Record.step, Record.new,
      Watch.linesBy]
  · simp [begin, Desk.startRun, Desk.shownFailures, Errand.faults?, refusals, Record.step,
      Record.new, Watch.step, Watch.act, Watch.enter, Watch.new]

theorem Showing.onRun {a : Act} {errand : Errand} (hs : s.Showing) (taken : List Fault)
    (hlines : errand.lines?.getD [] = s.errand.lines?.getD [] ++ s.record.watch.linesBy a)
    (hreported : (s.record.watch.act a).reported = s.record.watch.reported ++ taken)
    (hfaults : errand.faults?.getD [] = s.errand.faults?.getD [] ++ taken) :
    Showing { s.onRun a with errand := errand } where
  lines := by
    change s.desk.shownLines ++ errand.lines?.getD [] =
      s.record.lines ++ s.record.watch.linesBy a
    rw [hlines, ← List.append_assoc, hs.lines]
  failures := by
    change s.desk.shownFailures ++ (errand.faults?.getD []).map (·.format s.desk.catalog) =
      s.refusals ++ (s.record.watch.act a).reported.map (·.format s.desk.catalog)
    rw [hfaults, hreported, List.map_append, List.map_append, ← List.append_assoc, hs.failures,
      List.append_assoc]

theorem shownLines_present (s : Sitting) (live : Option Bool) (lines : List String)
    (faults : List Fault) (updates : List (String × Value)) :
    (s.present live lines faults updates).desk.shownLines = s.desk.shownLines ++ lines := by
  simp [present, Desk.shownLines, ConsoleLine.written?, Function.comp_def]

theorem shownFailures_present (s : Sitting) (live : Option Bool) (lines : List String)
    (faults : List Fault) (updates : List (String × Value)) :
    (s.present live lines faults updates).desk.shownFailures =
      s.desk.shownFailures ++ faults.map (·.format s.desk.catalog) := by
  simp [present, Desk.shownFailures, ConsoleLine.failed?, Function.comp_def]

theorem Showing.present {live : Option Bool} {lines : List String} {faults : List Fault}
    {updates : List (String × Value)} (hs : s.Showing)
    (herrand : s.errand = .showing live lines faults updates) :
    (s.present live lines faults updates).Showing := by
  have hlines := hs.lines
  have hfailures := hs.failures
  rw [herrand] at hlines hfailures
  constructor
  · rw [shownLines_present]
    exact (List.append_nil _).trans hlines
  · rw [shownFailures_present]
    exact (List.append_nil _).trans hfailures

theorem Happens.showing (h : s.Happens s') (hsynced : s.Synced) (hs : s.Showing) : s'.Showing := by
  have hrun := hsynced.run
  cases h with
  | tidy _ hkeeps =>
      constructor
      · dsimp only
        rw [hkeeps.lines, hs.lines]
      · dsimp only [refusals]
        rw [hkeeps.failures, hkeeps.catalog]
        exact hs.failures
  | act hplain _ _ _ hkeeps =>
      constructor
      · simp only [Record.step, Watch.linesBy_of_isPlain hplain, List.append_nil]
        rw [hkeeps.lines, hs.lines]
      · simp only [Record.step, Watch.step, Watch.reported_note,
          Watch.reported_of_isPlain hplain, refusals]
        rw [hkeeps.failures, hkeeps.catalog]
        exact hs.failures
  | launch => exact showing_launch s
  | look hfree _ =>
      have herrand : s.errand = .free := by
        cases herrand : s.errand <;> first | rfl | simp [isFree, herrand, Errand.isFree] at hfree
      have hlines := hs.lines
      have hfailures := hs.failures
      rw [herrand] at hlines hfailures
      exact ⟨hlines, hfailures⟩
  | takeLines herrand =>
      have hfree := (hsynced.busy (by rw [herrand]; rfl)).1
      apply hs.onRun []
      · simp [Errand.lines?, herrand, Watch.linesBy, hfree, hrun]
      · simp [Watch.act, Watch.enter, hfree]
      · simp [Errand.faults?, herrand]
  | takeFaults herrand =>
      have hfree := (hsynced.busy (by rw [herrand]; rfl)).1
      apply hs.onRun s.record.watch.run.drainErrors.1
      · simp [Errand.lines?, herrand, Watch.linesBy]
      · simp [Watch.act, Watch.enter, hfree]
      · simp [Errand.faults?, herrand, hrun]
  | takeUpdates herrand =>
      have hfree := (hsynced.busy (by rw [herrand]; rfl)).1
      apply hs.onRun []
      · simp [Errand.lines?, herrand, Watch.linesBy]
      · simp [Watch.act, Watch.enter, hfree]
      · simp [Errand.faults?, herrand]
  | present herrand => exact hs.present herrand

/-!
# What the last frame knows

As long as no stop was asked for, a frame covers what it found empty, and one that asked for no
other one has covered everything.
-/

structure Closing (s : Sitting) : Prop where
  unstopped : s.stopped = false → s.record.watch.Unstopped
  covers : s.stopped = false → s.errand.live? = some false → s.errand.Covers s.record
  complete : s.stopped = false → s.answer = some false → s.record.Complete

theorem closing_new (chart : Chart) (catalog : Catalog) (delay : Nat) :
    (new chart catalog delay).Closing where
  unstopped := fun _ => Watch.unstopped_new delay
  covers := fun _ => nofun
  complete := fun _ => nofun

theorem closing_launch (s : Sitting) : (s.begin .startRun).Closing where
  unstopped := by
    intro _
    have hact := Watch.happens_act (.new s.desk.delay) (.call (.start s.desk.chart))
    exact hact.unstopped nofun (Watch.unstopped_new s.desk.delay)
  covers := fun _ => nofun
  complete := fun _ => nofun

theorem Closing.onRun {a : Act} {errand : Errand} (hs : s.Closing) (hsynced : s.Synced)
    (hstart : a.isStart = false) (hstop : a ≠ .call .stop)
    (hlive : errand.live? = s.errand.live?)
    (hcovers : s.record.watch.Unstopped → s.errand.Covers s.record →
      s.record.Rests (s.record.step a) → errand.Covers (s.record.step a)) :
    Closing { s.onRun a with errand := errand } where
  unstopped := by
    intro hstopped
    exact (Watch.happens_act _ a).unstopped hstop (hs.unstopped hstopped)
  covers := by
    intro hstopped hfalse
    have hbefore := hs.covers hstopped (hlive.symm.trans hfalse)
    exact hcovers (hs.unstopped hstopped) hbefore (hsynced.rests hstart hbefore.ended)
  complete := by
    intro hstopped hanswer
    have hcomplete := hs.complete hstopped hanswer
    exact hcomplete.rest (hsynced.rests hstart hcomplete.ended)

theorem Happens.closing (h : s.Happens s') (hsynced : s.Synced) (hs : s.Closing) :
    s'.Closing := by
  cases h with
  | tidy _ _ => exact ⟨hs.unstopped, hs.covers, hs.complete⟩
  | @act a _ _ hplain _ hstopped _ _ =>
      have hstart := Act.isStart_of_isPlain hplain
      constructor
      · intro h
        rcases hstopped h with ⟨hbefore, hstop⟩
        exact (Watch.happens_act _ a).unstopped hstop (hs.unstopped hbefore)
      · intro h hfalse
        have hcovers := hs.covers (hstopped h).1 hfalse
        exact hcovers.take (hsynced.rests hstart hcovers.ended) Or.inl Or.inl Or.inl
      · intro h hanswer
        have hcomplete := hs.complete (hstopped h).1 hanswer
        exact hcomplete.rest (hsynced.rests hstart hcomplete.ended)
  | launch => exact closing_launch s
  | look hfree hlive =>
      refine ⟨hs.unstopped, ?_, fun _ => nofun⟩
      intro _ hfalse
      refine ⟨?_, nofun, nofun, nofun⟩
      rw [← hsynced.run]
      exact hlive false hfalse
  | takeLines herrand =>
      refine hs.onRun hsynced rfl nofun (by rw [herrand]; rfl) ?_
      intro hunstopped hcovers hrests
      refine hcovers.take hrests ?_ nofun nofun
      intro hnone
      exact Or.inr ((hsynced.of_drain hunstopped).1 (Option.some.inj hnone))
  | takeFaults herrand =>
      refine hs.onRun hsynced rfl nofun (by rw [herrand]; rfl) ?_
      intro hunstopped hcovers hrests
      rw [herrand] at hcovers
      refine hcovers.take hrests Or.inl ?_ nofun
      intro hnone
      exact Or.inr ((hsynced.of_drain hunstopped).2.1 (Option.some.inj hnone))
  | takeUpdates herrand =>
      refine hs.onRun hsynced rfl nofun (by rw [herrand]; rfl) ?_
      intro hunstopped hcovers hrests
      rw [herrand] at hcovers
      refine hcovers.take hrests Or.inl Or.inl ?_
      intro hnone
      exact Or.inr ((hsynced.of_drain hunstopped).2.2 (Option.some.inj hnone))
  | @present live lines faults updates herrand =>
      refine ⟨hs.unstopped, fun _ => nofun, ?_⟩
      intro hstopped hanswer
      rcases Option.map_eq_some_iff.mp hanswer with ⟨b, rfl, hnone⟩
      simp only [Bool.or_eq_false_iff, Bool.not_eq_false', Bool.and_eq_true,
        List.isEmpty_iff] at hnone
      rcases hnone with ⟨⟨rfl, _⟩, ⟨rfl, rfl⟩, rfl⟩
      have hcovers := hs.covers hstopped (by rw [herrand]; rfl)
      rw [herrand] at hcovers
      exact ⟨hcovers.ended, hcovers.lines rfl, hcovers.faults rfl, hcovers.updates rfl⟩

/-!
# Whole sittings

The run of the example ends after the first frame has looked at it, and before the frame takes
anything.
-/

structure Faithful (s : Sitting) : Prop where
  synced : s.Synced
  showing : s.Showing
  closing : s.Closing

theorem faithful_perform (chart : Chart) (catalog : Catalog) (delay : Nat) (turns : List Turn) :
    ((new chart catalog delay).perform turns).Faithful := by
  induction turns using List.reverseRecOn with
  | nil =>
      constructor
      · exact synced_new chart catalog delay
      · exact showing_new chart catalog delay
      · exact closing_new chart catalog delay
  | append_singleton turns turn ih =>
      rw [perform_concat]
      have hstep := happens_step ih.synced.run turn
      constructor
      · exact hstep.synced ih.synced
      · exact hstep.showing ih.synced ih.showing
      · exact hstep.closing ih.synced ih.closing

theorem Faithful.lines_prefix (h : s.Faithful) : s.desk.shownLines <+: s.record.watch.written := by
  rcases h.synced.record with ⟨delay, acts, hrecord⟩
  have htaken : s.desk.shownLines <+: s.record.lines := ⟨_, h.showing.lines⟩
  have hsent : s.record.lines <+: s.record.watch.written := by
    rw [hrecord]
    exact (Record.delivered_perform delay acts).lines
  exact htaken.trans hsent

theorem Faithful.known (h : s.Faithful) :
    s.desk.run.known = Dictionary.insertAll ∅ s.record.updates := by
  rcases h.synced.record with ⟨delay, acts, hrecord⟩
  rw [h.synced.run, hrecord]
  exact (Record.delivered_perform delay acts).known

/-- Since the last start, whatever was done at the desk and whenever the worker took its steps, the
console shows the lines that the run wrote, from the first on and in order.  If the desk asked for
no other frame and nobody has stopped the run, the worker has ended, the console shows all lines
and faults, and all updates are known. -/
theorem repaints_until_all_is_shown (chart : Chart) (catalog : Catalog) (delay : Nat)
    (turns : List Turn) :
    let s := (new chart catalog delay).perform turns
    s.desk.run = s.record.watch.run ∧
    s.desk.shownLines <+: s.record.watch.written ∧
    (s.answer = some false → s.stopped = false →
      s.desk.run.isLive = false ∧
      s.desk.shownLines = s.record.watch.written ∧
      s.desk.shownFailures =
        s.refusals ++ s.record.watch.reports.map (·.format s.desk.catalog) ∧
      s.desk.run.known = Dictionary.insertAll ∅ s.record.watch.updated) := by
  intro s
  have hs : s.Faithful := faithful_perform chart catalog delay turns
  refine ⟨hs.synced.run, hs.lines_prefix, ?_⟩
  intro hanswer hstopped
  have hcomplete := hs.closing.complete hstopped hanswer
  have herrand : s.errand = .free := by
    cases herrand : s.errand with
    | free => rfl
    | _ =>
        have hnone := (hs.synced.busy (by rw [herrand]; rfl)).2
        cases hanswer.symm.trans hnone
  have hlines := hs.showing.lines
  have hfailures := hs.showing.failures
  rw [herrand, hcomplete.lines] at hlines
  rw [herrand, hcomplete.faults] at hfailures
  refine ⟨?_, ?_, ?_, ?_⟩
  · rw [hs.synced.run]
    exact hcomplete.ended
  · exact (List.append_nil _).symm.trans hlines
  · exact (List.append_nil _).symm.trans hfailures
  · rw [hs.known, hcomplete.updates]

def farewell : Chart where
  start := ⟨0⟩
  blocks :=
    [⟨⟨0⟩, "", .start (some ⟨1⟩)⟩, ⟨⟨1⟩, "\"done\"", .output (some ⟨2⟩)⟩, ⟨⟨2⟩, "", .finish⟩]

def farewellTurns : List Turn :=
  let work : Turn := .work (.inOrder true)
  let take : List Turn := List.replicate 4 .proceed
  .startRun :: work :: .frame :: List.replicate 12 work ++ take ++ .frame :: take ++ .frame :: take

theorem repaints_until_all_is_shown_farewell :
    let s := (new farewell ⟨∅⟩ 0).perform farewellTurns
    s.answer = some false ∧ s.stopped = false ∧ s.desk.shownLines = ["done"] ∧
      s.desk.shownLines = s.record.watch.written ∧ s.desk.run.isLive = false := by
  intro s
  have hs : (s.answer, s.stopped, s.desk.shownLines) = (some false, false, ["done"]) := by
    decide +kernel
  simp only [Prod.mk.injEq] at hs
  rcases hs with ⟨hanswer, hstopped, hshown⟩
  rcases (repaints_until_all_is_shown farewell ⟨∅⟩ 0 farewellTurns).2.2 hanswer hstopped with
    ⟨hended, hlines, _, _⟩
  exact ⟨hanswer, hstopped, hshown, hlines, hended⟩

end Sitting
end Blockwise
