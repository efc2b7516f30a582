import Blockwise.Proofs.Desk.Repaint

/-!
# Where a failure shows

Lines and faults come on two channels, and nothing relates what is queued on the one to what is
queued on the other.  A poll takes a batch of lines, then the faults, and shows them in this order.
So a failure stands behind the lines that were taken up to then, and lines that were still queued,
or not yet written when the poll took its lines, stand behind the failure.
-/

namespace Blockwise

theorem Channel.drain_of_size_le {α : Type} {c : Channel α} (h : c.toList.length ≤ batch) :
    c.drain.1 = c.toList := by
  rw [toList, Array.length_toList] at h
  simp [drain, toList, h]

theorem Run.drainOutput_of_length_le {r : Run} (h : r.queuedLines.length ≤ Channel.batch) :
    r.drainOutput.1 = r.queuedLines := by
  unfold drainOutput queuedLines at *
  cases hengine : r.engine with
  | none => rfl
  | some e =>
      rw [hengine] at h
      exact Channel.drain_of_size_le h

namespace Record

variable {r r' : Record} {a : Act}

/-- The one record is the other's after some acts, none of which starts the run. -/
def Precedes (r r' : Record) : Prop :=
  ∃ acts : List Act, r' = r.perform acts ∧ ∀ a ∈ acts, a.isStart = false

theorem Precedes.rfl : r.Precedes r :=
  ⟨[], Eq.refl _, nofun⟩

theorem Precedes.step (h : r.Precedes r') (ha : a.isStart = false) : r.Precedes (r'.step a) := by
  rcases h with ⟨acts, rfl, hacts⟩
  refine ⟨acts ++ [a], (perform_concat r acts a).symm, ?_⟩
  intro b hb
  rcases List.mem_append.mp hb with hb | hb
  · exact hacts b hb
  · rw [List.mem_singleton.mp hb]
    exact ha

theorem Precedes.trans {r'' : Record} (h : r.Precedes r') (h' : r'.Precedes r'') :
    r.Precedes r'' := by
  rcases h with ⟨acts, rfl, hacts⟩
  rcases h' with ⟨acts', rfl, hacts'⟩
  refine ⟨acts ++ acts', ?_, ?_⟩
  · simp [perform]
  · intro a ha
    exact (List.mem_append.mp ha).elim (hacts a) (hacts' a)

theorem Precedes.always (h : r.Precedes r') (Holds : Record → Prop) (hr : Holds r)
    (hstep : ∀ r a, a.isStart = false → Holds r → Holds (r.step a)) : Holds r' := by
  rcases h with ⟨acts, rfl, hacts⟩
  induction acts using List.reverseRecOn with
  | nil => exact hr
  | append_singleton acts a ih =>
      rw [perform_concat]
      apply hstep
      · exact hacts a (List.mem_append_right _ (List.mem_singleton_self a))
      · apply ih
        intro b hb
        exact hacts b (List.mem_append_left _ hb)

theorem Precedes.lines (h : r.Precedes r') : r.lines <+: r'.lines := by
  apply h.always (fun x => r.lines <+: x.lines) List.prefix_rfl
  intro x a _ hx
  exact hx.trans (List.prefix_append _ _)

theorem Precedes.reported (h : r.Precedes r') : r.watch.reported <+: r'.watch.reported := by
  apply h.always (fun x => r.watch.reported <+: x.watch.reported) List.prefix_rfl
  intro x a _ hx
  have hact := Watch.happens_act x.watch a
  exact hx.trans hact.reported_prefix

theorem Precedes.deeds (h : r.Precedes r') : r.watch.deeds <+: r'.watch.deeds := by
  apply h.always (fun x => r.watch.deeds <+: x.watch.deeds) List.prefix_rfl
  intro x a _ hx
  refine hx.trans ?_
  change x.watch.deeds <+: (x.watch.act a).deeds
  have hact := Watch.happens_act x.watch a
  generalize x.watch.act a = w' at hact ⊢
  cases hact with
  | work _ _ => exact List.prefix_append _ _
  | _ => exact List.prefix_rfl

theorem Precedes.written_of_failed (h : r.Precedes r') {delay : Nat} {acts : List Act}
    (hr : r = (new delay).perform acts) (hfailed : r.watch.run.failed = true) :
    r'.watch.written = r.watch.written := by
  rcases h with ⟨more, rfl, _⟩
  have hwatch : r.watch = (Watch.new delay).perform acts := by
    rw [hr]
    exact watch_perform _ acts
  rw [watch_perform]
  rw [hwatch] at hfailed ⊢
  have honly := Watch.only_reports_perform hfailed more
  rcases honly.deeds with ⟨later, hlater, hreported⟩
  have hnone : later.filterMap Deed.line? = [] := by
    rw [List.filterMap_eq_nil_iff]
    intro deed hdeed
    rcases hreported deed hdeed with ⟨fault, rfl⟩
    rfl
  rw [Watch.written, hlater, List.filterMap_append, hnone, List.append_nil]
  rfl

theorem Precedes.engine (h : r.Precedes r') (hengine : r'.watch.run.engine ≠ none) :
    r.watch.run.engine ≠ none := by
  intro hnone
  refine hengine (h.always (fun x => x.watch.run.engine = none) hnone ?_)
  intro x a ha hx
  exact (Watch.happens_act x.watch a).engine_of_none ha hx

end Record

namespace Sitting

variable {s s' : Sitting}

/-!
# What shows where

Only a poll that goes on takes something from the run, or shows what it has taken.
-/

structure Passes (s s' : Sitting) : Prop where
  catalog : s'.desk.catalog = s.desk.catalog
  refused : s'.refused = s.refused
  console : ∃ typed : List String,
    s'.desk.console.toList = s.desk.console.toList ++ typed.map ConsoleLine.entered
  record : s'.record = s.record ∨ ∃ a : Act, a.isPlain = true ∧ s'.record = s.record.step a
  faults : s'.errand.faults? = s.errand.faults?

theorem Passes.rfl : s.Passes s :=
  ⟨Eq.refl _, Eq.refl _, ⟨[], (List.append_nil _).symm⟩, Or.inl (Eq.refl _), Eq.refl _⟩

theorem passes_act {a : Act} {stopped : Bool} {d : Desk} (ha : a.isPlain = true)
    (hcatalog : d.catalog = s.desk.catalog)
    (hconsole : ∃ typed : List String,
      d.console.toList = s.desk.console.toList ++ typed.map ConsoleLine.entered) :
    s.Passes { s.onRun a with desk := d, stopped := stopped } :=
  ⟨hcatalog, Eq.refl _, hconsole, Or.inr ⟨a, ha, Eq.refl _⟩, Eq.refl _⟩

theorem passes_onRun {a : Act} (ha : a.isPlain = true) : s.Passes (s.onRun a) :=
  passes_act ha rfl ⟨[], (List.append_nil _).symm⟩

theorem passes_begin (hfree : s.isFree) {turn : Turn} (hturn : turn ≠ .startRun) :
    s.Passes (s.begin turn) := by
  have hfaults : s.errand.faults? = none := by
    cases herrand : s.errand <;> first | rfl | simp [isFree, herrand, Errand.isFree] at hfree
  have hsame : ∃ typed : List String,
      s.desk.console.toList = s.desk.console.toList ++ typed.map ConsoleLine.entered :=
    ⟨[], (List.append_nil _).symm⟩
  cases turn with
  | startRun => exact absurd rfl hturn
  | type text => exact ⟨rfl, rfl, hsame, Or.inl rfl, rfl⟩
  | submitInput =>
      apply passes_act
      · rfl
      · rfl
      · cases htaken : (s.desk.run.submit s.desk.input).1 with
        | true => exact ⟨[s.desk.input], by simp [Desk.submitInput, htaken]⟩
        | false => exact ⟨[], by simp [Desk.submitInput, htaken]⟩
  | edit id content =>
      rcases s.desk.exists_edit id content with ⟨diagnostics, hedit⟩
      simp only [begin, hedit]
      exact ⟨rfl, rfl, hsame, Or.inl rfl, rfl⟩
  | control call =>
      simp only [begin]
      split
      · next hcontrol =>
        apply passes_act (d := (s.onRun (.call call)).desk)
        · cases call <;> first | rfl | cases hcontrol
        · rfl
        · exact hsame
      · exact Passes.rfl
  | setDelay delay =>
      exact ⟨rfl, rfl, hsame, Or.inr ⟨.call (.setDelay delay), rfl, rfl⟩, rfl⟩
  | frame | poll => exact ⟨rfl, rfl, hsame, Or.inl rfl, hfaults.symm⟩
  | work _ | proceed => exact Passes.rfl

theorem passes_step {turn : Turn} (hstart : turn = .startRun → ¬ s.isFree)
    (hproceed : turn = .proceed → s.errand = .free) : s.Passes (s.step turn) := by
  have hbegin : s.Passes (if s.isFree then s.begin turn else s) := by
    split
    · next hfree => exact passes_begin hfree fun h => hstart h hfree
    · exact Passes.rfl
  cases turn with
  | work chance => exact passes_onRun rfl
  | proceed =>
      simp only [step, proceed, hproceed rfl]
      exact passes_onRun rfl
  | _ => exact hbegin

theorem Passes.precedes (h : s.Passes s') : s.record.Precedes s'.record := by
  rcases h.record with hsame | ⟨a, ha, hstep⟩
  · rw [hsame]
    exact Record.Precedes.rfl
  · rw [hstep]
    exact Record.Precedes.rfl.step (Act.isStart_of_isPlain ha)

theorem precedes_step {turn : Turn} (hstart : turn = .startRun → ¬ s.isFree) :
    s.record.Precedes (s.step turn).record := by
  by_cases hproceed : turn = .proceed → s.errand = .free
  · exact (passes_step hstart hproceed).precedes
  · rw [Classical.not_imp] at hproceed
    rcases hproceed with ⟨rfl, hbusy⟩
    simp only [step]
    unfold proceed
    cases herrand : s.errand with
    | free => exact absurd herrand hbusy
    | takingLines _ | takingFaults _ _ | takingUpdates _ _ _ => exact Record.Precedes.rfl.step rfl
    | showing _ _ _ _ => exact Record.Precedes.rfl

def KeepsRun (s : Sitting) : List Turn → Prop
  | [] => True
  | turn :: turns => (turn = .startRun → ¬ s.isFree) ∧ (s.step turn).KeepsRun turns

theorem perform_append (s : Sitting) (turns turns' : List Turn) :
    s.perform (turns ++ turns') = (s.perform turns).perform turns' := by
  simp [perform]

theorem keepsRun_append (s : Sitting) (turns turns' : List Turn) :
    s.KeepsRun (turns ++ turns') ↔ s.KeepsRun turns ∧ (s.perform turns).KeepsRun turns' := by
  induction turns generalizing s with
  | nil => simp [KeepsRun, perform]
  | cons turn turns ih =>
      simp only [List.cons_append, KeepsRun, ih, and_assoc]
      rfl

theorem KeepsRun.precedes {turns : List Turn} (h : s.KeepsRun turns) :
    s.record.Precedes (s.perform turns).record := by
  induction turns generalizing s with
  | nil => exact Record.Precedes.rfl
  | cons turn turns ih => exact (precedes_step h.1).trans (ih h.2)

/-!
# Which poll takes a failure

A failure that comes to show is taken by one of the polls since the start.  It stands behind the
lines that had been taken by then.  If a poll finds the run failed when it is about to take lines,
and no more than a batch of them waiting, these are all that the run ever writes.
-/

/-- Among the turns is one at which a poll takes the fault of the run that was started last, and
the lines are all that have been taken of that run up to then. -/
def Takes (start : Sitting) (turns : List Turn) (fault : Fault) (lines : List String) : Prop :=
  ∃ earlier later : List Turn, turns = earlier ++ .proceed :: later ∧
    let poll := start.perform earlier
    poll.KeepsRun (.proceed :: later) ∧
    (∃ live taken, poll.errand = .takingFaults live taken) ∧
    fault ∈ poll.desk.run.drainErrors.1 ∧
    poll.record.lines = lines

theorem Takes.concat {start : Sitting} {turns : List Turn} {fault : Fault} {lines : List String}
    (h : start.Takes turns fault lines) {turn : Turn}
    (hturn : turn = .startRun → ¬ (start.perform turns).isFree) :
    start.Takes (turns ++ [turn]) fault lines := by
  rcases h with ⟨earlier, later, rfl, hkeeps, htakes⟩
  refine ⟨earlier, later ++ [turn], by simp, ?_, htakes⟩
  rw [← List.cons_append, keepsRun_append]
  refine ⟨hkeeps, ?_, trivial⟩
  simpa [perform] using hturn

theorem Takes.proceed {start : Sitting} {turns : List Turn} {fault : Fault} {lines : List String}
    (h : start.Takes turns fault lines) : start.Takes (turns ++ [.proceed]) fault lines := by
  apply h.concat
  intro hturn
  cases hturn

/-- The failures that show stand behind the lines that had been taken when they were, and so will
those that are about to show. -/
structure Ordered (start : Sitting) (turns : List Turn) (s : Sitting) : Prop where
  taken : ∀ fault ∈ s.errand.faults?.getD [], start.Takes turns fault s.record.lines
  shown : s.refused = [] → ∀ before text after,
    s.desk.console.toList = before ++ .failed text :: after →
      ∃ fault : Fault, text = fault.format s.desk.catalog ∧
        start.Takes turns fault (before.filterMap ConsoleLine.written?)

theorem exists_failed_of_append {console more before after : List ConsoleLine} {text : String}
    (h : console ++ more = before ++ .failed text :: after) :
    (∃ rest, console = before ++ .failed text :: rest) ∨
      ∃ between, before = console ++ between ∧ more = between ++ .failed text :: after := by
  rcases List.append_eq_append_iff.mp h with ⟨between, hbefore, hmore⟩ | ⟨rest, hconsole, hrest⟩
  · exact Or.inr ⟨between, hbefore, hmore⟩
  · cases rest with
    | nil => exact Or.inr ⟨[], by simpa using hconsole.symm, by simpa using hrest.symm⟩
    | cons line rest =>
        rw [List.cons_append, List.cons.injEq] at hrest
        rcases hrest with ⟨rfl, _⟩
        exact Or.inl ⟨rest, hconsole⟩

theorem ordered_of_passes {start : Sitting} {turns : List Turn} {turn : Turn}
    (h : Ordered start turns s) (hs : start.perform turns = s)
    (hturn : turn = .startRun → ¬ s.isFree) (hpasses : s.Passes s') :
    Ordered start (turns ++ [turn]) s' := by
  subst hs
  have hlines : s'.record.lines = (start.perform turns).record.lines := by
    rcases hpasses.record with hsame | ⟨a, ha, hstep⟩
    · rw [hsame]
    · rw [hstep]
      simp [Record.step, Watch.linesBy_of_isPlain ha]
  constructor
  · intro fault hfault
    rw [hpasses.faults] at hfault
    rw [hlines]
    exact (h.taken fault hfault).concat hturn
  · intro hrefused before text after hconsole
    rcases hpasses.console with ⟨typed, htyped⟩
    rw [htyped] at hconsole
    rcases exists_failed_of_append hconsole with ⟨rest, hrest⟩ | ⟨between, _, hmore⟩
    · rcases h.shown (hpasses.refused.symm.trans hrefused) _ _ _ hrest with
        ⟨fault, htext, htakes⟩
      exact ⟨fault, by rw [hpasses.catalog, htext], htakes.concat hturn⟩
    · have hmem : ConsoleLine.failed text ∈ typed.map ConsoleLine.entered := by
        rw [hmore]
        simp
      simp at hmem

theorem Ordered.take {start : Sitting} {turns : List Turn} {a : Act} {errand : Errand}
    (h : Ordered start turns s) (hs : start.perform turns = s)
    (htaken : ∀ fault ∈ errand.faults?.getD [],
      start.Takes (turns ++ [.proceed]) fault (s.record.step a).lines) :
    Ordered start (turns ++ [.proceed]) { s.onRun a with errand := errand } := by
  subst hs
  refine ⟨htaken, ?_⟩
  intro hrefused before text after hconsole
  rcases h.shown hrefused _ _ _ hconsole with ⟨fault, htext, htakes⟩
  exact ⟨fault, htext, htakes.proceed⟩

theorem ordered_launch (start : Sitting) (turns : List Turn) (s : Sitting) :
    Ordered start turns (s.begin .startRun) := by
  constructor
  · nofun
  · intro hrefused before text after hconsole
    have hnone : (s.begin .startRun).desk.console.toList = [] := by
      have herrors : ((Run.new s.desk.delay).start s.desk.chart).1 = [] := hrefused
      simp [begin, Desk.startRun, herrors]
    rw [hnone] at hconsole
    simp at hconsole

theorem Ordered.present {start : Sitting} {turns : List Turn} {live : Option Bool}
    {lines : List String} {faults : List Fault} {updates : List (String × Value)}
    (h : Ordered start turns s) (hs : start.perform turns = s) (hshowing : s.Showing)
    (herrand : s.errand = .showing live lines faults updates) :
    Ordered start (turns ++ [.proceed]) (s.present live lines faults updates) := by
  subst hs
  refine ⟨nofun, ?_⟩
  intro hrefused before text after hconsole
  have htaken := h.taken
  have hlines := hshowing.lines
  rw [herrand] at htaken hlines
  have hsplit : (start.perform turns).desk.console.toList ++
      (lines.map ConsoleLine.written ++ faults.map fun f =>
        ConsoleLine.failed (f.format (start.perform turns).desk.catalog)) =
      before ++ .failed text :: after := by
    simpa [Sitting.present] using hconsole
  rw [← List.append_assoc] at hsplit
  rcases exists_failed_of_append hsplit with ⟨rest, hrest⟩ | ⟨between, hbefore, hfaults⟩
  · rcases exists_failed_of_append hrest with ⟨rest, hrest⟩ | ⟨between, _, hwritten⟩
    · rcases h.shown hrefused _ _ _ hrest with ⟨fault, htext, htakes⟩
      exact ⟨fault, htext, htakes.proceed⟩
    · have hmem : ConsoleLine.failed text ∈ lines.map ConsoleLine.written := by
        rw [hwritten]
        simp
      simp at hmem
  · -- It is one of the faults of this poll, behind everything that was taken before it.
    have hmem : ConsoleLine.failed text ∈ faults.map fun f =>
        ConsoleLine.failed (f.format (start.perform turns).desk.catalog) := by
      rw [hfaults]
      simp
    rcases List.mem_map.mp hmem with ⟨fault, hfault, htext⟩
    have hnone : between.filterMap ConsoleLine.written? = [] := by
      rw [List.filterMap_eq_nil_iff]
      intro line hline
      have hfailed : line ∈ faults.map fun f =>
          ConsoleLine.failed (f.format (start.perform turns).desk.catalog) := by
        rw [hfaults]
        exact List.mem_append_left _ hline
      rcases List.mem_map.mp hfailed with ⟨f, _, rfl⟩
      rfl
    have htakes : start.Takes turns fault (before.filterMap ConsoleLine.written?) := by
      have hshown : before.filterMap ConsoleLine.written? =
          (start.perform turns).record.lines := by
        rw [← hlines, hbefore]
        simp [hnone, Desk.shownLines, ConsoleLine.written?, Errand.lines?, Function.comp_def]
      rw [hshown]
      exact htaken fault hfault
    exact ⟨fault, (ConsoleLine.failed.inj htext).symm, htakes.proceed⟩

theorem Ordered.proceed {start : Sitting} {turns : List Turn} (h : Ordered start turns s)
    (hs : start.perform turns = s) (hfaithful : s.Faithful) :
    Ordered start (turns ++ [.proceed]) s.proceed := by
  have htaken := h.taken
  unfold Sitting.proceed
  cases herrand : s.errand with
  | free => exact ordered_of_passes h hs nofun (passes_onRun rfl)
  | takingLines live => exact h.take hs nofun
  | takingFaults live lines =>
      apply h.take hs
      intro fault hfault
      refine ⟨turns, [], rfl, ⟨nofun, trivial⟩, ?_⟩
      rw [hs]
      exact ⟨⟨live, lines, herrand⟩, hfault, by simp [Record.step, Watch.linesBy]⟩
  | takingUpdates live lines faults =>
      apply h.take hs
      intro fault hfault
      rw [herrand] at htaken
      have hlines : (s.record.step (.call .drainUpdates)).lines = s.record.lines := by
        simp [Record.step, Watch.linesBy]
      rw [hlines]
      exact (htaken fault hfault).proceed
  | showing live lines faults updates => exact h.present hs hfaithful.showing herrand

theorem Ordered.step {start : Sitting} {turns : List Turn} (h : Ordered start turns s)
    (hs : start.perform turns = s) (hfaithful : s.Faithful) (turn : Turn) :
    Ordered start (turns ++ [turn]) (s.step turn) := by
  by_cases hlaunch : turn = .startRun ∧ s.isFree
  · rcases hlaunch with ⟨rfl, hfree⟩
    simp only [Sitting.step, hfree, if_true]
    exact ordered_launch start _ s
  · have hstart : turn = .startRun → ¬ s.isFree := fun hturn hfree => hlaunch ⟨hturn, hfree⟩
    by_cases hproceed : turn = .proceed → s.errand = .free
    · exact ordered_of_passes h hs hstart (passes_step hstart hproceed)
    · rw [Classical.not_imp] at hproceed
      rcases hproceed with ⟨rfl, _⟩
      exact h.proceed hs hfaithful

theorem ordered_perform (chart : Chart) (catalog : Catalog) (delay : Nat) (turns : List Turn) :
    let start := new chart catalog delay
    Ordered start turns (start.perform turns) := by
  induction turns using List.reverseRecOn with
  | nil =>
      refine ⟨nofun, ?_⟩
      intro _ before text after hconsole
      have hnone : (new chart catalog delay).desk.console.toList = [] := by
        rw [new]
        rcases Desk.exists_validateAll _ with ⟨diagnostics, hnew⟩
        rw [Desk.new, hnew]
      change (new chart catalog delay).desk.console.toList = _ at hconsole
      rw [hnone] at hconsole
      simp at hconsole
  | append_singleton turns turn ih =>
      simp only [perform_concat]
      exact ih.step rfl (faithful_perform chart catalog delay turns) turn

theorem Faithful.shown (h : s.Faithful) (hrefused : s.refused = []) {fault : Fault}
    (hfault : fault ∈ s.record.watch.reports) (hshown : s.desk.shownFailures ≠ []) :
    s.record.watch.reports = [fault] ∧
      s.desk.shownFailures = [fault.format s.desk.catalog] := by
  rcases h.synced.record with ⟨delay, acts, hrecord⟩
  have hhonest := Record.honest_perform delay acts
  rw [← hrecord] at hhonest
  rcases hhonest.exists_tells with ⟨block, phase, htells, htaken⟩
  have hreports : s.record.watch.reports = [fault] := by
    have hlength := htells.length_reports_le
    rcases List.mem_iff_append.mp hfault with ⟨earlier, later, hsplit⟩
    rw [hsplit] at hlength ⊢
    have hnone : earlier = [] ∧ later = [] := by
      constructor
      · apply List.length_eq_zero_iff.mp
        simp at hlength
        omega
      · apply List.length_eq_zero_iff.mp
        simp at hlength
        omega
    rw [hnone.1, hnone.2, List.nil_append]
  refine ⟨hreports, ?_⟩
  have hfailures := h.showing.failures
  have hrefusals : s.refusals = [] := by
    simp [refusals, hrefused]
  rw [hrefusals, List.nil_append] at hfailures
  have hfront : s.desk.shownFailures <+: [fault.format s.desk.catalog] := by
    have htaken' := htaken.map (·.format s.desk.catalog)
    rw [hreports] at htaken'
    exact List.IsPrefix.trans ⟨_, hfailures⟩ htaken'
  apply hfront.eq_of_length_le
  exact Nat.one_le_iff_ne_zero.mpr fun hzero => hshown (List.length_eq_zero_iff.mp hzero)

theorem Takes.sent {chart : Chart} {catalog : Catalog} {delay : Nat} {turns : List Turn}
    {fault : Fault} {lines : List String}
    (h : (new chart catalog delay).Takes turns fault lines) :
    fault ∈ ((new chart catalog delay).perform turns).record.watch.reports := by
  rcases h with ⟨earlier, later, rfl, hkeeps, _, hfault, _⟩
  have hfaithful := faithful_perform chart catalog delay earlier
  rcases hfaithful.synced.record with ⟨delay', acts, hrecord⟩
  have hhonest := Record.honest_perform delay' acts
  rw [← hrecord] at hhonest
  rw [hfaithful.synced.run] at hfault
  have hsent := hhonest.drainErrors hfault
  have hprecedes := hkeeps.precedes
  rw [← perform_append] at hprecedes
  exact (hprecedes.deeds.filterMap _).subset hsent

theorem Faithful.lines_of_failed {s' : Sitting} {live : Option Bool} (h : s.Faithful)
    (h' : s'.Faithful) (hlater : (s.step .proceed).record.Precedes s'.record)
    (herrand : s.errand = .takingLines live) (hfailed : s.desk.run.failed = true)
    (hbatch : s.desk.run.queuedLines.length ≤ Channel.batch)
    (hengine : s'.record.watch.run.engine ≠ none) :
    s'.record.lines = s.record.watch.written := by
  have hstep : (s.step .proceed).record = s.record.step (.call .drainOutput) := by
    simp only [step, proceed, herrand]
    rfl
  have hduty : s.record.watch.duty = .free := (h.synced.busy (by rw [herrand]; rfl)).1
  have hprecedes : s.record.Precedes s'.record := by
    rw [hstep] at hlater
    exact (Record.Precedes.rfl.step rfl).trans hlater
  rw [h.synced.run] at hfailed hbatch
  have hwritten : s'.record.watch.written = s.record.watch.written := by
    rcases h.synced.record with ⟨delay, acts, hrecord⟩
    exact hprecedes.written_of_failed hrecord hfailed
  -- It has taken all that was written, and nothing is written any more.
  have htaken : (s.step .proceed).record.lines = s.record.watch.written := by
    rcases h.synced.record with ⟨delay, acts, hrecord⟩
    have hdelivered := Record.delivered_perform delay acts
    rw [← hrecord] at hdelivered
    rw [hstep, ← (hdelivered.rest (hprecedes.engine hengine)).1]
    simp [Record.step, Watch.linesBy, hduty, Run.drainOutput_of_length_le hbatch]
  have hbefore := hlater.lines
  rw [htaken] at hbefore
  rcases h'.synced.record with ⟨delay, acts, hrecord⟩
  have hafter := (Record.delivered_perform delay acts).lines
  rw [← hrecord, hwritten] at hafter
  exact hafter.eq_of_length_le hbefore.length_le

theorem exists_between {start : Sitting} {earlier later earlier' later' : List Turn}
    {live live' : Option Bool} {taken : List String}
    (hturns : earlier ++ .proceed :: later = earlier' ++ .proceed :: later')
    (hpoll : (start.perform earlier).errand = .takingLines live)
    (hreported : (start.perform earlier).record.watch.reported = [])
    (hpoll' : (start.perform earlier').errand = .takingFaults live' taken)
    (hfaithful : (start.perform earlier').Faithful)
    (hkeeps : (start.perform earlier').KeepsRun (.proceed :: later'))
    (hfault : (start.perform earlier').desk.run.drainErrors.1 ≠ []) :
    ∃ between, earlier' = earlier ++ .proceed :: between ∧
      later = between ++ .proceed :: later' := by
  rcases List.append_eq_append_iff.mp hturns with
    ⟨between, hbetween, hrest⟩ | ⟨between, hbetween, hrest⟩
  · cases between with
    | nil =>
        rw [List.append_nil] at hbetween
        rw [hbetween, hpoll] at hpoll'
        cases hpoll'
    | cons turn between =>
        rw [List.cons_append, List.cons.injEq] at hrest
        rcases hrest with ⟨rfl, hlater⟩
        exact ⟨between, hbetween, hlater⟩
  · -- Otherwise the fault had been taken when the other poll began.
    exfalso
    cases between with
    | nil =>
        rw [List.append_nil] at hbetween
        rw [hbetween, hpoll'] at hpoll
        cases hpoll
    | cons turn between =>
        rw [List.cons_append, List.cons.injEq] at hrest
        rcases hrest with ⟨rfl, rfl⟩
        have hprecedes := ((keepsRun_append _ _ _).mp hkeeps.2).1.precedes
        have hduty : (start.perform earlier').record.watch.duty = .free :=
          (hfaithful.synced.busy (by rw [hpoll']; rfl)).1
        have htold : ((start.perform earlier').step .proceed).record.watch.reported ≠ [] := by
          rw [hfaithful.synced.run] at hfault
          simp [step, proceed, hpoll', onRun, Record.step, Watch.step, Watch.act, Watch.enter,
            hduty, hfault]
        rw [hbetween, perform_append] at hreported
        have hnone := hprecedes.reported
        change _ <+: ((start.perform earlier').perform (.proceed :: between)).record.watch.reported
          at hnone
        rw [hreported, List.prefix_nil] at hnone
        exact htold hnone

theorem Takes.lines_of_failed {chart : Chart} {catalog : Catalog} {delay : Nat}
    {turns earlier later : List Turn} {fault : Fault} {lines : List String} {live : Option Bool}
    (h : (new chart catalog delay).Takes turns fault lines)
    (hturns : turns = earlier ++ .proceed :: later)
    (hkeeps : ((new chart catalog delay).perform earlier).KeepsRun (.proceed :: later))
    (hpoll : ((new chart catalog delay).perform earlier).errand = .takingLines live)
    (hfailed : ((new chart catalog delay).perform earlier).desk.run.failed = true)
    (hreported : ((new chart catalog delay).perform earlier).record.watch.reported = [])
    (hbatch : ((new chart catalog delay).perform earlier).desk.run.queuedLines.length ≤
      Channel.batch) :
    lines = ((new chart catalog delay).perform turns).record.watch.written := by
  have hfaithful := faithful_perform chart catalog delay
  generalize new chart catalog delay = start at *
  rcases h with ⟨earlier', later', hturns', hkeeps', ⟨live', taken, hpoll'⟩, hfault, htaken⟩
  rcases exists_between (hturns.symm.trans hturns') hpoll hreported hpoll' (hfaithful earlier')
    hkeeps' (List.ne_nil_of_mem hfault) with ⟨between, hbetween, hlater⟩
  have hprecedes : ((start.perform earlier).step .proceed).record.Precedes
      (start.perform earlier').record := by
    have hbegun := ((keepsRun_append _ between _).mp (hlater ▸ hkeeps.2)).1.precedes
    rw [hbetween, perform_append]
    exact hbegun
  have hengine : (start.perform earlier').record.watch.run.engine ≠ none := by
    intro hnone
    rw [(hfaithful earlier').synced.run] at hfault
    simp [Run.drainErrors, hnone] at hfault
  have hall := (hfaithful earlier).lines_of_failed (hfaithful earlier') hprecedes hpoll hfailed
    hbatch hengine
  have hwritten : (start.perform turns).record.watch.written =
      (start.perform earlier).record.watch.written := by
    rcases (hfaithful earlier).synced.record with ⟨delay', acts, hrecord⟩
    have hwhole := hkeeps.precedes
    rw [← perform_append, ← hturns] at hwhole
    rw [(hfaithful earlier).synced.run] at hfailed
    exact hwhole.written_of_failed hrecord hfailed
  rw [← htaken, hall, hwritten]

/-- The lines of a run show in the order in which they were written, and its failure stands behind
those that had been taken when the failure was.  These are all lines that the run ever writes,
and nothing of the run comes behind the failure, if an earlier poll or the same one, before it
took its lines, found the run failed and no more than a batch of lines waiting. -/
theorem failure_stands_behind_lines (chart : Chart) (catalog : Catalog) (delay : Nat)
    (turns : List Turn) {before after : List ConsoleLine} {text : String} :
    let start := new chart catalog delay
    let s := start.perform turns
    s.refused = [] → s.desk.console.toList = before ++ .failed text :: after →
    before.filterMap ConsoleLine.written? ++ after.filterMap ConsoleLine.written? <+:
      s.record.watch.written ∧
    (∃ fault : Fault, text = fault.format s.desk.catalog ∧ s.record.watch.reports = [fault] ∧
      s.desk.shownFailures = [text] ∧
      start.Takes turns fault (before.filterMap ConsoleLine.written?)) ∧
    (∀ earlier later, turns = earlier ++ .proceed :: later →
      let poll := start.perform earlier
      poll.KeepsRun (.proceed :: later) → (∃ live, poll.errand = .takingLines live) →
      poll.desk.run.failed = true → poll.record.watch.reported = [] →
      poll.desk.run.queuedLines.length ≤ Channel.batch →
      before.filterMap ConsoleLine.written? = s.record.watch.written ∧
        after.filterMap ConsoleLine.written? = []) := by
  intro start s hrefused hconsole
  have hs : s.Faithful := faithful_perform chart catalog delay turns
  have hlines : s.desk.shownLines = before.filterMap ConsoleLine.written? ++
      after.filterMap ConsoleLine.written? := by
    simp [Desk.shownLines, hconsole, List.filterMap_cons, ConsoleLine.written?]
  have hfront := hs.lines_prefix
  rw [hlines] at hfront
  rcases (ordered_perform chart catalog delay turns).shown hrefused _ _ _ hconsole with
    ⟨fault, htext, htakes⟩
  have hshown : s.desk.shownFailures ≠ [] := by
    simp [Desk.shownFailures, hconsole, ConsoleLine.failed?]
  rcases hs.shown hrefused htakes.sent hshown with ⟨hreports, hfailures⟩
  refine ⟨hfront, ⟨fault, htext, hreports, htext ▸ hfailures, htakes⟩, ?_⟩
  intro earlier later hturns poll hkeeps hpoll hfailed hreported hbatch
  have hbefore : before.filterMap ConsoleLine.written? = s.record.watch.written := by
    rcases hpoll with ⟨live, hpoll⟩
    exact htakes.lines_of_failed hturns hkeeps hpoll hfailed hreported hbatch
  refine ⟨hbefore, ?_⟩
  rw [hbefore] at hfront
  have hlength := hfront.length_le
  rw [List.length_append] at hlength
  exact List.length_eq_zero_iff.mp (by omega)

theorem errand_poll (h : s.isFree) : (s.step .poll).errand = .takingLines none := by
  simp [step, begin, h]

def lastWords (lines : Nat) : Chart where
  start := ⟨0⟩
  blocks :=
    ⟨⟨0⟩, "", .start (some ⟨1⟩)⟩ ::
      (List.range lines).map (fun n =>
        ⟨⟨.ofNat (n + 1)⟩, "\"so\"", .output (some ⟨.ofNat (n + 2)⟩)⟩) ++
      [⟨⟨.ofNat (lines + 1)⟩, "x", .output (some ⟨.ofNat (lines + 2)⟩)⟩,
        ⟨⟨.ofNat (lines + 2)⟩, "", .finish⟩]

def lastWordsRun (steps : Nat) : List Turn :=
  .startRun :: List.replicate steps (.work (.inOrder true)) ++ [.poll]

def lastWordsPolls : List Turn :=
  .proceed :: List.replicate 3 .proceed ++ .poll :: List.replicate 4 .proceed

theorem failure_stands_behind_lines_last_words :
    let s := (new (lastWords 1) ⟨∅⟩ 0).perform (lastWordsRun 20 ++ lastWordsPolls)
    ∃ text, s.desk.console.toList = [.written "so", .failed text] ∧
      s.record.watch.written = ["so"] := by
  intro s
  have hconsole : s.refused = [] ∧ s.desk.console.toList =
      [.written "so"] ++ .failed (s.desk.shownFailures.headD "") :: [] := by
    decide +kernel
  rcases failure_stands_behind_lines (lastWords 1) ⟨∅⟩ 0 (lastWordsRun 20 ++ lastWordsPolls)
    hconsole.1 hconsole.2 with ⟨_, _, hlast⟩
  have hpoll : ((new (lastWords 1) ⟨∅⟩ 0).perform (lastWordsRun 20)).desk.run.failed = true ∧
      ((new (lastWords 1) ⟨∅⟩ 0).perform (lastWordsRun 20)).record.watch.reported = [] ∧
      ((new (lastWords 1) ⟨∅⟩ 0).perform (lastWordsRun 20)).desk.run.queuedLines.length ≤
        Channel.batch := by
    decide +kernel
  have herrand : ((new (lastWords 1) ⟨∅⟩ 0).perform (lastWordsRun 20)).errand =
      .takingLines none := by
    rw [lastWordsRun, perform_concat]
    exact errand_poll (by decide +kernel)
  have hkeeps : ((new (lastWords 1) ⟨∅⟩ 0).perform (lastWordsRun 20)).KeepsRun
      lastWordsPolls := by
    simp [KeepsRun, lastWordsPolls, List.replicate]
  rcases hlast (lastWordsRun 20) _ rfl hkeeps ⟨none, herrand⟩ hpoll.1 hpoll.2.1 hpoll.2.2 with
    ⟨hbefore, _⟩
  exact ⟨_, hconsole.2, hbefore.symm⟩

/-- A line that no longer fits into the batch of the poll that takes the failure shows behind it. -/
theorem backlog_shows_behind_failure :
    ¬ ∀ (chart : Chart) (catalog : Catalog) (delay : Nat) (turns : List Turn)
        (before after : List ConsoleLine) (text : String),
      let s := (new chart catalog delay).perform turns
      s.refused = [] → s.desk.console.toList = before ++ .failed text :: after →
      before.filterMap ConsoleLine.written? = s.record.watch.written := by
  intro hall
  have hwords := hall (lastWords 51) ⟨∅⟩ 0 (lastWordsRun 540 ++ lastWordsPolls)
    (List.replicate 50 (.written "so")) [.written "so"]
  generalize hs : (new (lastWords 51) ⟨∅⟩ 0).perform (lastWordsRun 540 ++ lastWordsPolls) = s
    at hwords
  have hrun : s.refused = [] ∧ s.record.watch.written.length = 51 ∧
      s.desk.console.toList = List.replicate 50 (.written "so") ++
        .failed (s.desk.shownFailures.headD "") :: [.written "so"] := by
    rw [← hs]
    decide +kernel
  have hshown : (List.replicate 50 (ConsoleLine.written "so")).filterMap ConsoleLine.written? =
      List.replicate 50 "so" := List.filterMap_replicate_of_some rfl
  have hlength := congrArg List.length (hwords _ hrun.1 hrun.2.2)
  rw [hrun.2.1, hshown, List.length_replicate] at hlength
  omega

end Sitting
end Blockwise
