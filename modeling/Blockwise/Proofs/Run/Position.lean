import Blockwise.Proofs.Chart.Editing
import Blockwise.Proofs.Run.Reporting

/-!
# Where a run is

A worker comes only to blocks that the links of its chart lead to.  No block of a chart that was
drawn has the reserved id, so the reserved id is announced as long as no block is, and not again.
-/

namespace Blockwise

namespace Phase

def step? : Phase → Option Step
  | checking step | talking step _ | waiting step _ _ | answering step _ | publishing step _ _
  | timing step _ | pacing step _ _ | holding step _ | held step _ | stepping step _
  | leaving step _ => some step
  | _ => none

theorem step?_ofFault (fault : Fault) : (ofFault fault).step? = none := by
  unfold ofFault
  split <;> rfl

theorem ofFault_ne_moving (fault : Fault) (target : BlockId) : ofFault fault ≠ moving target := by
  unfold ofFault
  split <;> exact nofun

theorem mem_targets_of_ofChoice {successor : Successor} {value : Value} {target : BlockId}
    (h : ofChoice successor value = moving target) : target ∈ successor.targets := by
  unfold ofChoice at h
  split at h
  · cases h
    exact List.mem_singleton_self _
  · split at h
    · cases h
      exact List.mem_cons_self
    · cases h
      exact List.mem_cons_of_mem _ (List.mem_singleton_self _)
    · exact absurd h (ofFault_ne_moving _ _)
    · exact absurd h (ofFault_ne_moving _ _)

end Phase

/-!
# The worker

The block that is announced is the one that the worker is at, and the next one is announced as it
moves there.
-/

namespace Engine

/-- The worker is at a block that its program leads to, it carries out the step of that block,
and it is about to move where the step leads. -/
structure OnCourse (e : Engine) : Prop where
  current : e.program.Visits e.current
  step : ∀ step, e.phase.step? = some step → e.program.get? e.current = some step
  target : ∀ target, e.phase = .moving target → e.program.Visits target

theorem onCourse_new (program : Program) : (Engine.new program).OnCourse where
  current := Program.Visits.entry
  step := nofun
  target := nofun

variable {chance : Chance} {s s' : Signals} {e e' : Engine} {done : List Deed}

theorem Steps.onCourse (h : Steps chance s e s' e' done) (he : e.OnCourse) : e'.OnCourse := by
  have hstep := he.step
  cases h with
  | arrive _ hget =>
      refine ⟨he.current, ?_, nofun⟩
      intro step hsame
      cases hsame
      exact hget
  | fail _ =>
      refine ⟨he.current, ?_, fun target h => absurd h (Phase.ofFault_ne_moving _ target)⟩
      intro step hsame
      cases (Phase.step?_ofFault _).symm.trans hsame
  | choose hphase _ hchoice =>
      rw [hphase] at hstep
      refine ⟨he.current, nofun, ?_⟩
      intro target hsame
      cases hsame
      exact Program.Visits.step he.current (hstep _ rfl) (Phase.mem_targets_of_ofChoice hchoice)
  | move hphase => exact ⟨he.target _ hphase, nofun, nofun⟩
  | begin hphase _ | leave hphase _ | write hphase | ask hphase | look hphase
  | interrupt hphase _ | take hphase _ | answer hphase | publish hphase | listed hphase
  | time hphase | wake hphase _ | hold hphase _ | pass hphase _ | stay hphase _ | grant hphase _
  | deny hphase _ =>
      rw [hphase] at hstep
      exact ⟨he.current, hstep, nofun⟩
  | enter _ | finish _ _ | obey _ _ | balk _ _ _ | lapse _ _ _ | raise _ | report _ | quit _ =>
      exact ⟨he.current, nofun, nofun⟩
  | doze _ _ | rest _ => exact he

theorem Steps.announced (h : Steps chance s e s' e' done) :
    s'.current = s.current ∨ s'.current = e'.current := by
  cases h with
  | enter _ | move _ => exact Or.inr rfl
  | _ => exact Or.inl rfl

end Engine

/-!
# Whole runs

If all the charts that were started are drawn, the worker is at a block of the chart that it carries
out, and once a block is announced, one always is.
-/

namespace Watch

variable {w w' : Watch} {a : Act} {acts : List Act} {delay : Nat}

theorem Happens.onCourse (h : Happens w a w')
    (hw : ∀ e, w.run.engine = some e → e.OnCourse) :
    ∀ e, w'.run.engine = some e → e.OnCourse := by
  intro e he
  cases h.succeeds he with
  | stepped _ hengine hsteps => exact hsteps.onCourse (hw _ hengine)
  | started _ _ _ _ => exact Engine.onCourse_new _
  | stayed hengine _ _ _ =>
      have hcourse := hw _ hengine
      exact ⟨hcourse.current, hcourse.step, hcourse.target⟩

theorem onCourse_perform (delay : Nat) (acts : List Act) {e : Engine}
    (h : ((new delay).perform acts).run.engine = some e) : e.OnCourse := by
  have hnew : ∀ delay e, (new delay).run.engine = some e → e.OnCourse := by
    intro delay e hnone
    cases hnone
  have halways : ∀ e, ((new delay).perform acts).run.engine = some e → e.OnCourse :=
    @always (fun w => ∀ e, w.run.engine = some e → e.OnCourse) hnew
      (fun w a hw => (happens_act w a).onCourse hw) delay acts
  exact halways e h

def StartsDrawn (acts : List Act) : Prop :=
  ∀ chart, .call (.start chart) ∈ acts → chart.Drawn

theorem exists_block {e : Engine} (h : ((new delay).perform acts).run.engine = some e) :
    ∃ chart b, .call (.start chart) ∈ acts ∧ Program.build chart = .ok e.program ∧
      chart.get? e.current = some b := by
  rcases ((honest_perform delay acts).live e h).started with ⟨chart, hchart, hbuild⟩
  have hlinked := Program.linked_of_visits hbuild (onCourse_perform delay acts h).current
  rcases Program.exists_of_linked hbuild hlinked with ⟨b, hb⟩
  exact ⟨chart, b, hchart, hbuild, hb⟩

theorem current_ne_reserved (hdrawn : StartsDrawn acts) {e : Engine}
    (h : ((new delay).perform acts).run.engine = some e) : e.current ≠ .reserved := by
  rcases exists_block h with ⟨chart, b, hchart, _, hb⟩
  intro hreserved
  rw [hreserved] at hb
  exact (hdrawn chart hchart).wellNamed.unreserved (Chart.mem_ids_of_get? hb)

theorem current?_eq_none_iff {r : Run} : r.current? = none ↔ r.signals.current = .reserved := by
  simp [Run.current?, Signals.current?]

theorem Happens.announced (h : Happens w a w') :
    w'.run.signals.current = w.run.signals.current ∨
      ∃ e, w'.run.engine = some e ∧ w'.run.signals.current = e.current := by
  cases h with
  | work _ hsteps =>
      rcases hsteps.announced with hsame | hcurrent
      · exact Or.inl hsame
      · exact Or.inr ⟨_, rfl, hcurrent⟩
  | _ => exact Or.inl rfl

theorem announced_perform (more : List Act) (hdrawn : StartsDrawn (acts ++ more))
    (h : ((new delay).perform acts).run.current? ≠ none) :
    (((new delay).perform acts).perform more).run.current? ≠ none := by
  induction more using List.reverseRecOn with
  | nil => exact h
  | append_singleton more a ih =>
      rw [← List.append_assoc] at hdrawn
      have hbefore := ih fun chart hchart => hdrawn chart (List.mem_append_left _ hchart)
      rw [ne_eq, current?_eq_none_iff] at hbefore ⊢
      rw [← perform_append] at hbefore ⊢
      rw [← List.append_assoc, perform_concat]
      rcases (happens_act ((new delay).perform (acts ++ more)) a).announced with
        hsame | ⟨e, hengine, hcurrent⟩
      · rw [step, run_note, hsame]
        exact hbefore
      · rw [step, run_note, hcurrent]
        have hlast : ((new delay).perform (acts ++ more ++ [a])).run.engine = some e := by
          rw [perform_concat, step, run_note]
          exact hengine
        exact current_ne_reserved hdrawn hlast

end Watch

namespace Chart

/-- Each block of a chart that was drawn or loaded has an id of its own, none has the reserved
one, and the start is that of a START block.  A block that is added takes an id that is free and
leaves the others alone.  Links are set exactly where their targets are there and the block with
as many links, and then nothing else changes; what is refused changes nothing.  Hence a run of
such charts that has announced its first block tells at any moment, until it is stopped, the
block that the worker is at, which is one of the chart, and from then on always a block. -/
theorem blocks_keep_their_names :
    (∀ chart : Chart, chart.Drawn →
      (chart.ids.Nodup ∧ BlockId.reserved ∉ chart.ids ∧
        ∃ b, chart.get? chart.start = some b ∧ b.kind.role = .start) ∧
      (chart.blocks.length < UInt64.size - 1 → ∀ kind content,
        let added := chart.add kind content
        added.1 ∉ chart.ids ∧ added.1 ≠ .reserved ∧
          added.2 = { chart with blocks := chart.blocks ++ [⟨added.1, content, kind⟩] }) ∧
      (∀ source target,
        ((∃ chart', chart.connect source target = .ok chart') ↔
          chart.has target = true ∧
            ∃ b, chart.get? source = some b ∧ b.kind.links.length = 1) ∧
        ∀ chart', chart.connect source target = .ok chart' →
          chart.Relinked source [target] chart') ∧
      (∀ source onTrue onFalse,
        ((∃ chart', chart.connectBranch source onTrue onFalse = .ok chart') ↔
          (chart.has onTrue = true ∧ chart.has onFalse = true) ∧
            ∃ b, chart.get? source = some b ∧ b.kind.role = .decision) ∧
        ∀ chart', chart.connectBranch source onTrue onFalse = .ok chart' →
          chart.Relinked source [onTrue, onFalse] chart') ∧
      ∀ e error, chart.edited e = .error error → chart.edit e = chart) ∧
    ∀ (delay : Nat) (acts : List Act), Watch.StartsDrawn acts →
      let w := (Watch.new delay).perform acts
      (∀ e, w.run.engine = some e → e.phase ≠ .entering →
        w.run.current? = some e.current ∧
          ∃ chart b, .call (.start chart) ∈ acts ∧ Program.build chart = .ok e.program ∧
            chart.get? e.current = some b) ∧
      (w.run.current? ≠ none → ∀ more, Watch.StartsDrawn (acts ++ more) →
        (w.perform more).run.current? ≠ none) := by
  constructor
  · intro chart hdrawn
    have hnamed := hdrawn.wellNamed
    refine ⟨⟨hnamed.nodup, hnamed.unreserved, hnamed.start⟩, ?_, connect_spec chart,
      connectBranch_spec chart, fun e error => edit_of_error⟩
    intro hroom kind content added
    rcases nextId_fresh hroom with ⟨hnew, hfree⟩
    exact ⟨hnew, hfree, rfl⟩
  · intro delay acts hdrawn w
    refine ⟨?_, fun hcurrent more hmore => Watch.announced_perform more hmore hcurrent⟩
    intro e hengine hphase
    have hplaced := ((Watch.honest_perform delay acts).live e hengine).placed
    exact ⟨Watch.current?_of_ne (hplaced.announced hphase)
      (Watch.current_ne_reserved hdrawn hengine), Watch.exists_block hengine⟩

def topmost : Chart where
  start := ⟨0⟩
  blocks := [⟨⟨0⟩, "", .start (some ⟨0xFFFFFFFFFFFFFFFE⟩)⟩, ⟨⟨0xFFFFFFFFFFFFFFFE⟩, "", .finish⟩]

def topmostActs : List Act :=
  [.call (.start topmost), .work (.inOrder true)]

theorem blocks_keep_their_names_topmost :
    (topmost.Drawn ∧ topmost.blocks.length < UInt64.size - 1 ∧
      (topmost.add (.assignment none) "x = 1").1 = ⟨1⟩ ∧ (⟨1⟩ : BlockId) ∉ topmost.ids) ∧
    Watch.StartsDrawn topmostActs ∧
      let w := (Watch.new 0).perform topmostActs
      w.run.current? = some ⟨0xFFFFFFFFFFFFFFFE⟩ ∧
        ∀ more, Watch.StartsDrawn (topmostActs ++ more) → (w.perform more).run.current? ≠ none := by
  have hdrawn : topmost.Drawn := Drawn.loaded ((ofText_eq_validate topmost).trans rfl)
  have hstarts : Watch.StartsDrawn topmostActs := by
    intro chart hchart
    simp only [topmostActs, List.mem_cons, List.not_mem_nil, or_false, reduceCtorEq] at hchart
    cases hchart
    exact hdrawn
  have hroom : topmost.blocks.length < UInt64.size - 1 := by decide
  have hadded : (topmost.add (.assignment none) "x = 1").1 = ⟨1⟩ := by decide
  have hnew := ((blocks_keep_their_names.1 topmost hdrawn).2.1 hroom (.assignment none) "x = 1").1
  rw [hadded] at hnew
  rcases blocks_keep_their_names.2 0 topmostActs hstarts with ⟨_, hmore⟩
  have hcurrent : ((Watch.new 0).perform topmostActs).run.current? =
      some ⟨0xFFFFFFFFFFFFFFFE⟩ := by cbv
  have hannounced : ((Watch.new 0).perform topmostActs).run.current? ≠ none := by
    rw [hcurrent]
    exact Option.some_ne_none _
  exact ⟨⟨hdrawn, hroom, hadded, hnew⟩, hstarts, hcurrent, hmore hannounced⟩

end Chart
end Blockwise
