import Blockwise.Proofs.Dictionary
import Blockwise.Proofs.Run.Reporting

/-!
# What is taken of a run

Whoever supervises a run takes its lines and its updates a batch at a time.  What was taken and
what is still queued make up what the worker sent, in order, until the channels are given up.
-/

namespace Blockwise

namespace Deed

def line? : Deed → Option String
  | wrote line => some line
  | _ => none

def update? : Deed → Option (String × Value)
  | updated update => some update
  | _ => none

end Deed

namespace Phase

/-- The store of a block that has just been evaluated without an error. -/
def computed? : Phase → Option Store
  | talking _ (.done (value, store)) => if value.isError then none else some store
  | _ => none

def published? (store : Store) : Phase → Option Store
  | publishing _ _ [] => some store
  | _ => none

end Phase

namespace Run

def queuedLines (r : Run) : List String :=
  match r.engine with
  | none => []
  | some e => e.wires.output.toList

def queuedUpdates (r : Run) : List (String × Value) :=
  match r.engine with
  | none => []
  | some e => e.wires.updates.toList

variable {r : Run} {e : Engine}

theorem queuedLines_of_some (h : r.engine = some e) :
    r.queuedLines = e.wires.output.toList := by
  rw [queuedLines, h]

theorem queuedUpdates_of_some (h : r.engine = some e) :
    r.queuedUpdates = e.wires.updates.toList := by
  rw [queuedUpdates, h]

end Run

namespace Engine

variable {chance : Chance} {s s' : Signals} {e e' : Engine} {done : List Deed}

theorem Steps.lines (h : Steps chance s e s' e' done) :
    e'.wires.output.toList = e.wires.output.toList ++ done.filterMap Deed.line? := by
  cases h with
  | write _ => simp [Deed.line?]
  | _ => simp [Deed.line?, go]

theorem Steps.updates (h : Steps chance s e s' e' done) :
    e'.wires.updates.toList = e.wires.updates.toList ++ done.filterMap Deed.update? := by
  cases h with
  | publish _ => simp [Deed.update?]
  | _ => simp [Deed.update?, go]

end Engine

/-!
# One act

An act takes lines and updates from the front of what is queued, and the worker puts behind it what
it sends.
-/

namespace Watch

variable {w w' : Watch} {lines : List String} {updates : List (String × Value)}

def written (w : Watch) : List String :=
  w.deeds.filterMap Deed.line?

def updated (w : Watch) : List (String × Value) :=
  w.deeds.filterMap Deed.update?

def linesBy (w : Watch) : Act → List String
  | .call .drainOutput => if w.duty = .free then w.run.drainOutput.1 else []
  | _ => []

def updatesBy (w : Watch) : Act → List (String × Value)
  | .call .drainUpdates => if w.duty = .free then w.run.drainUpdates.1 else []
  | _ => []

def computedBy? (w : Watch) : Act → Option Store
  | .work _ => w.run.engine.bind fun e => e.phase.computed?
  | _ => none

def publishedBy? (w : Watch) : Act → Option Store
  | .work _ => w.run.engine.bind fun e => e.phase.published? e.store
  | _ => none

/-- Between the two, lines and updates were taken from the front of what was queued, and what the
worker sent was put behind it, unless the channels were given up. -/
structure Delivers (w : Watch) (lines : List String) (updates : List (String × Value))
    (w' : Watch) : Prop where
  known : w'.run.known = w.run.known.insertAll updates
  sent : ∃ done, w'.deeds = w.deeds ++ done ∧
    (w'.run.engine = none → done = [] ∧ lines = [] ∧ updates = []) ∧
    (w'.run.engine ≠ none →
      lines ++ w'.run.queuedLines = w.run.queuedLines ++ done.filterMap Deed.line? ∧
      updates ++ w'.run.queuedUpdates = w.run.queuedUpdates ++ done.filterMap Deed.update?)

theorem delivers_of_same (hknown : w'.run.known = w.run.known) (hdeeds : w'.deeds = w.deeds)
    (hengine : w'.run.engine = w.run.engine) : Delivers w [] [] w' := by
  refine ⟨hknown, [], ?_, fun _ => ⟨rfl, rfl, rfl⟩, fun _ => ?_⟩
  · rw [hdeeds, List.append_nil]
  · simp [Run.queuedLines, Run.queuedUpdates, hengine]

theorem delivers_of_none (hknown : w'.run.known = w.run.known) (hdeeds : w'.deeds = w.deeds)
    (hengine : w'.run.engine = none) : Delivers w [] [] w' := by
  refine ⟨hknown, [], ?_, fun _ => ⟨rfl, rfl, rfl⟩, fun hsome => absurd hengine hsome⟩
  rw [hdeeds, List.append_nil]

theorem delivers_of_wires {e : Engine} {wires : Wires} (hengine : w.run.engine = some e)
    (hengine' : w'.run.engine = some { e with wires := wires })
    (hknown : w'.run.known = w.run.known.insertAll updates) (hdeeds : w'.deeds = w.deeds)
    (hlines : lines ++ wires.output.toList = e.wires.output.toList)
    (hupdates : updates ++ wires.updates.toList = e.wires.updates.toList) :
    Delivers w lines updates w' := by
  refine ⟨hknown, [], ?_, ?_, fun _ => ⟨?_, ?_⟩⟩
  · rw [hdeeds, List.append_nil]
  · intro hnone
    cases hengine'.symm.trans hnone
  · simp [Run.queuedLines_of_some hengine, Run.queuedLines_of_some hengine', hlines]
  · simp [Run.queuedUpdates_of_some hengine, Run.queuedUpdates_of_some hengine', hupdates]

theorem delivers_start (hstaged : w.run.Staged) (chart : Chart) :
    Delivers w [] [] (w.enter (.start chart)) := by
  unfold enter Run.start
  by_cases hstage : w.run.stage = .idle
  · have hnone := (hstaged.of_idle hstage).1
    cases hbuild : Program.build chart with
    | ok program =>
        simp only [hstage, hbuild, if_true]
        refine ⟨rfl, [], (List.append_nil _).symm, nofun, fun _ => ?_⟩
        simp [Run.queuedLines, Run.queuedUpdates, hnone, Engine.new, Wires.new]
    | error errors =>
        simp only [hstage, hbuild, if_true]
        exact delivers_of_same rfl rfl rfl
  · simp only [hstage, if_false]
    exact delivers_of_same rfl rfl rfl

theorem delivers_submit (w : Watch) (line : String) :
    Delivers w [] [] (w.enter (.submit line)) := by
  change Delivers w [] [] { w with run := (w.run.submit line).2 }
  unfold Run.submit
  split
  · cases hengine : w.run.engine with
    | none => exact delivers_of_same rfl rfl (by simp [Run.withEngine, hengine])
    | some e =>
        have hsent : (w.run.withEngine fun e =>
            { e with wires := { e.wires with input := e.wires.input.send line } }).engine =
              some { e with wires := { e.wires with input := e.wires.input.send line } } := by
          simp [Run.withEngine, hengine]
        exact delivers_of_wires hengine hsent rfl rfl rfl rfl
  · exact delivers_of_same rfl rfl rfl

theorem delivers_drainOutput (w : Watch) :
    Delivers w w.run.drainOutput.1 [] (w.enter .drainOutput) := by
  unfold enter Run.drainOutput
  cases hengine : w.run.engine with
  | none => exact delivers_of_same rfl rfl rfl
  | some e => exact delivers_of_wires hengine rfl rfl rfl (Channel.drain_append _) rfl

theorem delivers_drainErrors (w : Watch) : Delivers w [] [] (w.enter .drainErrors) := by
  unfold enter Run.drainErrors
  cases hengine : w.run.engine with
  | none => exact delivers_of_same rfl rfl rfl
  | some e => exact delivers_of_wires hengine rfl rfl rfl rfl rfl

theorem delivers_drainUpdates (w : Watch) :
    Delivers w [] w.run.drainUpdates.1 (w.enter .drainUpdates) := by
  unfold enter Run.drainUpdates
  cases hengine : w.run.engine with
  | none => exact delivers_of_same rfl rfl rfl
  | some e => exact delivers_of_wires hengine rfl rfl rfl rfl (Channel.drain_append _)

theorem delivers_enter (hstaged : w.run.Staged) (hfree : w.duty = .free) (call : Call) :
    Delivers w (w.linesBy (.call call)) (w.updatesBy (.call call)) (w.enter call) := by
  unfold linesBy updatesBy
  cases call with
  | start chart => exact delivers_start hstaged chart
  | pause | resume | advance =>
      simp only [enter]
      split
      · exact delivers_of_same rfl rfl rfl
      · exact delivers_of_same rfl rfl rfl
  | stop | setDelay delay => exact delivers_of_same rfl rfl rfl
  | submit line => exact delivers_submit w line
  | drainOutput =>
      simp only [hfree, if_true]
      exact delivers_drainOutput w
  | drainErrors => exact delivers_drainErrors w
  | drainUpdates =>
      simp only [hfree, if_true]
      exact delivers_drainUpdates w

theorem delivers_proceed (w : Watch) : Delivers w [] [] w.proceed := by
  unfold proceed
  cases w.duty with
  | free | dropping _ | setting _ | requesting | cancelling _ | releasing _ =>
      exact delivers_of_same rfl rfl rfl
  | notifying reason =>
      cases hengine : w.run.engine with
      | none => exact delivers_of_none rfl rfl (Run.engine_sendStop_of_none hengine)
      | some e =>
          exact delivers_of_wires hengine (Run.engine_sendStop_of_some hengine) rfl rfl rfl rfl
  | joining reason =>
      dsimp only
      split
      · exact delivers_of_same rfl rfl rfl
      · exact delivers_of_none rfl rfl rfl

theorem delivers_work (w : Watch) (chance : Chance) : Delivers w [] [] (w.act (.work chance)) := by
  cases hengine : w.run.engine with
  | none =>
      have hact : w.act (.work chance) = w := by
        simp [act, Run.work, doneBetween, hengine]
      rw [hact]
      exact delivers_of_same rfl rfl rfl
  | some e =>
      rw [act_work hengine]
      have hsteps := e.steps_step chance w.run.signals
      refine ⟨rfl, _, rfl, ?_, fun _ => ⟨?_, ?_⟩⟩
      · intro hnone
        cases hnone
      · rw [Run.queuedLines_of_some hengine]
        exact hsteps.lines
      · rw [Run.queuedUpdates_of_some hengine]
        exact hsteps.updates

theorem delivers_act (hstaged : w.run.Staged) (a : Act) :
    Delivers w (w.linesBy a) (w.updatesBy a) (w.act a) := by
  cases a with
  | work chance => exact delivers_work w chance
  | call call =>
      unfold act
      dsimp only
      split
      · next hfree => exact delivers_enter hstaged hfree call
      · next hbusy =>
          have hnone : w.linesBy (.call call) = [] ∧ w.updatesBy (.call call) = [] := by
            cases call <;> simp [linesBy, updatesBy, hbusy]
          rw [hnone.1, hnone.2]
          exact delivers_of_same rfl rfl rfl
  | proceed => exact delivers_proceed w

theorem idle_of_engine {a : Act} {e : Engine} (hnone : w.run.engine = none)
    (h : (w.act a).run.engine = some e) : w.run.stage = .idle := by
  cases (happens_act w a).succeeds h with
  | started hidle _ _ _ => exact hidle
  | stepped _ hengine _ | stayed hengine _ _ _ => cases hnone.symm.trans hengine

end Watch

/-!
# Whole runs

The record of a run keeps what was taken from it, the store after the last block that was evaluated
without an error, and the store as it was last published in full.
-/

structure Record where
  watch : Watch
  lines : List String
  updates : List (String × Value)
  computed : Store
  published : Store

namespace Record

def new (delay : Nat) : Record where
  watch := .new delay
  lines := []
  updates := []
  computed := ∅
  published := ∅

def step (r : Record) (a : Act) : Record where
  watch := r.watch.step a
  lines := r.lines ++ r.watch.linesBy a
  updates := r.updates ++ r.watch.updatesBy a
  computed := (r.watch.computedBy? a).getD r.computed
  published := (r.watch.publishedBy? a).getD r.published

def perform (r : Record) (acts : List Act) : Record :=
  acts.foldl step r

variable {r : Record}

theorem perform_concat (r : Record) (acts : List Act) (a : Act) :
    r.perform (acts ++ [a]) = (r.perform acts).step a := by
  simp [perform]

theorem watch_perform (r : Record) (acts : List Act) :
    (r.perform acts).watch = r.watch.perform acts := by
  induction acts using List.reverseRecOn with
  | nil => rfl
  | append_singleton acts a ih =>
      rw [perform_concat, Watch.perform_concat, ← ih]
      rfl

theorem always {Holds : Record → Prop} {delay : Nat} (hnew : Holds (new delay))
    (hstep : ∀ r a acts, r.watch = (Watch.new delay).perform acts → Holds r → Holds (r.step a))
    (acts : List Act) : Holds ((new delay).perform acts) := by
  induction acts using List.reverseRecOn with
  | nil => exact hnew
  | append_singleton acts a ih =>
      rw [perform_concat]
      exact hstep _ a acts (watch_perform _ acts) ih

/-- What was taken is what was sent first, and the rest is still queued as long as there is a
worker. -/
structure Delivered (r : Record) : Prop where
  known : r.watch.run.known = Dictionary.insertAll ∅ r.updates
  lines : r.lines <+: r.watch.written
  updates : r.updates <+: r.watch.updated
  rest : r.watch.run.engine ≠ none →
    r.lines ++ r.watch.run.queuedLines = r.watch.written ∧
      r.updates ++ r.watch.run.queuedUpdates = r.watch.updated

theorem delivered_new (delay : Nat) : (new delay).Delivered where
  known := rfl
  lines := List.prefix_rfl
  updates := List.prefix_rfl
  rest := fun h => absurd rfl h

theorem Delivered.rest_of_engine (h : r.Delivered) {acts : List Act}
    (hhonest : r.watch.Honest acts) {a : Act} {e : Engine}
    (hengine : (r.watch.act a).run.engine = some e) :
    r.lines ++ r.watch.run.queuedLines = r.watch.written ∧
      r.updates ++ r.watch.run.queuedUpdates = r.watch.updated := by
  cases hbefore : r.watch.run.engine with
  | some _ => exact h.rest (by simp [hbefore])
  | none =>
      have hdeeds := (hhonest.idle (Watch.idle_of_engine hbefore hengine)).1
      have hlines := h.lines
      have hupdates := h.updates
      simp only [Watch.written, Watch.updated, hdeeds, List.filterMap_nil,
        List.prefix_nil] at hlines hupdates
      simp [Watch.written, Watch.updated, hdeeds, hlines, hupdates, Run.queuedLines,
        Run.queuedUpdates, hbefore]

theorem Delivered.step (h : r.Delivered) {acts : List Act} (hhonest : r.watch.Honest acts)
    (hstaged : r.watch.run.Staged) (a : Act) : (r.step a).Delivered := by
  have hdelivers := Watch.delivers_act hstaged a
  rcases hdelivers.sent with ⟨done, hdeeds, hnone, hsome⟩
  have hwritten : (r.step a).watch.written = r.watch.written ++ done.filterMap Deed.line? := by
    simp [Record.step, Watch.step, Watch.written, hdeeds]
  have hupdated : (r.step a).watch.updated = r.watch.updated ++ done.filterMap Deed.update? := by
    simp [Record.step, Watch.step, Watch.updated, hdeeds]
  have hrest : (r.watch.act a).run.engine ≠ none →
      (r.step a).lines ++ (r.watch.act a).run.queuedLines = (r.step a).watch.written ∧
        (r.step a).updates ++ (r.watch.act a).run.queuedUpdates = (r.step a).watch.updated := by
    intro hengine
    rcases Option.ne_none_iff_exists'.mp hengine with ⟨e, he⟩
    rcases h.rest_of_engine hhonest he with ⟨hlines, hupdates⟩
    rcases hsome hengine with ⟨hlines', hupdates'⟩
    constructor
    · rw [hwritten, Record.step, List.append_assoc, hlines', ← List.append_assoc, hlines]
    · rw [hupdated, Record.step, List.append_assoc, hupdates', ← List.append_assoc, hupdates]
  refine ⟨?_, ?_, ?_, hrest⟩
  · change (r.watch.act a).run.known = _
    rw [hdelivers.known, h.known, Record.step, Dictionary.insertAll_append]
  · by_cases hengine : (r.watch.act a).run.engine = none
    · rw [hwritten, Record.step, (hnone hengine).2.1, List.append_nil]
      exact h.lines.trans (List.prefix_append _ _)
    · exact ⟨_, (hrest hengine).1⟩
  · by_cases hengine : (r.watch.act a).run.engine = none
    · rw [hupdated, Record.step, (hnone hengine).2.2, List.append_nil]
      exact h.updates.trans (List.prefix_append _ _)
    · exact ⟨_, (hrest hengine).2⟩

theorem delivered_perform (delay : Nat) (acts : List Act) :
    ((new delay).perform acts).Delivered := by
  apply always (delivered_new delay)
  intro r a acts hwatch hr
  have hhonest := Watch.honest_perform delay acts
  have hstaged := (Watch.orderly_perform delay acts).staged
  rw [← hwatch] at hhonest hstaged
  exact hr.step hhonest hstaged a

end Record
end Blockwise
