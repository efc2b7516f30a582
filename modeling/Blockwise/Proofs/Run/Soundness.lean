import Blockwise.Proofs.Evaluation.Soundness
import Blockwise.Proofs.Program.Exactness
import Blockwise.Proofs.Run.Watch

/-!
# Type soundness of runs

A run keeps its variables written from its start on, whatever its supervisor does, and a decision
that did not fail has a value that decides.
-/

namespace Blockwise

open Evaluation (Interruptible)

namespace Store

theorem written_of_mem {store : Store} (h : store.Written) {update : String × Value}
    (hmem : update ∈ store.entries) : update.2.Written :=
  h update.1 update.2 (Dictionary.get?_of_mem hmem)

theorem written_insertAll {store : Store} (h : store.Written) {updates : List (String × Value)}
    (hupdates : ∀ update ∈ updates, update.2.Written) :
    Store.Written (Dictionary.insertAll store updates) := by
  unfold Dictionary.insertAll
  induction updates generalizing store with
  | nil => exact h
  | cons update rest ih =>
      apply ih (written_insert h update.1 (hupdates update List.mem_cons_self))
      intro other hother
      exact hupdates other (List.mem_cons_of_mem _ hother)

end Store

/-!
# Steps of a program

A step of a built program has an outcome of its own: no failure to cast, and where there are two
ways to go on, something to choose by.  So a value that is no failure leads to one of the targets.
-/

namespace Step

/-- What a step of a built program evaluates to: no failure to cast, and where there are two ways
to go on, something to choose by. -/
def Outcome (step : Step) (value : Value) : Prop :=
  value.Uncast ∧ ∀ onTrue onFalse, step.successor = .branch onTrue onFalse → value ≠ .empty

theorem Outcome.toBoolean {step : Step} {value : Value} (h : step.Outcome value)
    (herror : value.isError = false) {onTrue onFalse : BlockId}
    (hbranch : step.successor = .branch onTrue onFalse) :
    ∃ b, value.toBoolean = .boolean b := by
  cases value with
  | empty => exact absurd rfl (h.2 onTrue onFalse hbranch)
  | number x => exact ⟨_, rfl⟩
  | string s => exact ⟨_, rfl⟩
  | boolean b => exact ⟨_, rfl⟩
  | error fault => cases herror

theorem Outcome.ofChoice {step : Step} {value : Value} (h : step.Outcome value)
    (herror : value.isError = false) :
    ∃ target ∈ step.successor.targets, Phase.ofChoice step.successor value = .moving target := by
  cases hsuccessor : step.successor with
  | next target => exact ⟨target, List.mem_singleton.mpr rfl, rfl⟩
  | branch onTrue onFalse =>
      rcases h.toBoolean herror hsuccessor with ⟨b, hb⟩
      cases b with
      | true => exact ⟨onTrue, by simp [Successor.targets], by simp [Phase.ofChoice, hb]⟩
      | false => exact ⟨onFalse, by simp [Successor.targets], by simp [Phase.ofChoice, hb]⟩

end Step

theorem BlockKind.role_of_branch {kind : BlockKind} {onTrue onFalse : BlockId}
    (h : kind.links = [some onTrue, some onFalse]) : kind.role = .decision := by
  cases kind with
  | decision _ _ => rfl
  | _ => simp [links] at h

theorem Program.sound_of_get? {chart : Chart} {program : Program}
    (hbuild : Program.build chart = .ok program) {id : BlockId} {step : Step}
    (h : program.get? id = some step) : Evaluation.Sound step.Outcome step.tree.evaluate := by
  rcases Program.block_of_get? hbuild h with ⟨b, _, _, _, hcompile, hlinks⟩
  apply Evaluation.Keeps.mono (Tree.shaped_of_ofSource hcompile).sound
  intro value hvalue
  refine ⟨hvalue.1, ?_⟩
  intro onTrue onFalse hbranch
  rw [hbranch] at hlinks
  exact hvalue.2 (BlockKind.role_of_branch hlinks)

/-!
# The worker

What the worker holds is sound, and so will be what it is about to evaluate.
-/

def Talk.Sound (step : Step) (talk : Talk) : Prop :=
  talk.Ensures Interruptible fun r => step.Outcome r.1 ∧ r.2.Written

namespace Phase

/-- What the worker holds is sound, and so will be what it is about to evaluate. -/
def Sound : Phase → Prop
  | checking step => Evaluation.Sound step.Outcome step.tree.evaluate
  | talking step talk => Talk.Sound step talk
  | waiting step _ next => ∀ answer, Interruptible answer → Talk.Sound step (next answer)
  | answering step talk => Talk.Sound step talk
  | publishing step value rest =>
      (value.isError = false ∧ step.Outcome value) ∧ ∀ update ∈ rest, update.2.Written
  | phase => ∀ step value, phase.departing? = some (step, value) →
      value.isError = false ∧ step.Outcome value

theorem Sound.departing {phase : Phase} (h : phase.Sound) {step : Step} {value : Value}
    (hdone : phase.departing? = some (step, value)) :
    value.isError = false ∧ step.Outcome value := by
  cases phase with
  | publishing _ _ _ =>
      cases hdone
      exact h.1
  | timing _ _ | pacing _ _ _ | holding _ _ | held _ _ | stepping _ _ | leaving _ _ =>
      exact h step value hdone
  | _ => cases hdone

theorem sound_ofFault (fault : Fault) : (ofFault fault).Sound := by
  unfold ofFault
  split
  all_goals
    intro _ _ h
    cases h

end Phase

namespace Deed

def Sound : Deed → Prop
  | updated update => update.2.Written
  | failed _ fault => fault.message ≠ Fault.castKey
  | _ => True

end Deed

namespace Engine

structure Sound (e : Engine) : Prop where
  steps : ∀ id step, e.program.get? id = some step →
    Evaluation.Sound step.Outcome step.tree.evaluate
  store : e.store.Written
  phase : e.phase.Sound
  updates : ∀ update ∈ e.wires.updates.toList, update.2.Written

theorem sound_new {chart : Chart} {program : Program}
    (hbuild : Program.build chart = .ok program) : (Engine.new program).Sound where
  steps := fun _ _ hget => Program.sound_of_get? hbuild hget
  store := Store.written_empty
  phase := by
    intro _ _ h
    cases h
  updates := by
    intro _ h
    cases h

variable {chance : Chance} {s s' : Signals} {e e' : Engine} {done : List Deed}

theorem Steps.sound_phase (h : Steps chance s e s' e' done) (he : e.Sound) : e'.phase.Sound := by
  have hphase := he.phase
  cases h with
  | arrive _ hget => exact he.steps _ _ hget
  | begin hcheck _ =>
      rw [hcheck] at hphase
      exact hphase e.store he.store
  | fail _ => exact Phase.sound_ofFault _
  | @leave step value store htalk herror =>
      rw [htalk] at hphase
      refine ⟨⟨herror, hphase.1⟩, ?_⟩
      intro update hupdate
      exact Store.written_of_mem hphase.2 ((chance.listing_perm store).mem_iff.mp hupdate)
  | write htalk =>
      rw [htalk] at hphase
      exact hphase
  | ask htalk =>
      rw [htalk] at hphase
      exact hphase
  | look hwait =>
      rw [hwait] at hphase
      exact hphase
  | interrupt hwait _ =>
      rw [hwait] at hphase
      exact hphase _ rfl
  | take hwait _ =>
      rw [hwait] at hphase
      exact hphase _ trivial
  | answer htalk =>
      rw [htalk] at hphase
      exact hphase
  | publish hdone =>
      rw [hdone] at hphase
      exact ⟨hphase.1, fun update hupdate => hphase.2 update (List.mem_cons_of_mem _ hupdate)⟩
  | doze _ _ | rest _ => exact hphase
  | listed hdone | time hdone | wake hdone _ | hold hdone _ | pass hdone _ | stay hdone _
  | grant hdone _ | deny hdone _ =>
      intro _ _ h
      cases h
      exact hphase.departing (departing_of hdone rfl)
  | enter _ | finish _ _ | obey _ _ | choose _ _ _ | balk _ _ _ | lapse _ _ _ | move _ | raise _
  | report _ | quit _ =>
      intro _ _ h
      cases h

theorem Steps.sound_store (h : Steps chance s e s' e' done) (he : e.Sound) :
    e'.store.Written := by
  have hphase := he.phase
  cases h with
  | leave htalk _ =>
      rw [htalk] at hphase
      exact hphase.2
  | _ => exact he.store

theorem Steps.sound_updates (h : Steps chance s e s' e' done) (he : e.Sound) :
    ∀ update ∈ e'.wires.updates.toList, update.2.Written := by
  have hphase := he.phase
  cases h with
  | publish hdone =>
      rw [hdone] at hphase
      intro other hother
      rw [Channel.toList_send] at hother
      rcases List.mem_append.mp hother with hold | hnew
      · exact he.updates other hold
      · rw [List.mem_singleton.mp hnew]
        exact hphase.2 _ List.mem_cons_self
  | _ => exact he.updates

theorem Steps.sound (h : Steps chance s e s' e' done) (he : e.Sound) : e'.Sound where
  steps := by
    rw [h.program]
    exact he.steps
  store := h.sound_store he
  phase := h.sound_phase he
  updates := h.sound_updates he

theorem Sound.ofChoice (h : e.Sound) {step : Step} {value : Value}
    (hphase : e.phase = .leaving step value) :
    ∃ target ∈ step.successor.targets, Phase.ofChoice step.successor value = .moving target := by
  rcases h.phase.departing (departing_of hphase rfl) with ⟨herror, houtcome⟩
  exact houtcome.ofChoice herror

theorem Steps.sound_deeds (h : Steps chance s e s' e' done) (he : e.Sound) :
    ∀ deed ∈ done, deed.Sound := by
  have hphase := he.phase
  intro deed hdeed
  cases h with
  | fail htalk =>
      rw [htalk] at hphase
      rw [List.mem_singleton.mp hdeed]
      exact hphase.1.1 _ rfl
  | publish hdone =>
      rw [hdone] at hphase
      rw [List.mem_singleton.mp hdeed]
      exact hphase.2 _ List.mem_cons_self
  | balk hleave _ hchoice =>
      rcases he.ofChoice hleave with ⟨target, _, hmoving⟩
      rw [hmoving] at hchoice
      cases hchoice
  | begin _ _ | write _ | move _ | report _ =>
      rw [List.mem_singleton.mp hdeed]
      trivial
  | _ => cases hdeed

end Engine

/-!
# Whole runs

What was told of a variable is written, and no block failed to cast.  The run of the example comes
back to a decision once, after it has made it false.
-/

namespace Watch

variable {w w' : Watch} {a : Act}

structure Sound (w : Watch) : Prop where
  engine : ∀ e, w.run.engine = some e → e.Sound
  known : Store.Written w.run.known
  deeds : ∀ deed ∈ w.deeds, deed.Sound

theorem sound_new (delay : Nat) : (new delay).Sound where
  engine := by
    intro e h
    cases h
  known := Store.written_empty
  deeds := by
    intro deed h
    cases h

theorem Happens.sound_engine (h : Happens w a w') (hw : w.Sound) :
    ∀ e, w'.run.engine = some e → e.Sound := by
  intro e' he'
  cases h.succeeds he' with
  | stepped _ hengine hsteps => exact hsteps.sound (hw.engine _ hengine)
  | started _ hbuild _ _ => exact Engine.sound_new hbuild
  | stayed hengine htold _ _ =>
      have he := hw.engine _ hengine
      refine ⟨he.steps, he.store, he.phase, ?_⟩
      intro update hupdate
      apply he.updates
      rw [htold]
      exact List.mem_append_right _ hupdate

theorem Happens.sound (h : Happens w a w') (hw : w.Sound) : w'.Sound := by
  have hengines := h.sound_engine hw
  cases h with
  | work hengine hsteps =>
      refine ⟨hengines, hw.known, ?_⟩
      intro deed hdeed
      rcases List.mem_append.mp hdeed with hold | hnew
      · exact hw.deeds deed hold
      · exact hsteps.sound_deeds (hw.engine _ hengine) deed hnew
  | serve _ hengine _ _ htold =>
      refine ⟨hengines, ?_, hw.deeds⟩
      apply Store.written_insertAll hw.known
      intro update hupdate
      apply (hw.engine _ hengine).updates
      rw [htold]
      exact List.mem_append_left _ hupdate
  | _ => exact ⟨hengines, hw.known, hw.deeds⟩

theorem sound_step (w : Watch) (a : Act) (hw : w.Sound) : (w.step a).Sound := by
  have hact := (happens_act w a).sound hw
  exact ⟨hact.engine, hact.known, hact.deeds⟩

theorem sound_perform (delay : Nat) (acts : List Act) : ((new delay).perform acts).Sound :=
  always sound_new sound_step delay acts

end Watch

theorem Engine.Sound.step_of_leaving {e : Engine} (h : e.Sound) {step : Step} {value : Value}
    {onTrue onFalse : BlockId} (hphase : e.phase = .leaving step value)
    (hbranch : step.successor = .branch onTrue onFalse) (chance : Chance) {s : Signals}
    (hcancelled : s.cancelled = false) :
    ∃ b, value.toBoolean = .boolean b ∧
      (e.step chance s).2.phase = .moving (if b then onTrue else onFalse) := by
  rcases h.phase.departing (departing_of hphase rfl) with ⟨herror, houtcome⟩
  rcases houtcome.toBoolean herror hbranch with ⟨b, hb⟩
  refine ⟨b, hb, ?_⟩
  cases b with
  | true => simp [Engine.step, hphase, hcancelled, hbranch, Phase.ofChoice, hb, Engine.go]
  | false => simp [Engine.step, hphase, hcancelled, hbranch, Phase.ofChoice, hb, Engine.go]

namespace Watch

/-- The evaluation of a compiled source keeps the variables written, even where it fails; it
never fails to cast, and that of a decision has a value.  Hence in every run, however it is
supervised, the variables are written and so is what is told of them, no block fails to cast, and
a decision that did not fail goes on to one of its two branches. -/
theorem variables_stay_written :
    (∀ (role : Role) (source : String) (tree : Tree), Tree.ofSource role source = .ok tree →
      ∀ store : Store, store.Written →
        (tree.evaluate store).Ensures Interruptible fun r =>
          r.2.Written ∧ (∀ fault, r.1 = .error fault → fault.message ≠ Fault.castKey) ∧
            (role = .decision → r.1 ≠ .empty)) ∧
    ∀ (delay : Nat) (acts : List Act),
      let w := (new delay).perform acts
      Store.Written w.run.known ∧
      (∀ update, .updated update ∈ w.deeds → update.2.Written) ∧
      (∀ block fault, .failed block fault ∈ w.deeds → fault.message ≠ Fault.castKey) ∧
      ∀ e, w.run.engine = some e →
        e.store.Written ∧
        (∀ step talk, e.phase = .talking step talk →
          talk.Ensures Interruptible fun r => r.2.Written) ∧
        ∀ step value onTrue onFalse, e.phase = .leaving step value →
          step.successor = .branch onTrue onFalse → w.run.signals.cancelled = false →
          ∀ chance, ∃ b, value.toBoolean = .boolean b ∧
            (e.step chance w.run.signals).2.phase = .moving (if b then onTrue else onFalse) := by
  constructor
  · intro role source tree hsource store hstore
    apply Dialogue.Ensures.mono ((Tree.shaped_of_ofSource hsource).sound store hstore)
    intro r hr
    exact ⟨hr.2, hr.1⟩
  · intro delay acts w
    have hw : w.Sound := sound_perform delay acts
    refine ⟨hw.known, fun update h => hw.deeds _ h, fun block fault h => hw.deeds _ h, ?_⟩
    intro e hengine
    have he := hw.engine e hengine
    refine ⟨he.store, ?_, ?_⟩
    · intro step talk hphase
      have htalk := he.phase
      rw [hphase] at htalk
      exact Dialogue.Ensures.mono htalk fun r hr => hr.2
    · intro step value onTrue onFalse hphase hbranch hcancelled chance
      exact he.step_of_leaving hphase hbranch chance hcancelled

def toggle : Chart where
  start := ⟨0⟩
  blocks :=
    [⟨⟨0⟩, "", .start (some ⟨1⟩)⟩, ⟨⟨1⟩, "again = true", .declaration (some ⟨2⟩)⟩,
      ⟨⟨2⟩, "again", .decision (some ⟨3⟩) (some ⟨4⟩)⟩,
      ⟨⟨3⟩, "again = false", .assignment (some ⟨2⟩)⟩, ⟨⟨4⟩, "", .finish⟩]

def toggleActs : List Act :=
  .call (.start toggle) :: List.replicate 39 (.work (.inOrder true))

theorem variables_stay_written_toggle :
    (Tree.evaluate (.get "again") (Dictionary.insert ∅ "again" (.boolean true))).Ensures
        Interruptible (fun r => r.1 ≠ .empty) ∧
      ∃ e, ((new 0).perform toggleActs).run.engine = some e ∧
        e.phase = .leaving ⟨.get "again", .branch ⟨3⟩ ⟨4⟩⟩ (.boolean false) ∧
        e.store.Written ∧
        (e.step (.inOrder true) ((new 0).perform toggleActs).run.signals).2.phase =
          .moving ⟨4⟩ := by
  rcases variables_stay_written with ⟨hevaluation, hrun⟩
  have hsource : Tree.ofSource .decision "again" = .ok (.get "again") := by cbv
  have hphase : ((new 0).perform toggleActs).run.engine.map Engine.phase =
      some (.leaving ⟨.get "again", .branch ⟨3⟩ ⟨4⟩⟩ (.boolean false)) := by cbv
  have hcancelled : ((new 0).perform toggleActs).run.signals.cancelled = false := by cbv
  constructor
  · have hstore := Store.written_insert Store.written_empty "again" (.boolean true)
    exact Dialogue.Ensures.mono (hevaluation _ _ _ hsource _ hstore) fun r hr => hr.2.2 rfl
  · rcases Option.map_eq_some_iff.mp hphase with ⟨e, hengine, hleaving⟩
    rcases (hrun 0 toggleActs).2.2.2 e hengine with ⟨hwritten, _, hdecision⟩
    rcases hdecision _ _ _ _ hleaving rfl hcancelled (.inOrder true) with ⟨b, hb, hmoving⟩
    cases hb
    exact ⟨e, hengine, hleaving, hwritten, hmoving⟩

end Watch
end Blockwise
