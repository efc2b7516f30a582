import Blockwise.Proofs.Evaluation.Names
import Blockwise.Proofs.Run.Delivery

/-!
# What a supervisor knows of the variables

After each block the worker sends all variables, in some order.  No variable is ever lost, so the
updates that were sent since the start, the later ones over the earlier, are the variables as they
were last sent in full, however many batches they were taken in.
-/

namespace Blockwise

namespace Phase

def unsent : Phase → List (String × Value)
  | publishing _ _ rest => rest
  | _ => []

def isPublishing : Phase → Bool
  | publishing _ _ _ => true
  | _ => false

theorem unsent_of_isPublishing {phase : Phase} (h : phase.isPublishing = false) :
    phase.unsent = [] := by
  cases phase <;> first | rfl | cases h

theorem isPublishing_ofFault (fault : Fault) : (ofFault fault).isPublishing = false := by
  unfold ofFault
  split <;> rfl

end Phase

def Talk.Grows (store : Store) (talk : Talk) : Prop :=
  talk.Ensures (fun _ => True) fun r =>
    ∀ name, store.contains name = true → r.2.contains name = true

namespace Phase

def Grows (store : Store) : Phase → Prop
  | talking _ talk => Talk.Grows store talk
  | waiting _ _ next => ∀ answer, Talk.Grows store (next answer)
  | answering _ talk => Talk.Grows store talk
  | _ => True

theorem grows_ofFault (store : Store) (fault : Fault) : (ofFault fault).Grows store := by
  unfold ofFault
  split <;> trivial

end Phase

/-!
# The worker

What was sent and what is left to send make up the store.  No evaluation loses a variable of it.
-/

/-- What was sent and what is left to send make up the store, and what was published in full is
the store unless it is just being published. -/
structure Mirrored (store : Store) (phase : Phase) (sent : List (String × Value))
    (computed published : Store) : Prop where
  computed : store = computed
  sent : (Dictionary.insertAll ∅ sent).insertAll phase.unsent = store
  published : phase.isPublishing = false → store = published
  grows : phase.Grows store

namespace Mirrored

variable {store computed published : Store} {phase phase' : Phase} {sent : List (String × Value)}
  {done : List Deed}

theorem entering : Mirrored ∅ .entering [] ∅ ∅ where
  computed := rfl
  sent := rfl
  published := fun _ => rfl
  grows := trivial

theorem go (h : Mirrored store phase sent computed published)
    (hbefore : phase.isPublishing = false) (hcomputed : phase.computed? = none)
    (hdone : done.filterMap Deed.update? = []) (hafter : phase'.isPublishing = false)
    (hgrows : phase'.Grows store) :
    Mirrored store phase' (sent ++ done.filterMap Deed.update?) (phase.computed?.getD computed)
      ((phase.published? store).getD published) := by
  have hsent := h.sent
  have hpublished : phase.published? store = none := by
    cases phase <;> first | rfl | cases hbefore
  rw [Phase.unsent_of_isPublishing hbefore] at hsent
  rw [hdone, List.append_nil, hcomputed, hpublished]
  refine ⟨h.computed, ?_, fun _ => h.published hbefore, hgrows⟩
  rw [Phase.unsent_of_isPublishing hafter]
  exact hsent

end Mirrored

namespace Engine

variable {chance : Chance} {s s' : Signals} {e e' : Engine} {done : List Deed}
  {sent : List (String × Value)} {computed published : Store}

theorem Steps.mirrored (h : Steps chance s e s' e' done)
    (he : Mirrored e.store e.phase sent computed published) :
    Mirrored e'.store e'.phase (sent ++ done.filterMap Deed.update?)
      (e.phase.computed?.getD computed) ((e.phase.published? e.store).getD published) := by
  have hgrows := he.grows
  cases h with
  | enter hphase | arrive hphase _ | finish hphase _ | time hphase | wake hphase _
  | hold hphase _ | pass hphase _ | stay hphase _ | grant hphase _ | deny hphase _
  | choose hphase _ _ | balk hphase _ _ | lapse hphase _ _ | move hphase | raise hphase
  | report hphase | quit hphase | doze hphase _ | rest hphase =>
      rw [hphase] at he ⊢
      exact he.go rfl rfl rfl rfl trivial
  | obey hcheck _ =>
      refine he.go ?_ ?_ rfl rfl trivial
      · cases hphase : e.phase <;> first | rfl | (rw [hphase] at hcheck; cases hcheck)
      · cases hphase : e.phase <;> first | rfl | (rw [hphase] at hcheck; cases hcheck)
  | @begin step hphase _ =>
      rw [hphase] at he ⊢
      exact he.go rfl rfl rfl rfl (step.tree.names_stay e.store)
  | @fail step fault store hphase =>
      rw [hphase] at he ⊢
      have hfault := Phase.isPublishing_ofFault fault
      exact he.go rfl rfl rfl hfault (Phase.grows_ofFault _ fault)
  | write hphase =>
      rw [hphase] at he hgrows ⊢
      exact he.go rfl rfl rfl rfl hgrows
  | ask hphase =>
      rw [hphase] at he hgrows ⊢
      exact he.go rfl rfl rfl rfl fun answer => hgrows answer trivial
  | look hphase =>
      rw [hphase] at he hgrows ⊢
      exact he.go rfl rfl rfl rfl hgrows
  | interrupt hphase _ =>
      rw [hphase] at he hgrows ⊢
      exact he.go rfl rfl rfl rfl (hgrows _)
  | take hphase _ =>
      rw [hphase] at he hgrows ⊢
      exact he.go rfl rfl rfl rfl (hgrows _)
  | answer hphase =>
      rw [hphase] at he hgrows ⊢
      exact he.go rfl rfl rfl rfl hgrows
  | @leave step value store hphase hvalue =>
      have hsent := he.sent
      rw [hphase] at hsent hgrows ⊢
      have hcomputed : (Phase.talking step (.done (value, store))).computed? = some store := by
        simp [Phase.computed?, hvalue]
      rw [hcomputed]
      refine ⟨rfl, ?_, nofun, trivial⟩
      -- the names that were sent are those of the store before, so they are in the new one
      have hnames : ∀ name, Dictionary.contains (Dictionary.insertAll ∅ sent) name = true →
          Dictionary.contains store name = true := by
        intro name hname
        apply hgrows
        rw [← hsent]
        exact hname
      change (Dictionary.insertAll ∅ (sent ++ [])).insertAll (chance.listing store) = store
      rw [List.append_nil]
      exact Dictionary.insertAll_listing (chance.listing_perm store) hnames
  | @publish step value update rest hphase =>
      have hsent := he.sent
      rw [hphase] at hsent ⊢
      refine ⟨he.computed, ?_, nofun, trivial⟩
      change (Dictionary.insertAll ∅ (sent ++ [update])).insertAll rest = e.store
      rw [Dictionary.insertAll_append]
      exact hsent
  | @listed step value hphase =>
      have hsent := he.sent
      rw [hphase] at hsent ⊢
      refine ⟨he.computed, ?_, fun _ => rfl, trivial⟩
      change (Dictionary.insertAll ∅ (sent ++ [])).insertAll [] = e.store
      rw [List.append_nil]
      exact hsent

end Engine

/-!
# Whole runs

Only the worker changes the store, and only it sends updates.
-/

namespace Watch

variable {w w' : Watch} {a : Act}

theorem Happens.idle_of_idle (h : Happens w a w') (hidle : w'.run.stage = .idle) :
    w.run.stage = .idle := by
  cases h with
  | launch _ _ _ | refuse _ _ _ => cases hidle
  | close _ _ =>
      rcases Run.exists_stage_close w.run _ with ⟨given, hstopped⟩
      cases hidle.symm.trans hstopped
  | _ => exact hidle

end Watch

namespace Record

variable {r : Record} {acts : List Act} {a : Act}

structure Mirrors (r : Record) : Prop where
  idle : r.watch.run.stage = .idle → r.computed = ∅ ∧ r.published = ∅
  live : ∀ e, r.watch.run.engine = some e →
    Mirrored e.store e.phase r.watch.updated r.computed r.published

theorem mirrors_new (delay : Nat) : (new delay).Mirrors where
  idle := fun _ => ⟨rfl, rfl⟩
  live := by
    intro e he
    cases he

theorem Mirrors.work (h : r.Mirrors) (hstaged : r.watch.run.Staged) (chance : Chance) :
    (r.step (.work chance)).Mirrors := by
  cases hengine : r.watch.run.engine with
  | none =>
      have hact : r.watch.act (.work chance) = r.watch := by
        simp [Watch.act, Run.work, Watch.doneBetween, hengine]
      have hcomputed : (r.step (.work chance)).computed = r.computed := by
        simp [step, Watch.computedBy?, hengine]
      have hpublished : (r.step (.work chance)).published = r.published := by
        simp [step, Watch.publishedBy?, hengine]
      have hwatch : (r.step (.work chance)).watch = r.watch.note := by
        rw [step, Watch.step, hact]
      constructor
      · rw [hwatch, hcomputed, hpublished]
        exact h.idle
      · rw [hwatch, hcomputed, hpublished]
        exact h.live
  | some e =>
      have hmirrored := (e.steps_step chance r.watch.run.signals).mirrored (h.live e hengine)
      constructor
      · intro hidle
        have hbefore := (Watch.happens_act r.watch (.work chance)).idle_of_idle hidle
        cases hbefore.symm.trans (hstaged.running_of_engine hengine)
      · intro e' he'
        change (r.watch.act (.work chance)).run.engine = some e' at he'
        rw [Watch.act_work hengine] at he'
        cases he'
        simpa [step, Watch.step, Watch.act_work hengine, Watch.updated, Watch.computedBy?,
          Watch.publishedBy?, hengine] using hmirrored

theorem Mirrors.supervise (h : r.Mirrors) (hhonest : r.watch.Honest acts)
    (hcomputed : r.watch.computedBy? a = none) (hpublished : r.watch.publishedBy? a = none)
    (ha : ∀ chance, a ≠ .work chance) : (r.step a).Mirrors := by
  have hact := Watch.happens_act r.watch a
  have hcomputed' : (r.step a).computed = r.computed := by rw [step, hcomputed]; rfl
  have hpublished' : (r.step a).published = r.published := by rw [step, hpublished]; rfl
  constructor
  · intro hidle
    rw [hcomputed', hpublished']
    exact h.idle (hact.idle_of_idle hidle)
  · intro e he
    rw [hcomputed', hpublished']
    change (r.watch.act a).run.engine = some e at he
    change Mirrored e.store e.phase (r.watch.act a).updated r.computed r.published
    rw [Watch.updated]
    cases hact.succeeds he with
    | stepped hwork _ _ => exact absurd hwork (ha _)
    | started hidle _ _ hdeeds =>
        rcases h.idle hidle with ⟨hnothing, hnone⟩
        rw [hdeeds, (hhonest.idle hidle).1, hnothing, hnone]
        exact Mirrored.entering
    | @stayed e _ _ hengine _ _ hdeeds =>
        rw [hdeeds]
        exact h.live e hengine

theorem mirrors_perform (delay : Nat) (acts : List Act) : ((new delay).perform acts).Mirrors := by
  apply always (mirrors_new delay)
  intro r a acts hwatch hr
  have hhonest := Watch.honest_perform delay acts
  have hstaged := (Watch.orderly_perform delay acts).staged
  rw [← hwatch] at hhonest hstaged
  cases a with
  | work chance => exact hr.work hstaged chance
  | call call => exact hr.supervise hhonest rfl rfl (fun _ => nofun)
  | proceed => exact hr.supervise hhonest rfl rfl (fun _ => nofun)

/-- At any moment, what is known of the variables is the updates that were taken, in the order in
which they were sent, the later ones over the earlier.  While there is a worker and nothing is
queued, and the worker is not publishing, that is the store as it was last published, and this is
the store after the last block that was evaluated without an error. -/
theorem known_follows_store (delay : Nat) (acts : List Act) :
    let r := (new delay).perform acts
    r.watch = (Watch.new delay).perform acts ∧
    r.updates <+: r.watch.updated ∧
    r.watch.run.known = Dictionary.insertAll ∅ r.updates ∧
    ∀ e, r.watch.run.engine = some e →
      r.updates ++ e.wires.updates.toList = r.watch.updated ∧
      (e.wires.updates.toList = [] → e.phase.isPublishing = false →
        r.watch.run.known = r.published ∧ r.published = r.computed) := by
  intro r
  have hdelivered : r.Delivered := delivered_perform delay acts
  have hmirrors : r.Mirrors := mirrors_perform delay acts
  refine ⟨watch_perform _ acts, hdelivered.updates, hdelivered.known, ?_⟩
  intro e hengine
  have hrest := (hdelivered.rest (by simp [hengine])).2
  rw [Run.queuedUpdates_of_some hengine] at hrest
  refine ⟨hrest, ?_⟩
  intro hempty hphase
  have hlive := hmirrors.live e hengine
  have hsent := hlive.sent
  rw [Phase.unsent_of_isPublishing hphase, ← hrest, hempty, List.append_nil] at hsent
  have hknown : r.watch.run.known = e.store := hdelivered.known.trans hsent
  have hpublished := hlive.published hphase
  exact ⟨hknown.trans hpublished, hpublished.symm.trans hlive.computed⟩

def recount : Chart where
  start := ⟨0⟩
  blocks :=
    [⟨⟨0⟩, "", .start (some ⟨1⟩)⟩, ⟨⟨1⟩, "n = true", .declaration (some ⟨2⟩)⟩,
      ⟨⟨2⟩, "n = false", .assignment (some ⟨3⟩)⟩, ⟨⟨3⟩, "", .finish⟩]

def recountActs : List Act :=
  .call (.start recount) :: List.replicate 17 (.work (.inOrder true)) ++ [.call .drainUpdates]

theorem known_follows_store_recount :
    let r := (new 0).perform recountActs
    (∃ e, r.watch.run.engine = some e ∧ e.wires.updates.toList = [] ∧
      e.phase.isPublishing = false) ∧
    r.updates.map Prod.fst = ["n", "n"] ∧
    r.watch.run.known = r.published ∧ r.published = r.computed ∧
    r.watch.run.known.get? "n" = some (.boolean false) := by
  intro r
  have hrun : (r.watch.run.engine.map (fun e => (e.wires.updates.toList, e.phase.isPublishing)),
      r.updates.map Prod.fst, r.watch.run.known.get? "n") =
        (some ([], false), ["n", "n"], some (.boolean false)) := by cbv
  simp only [Prod.mk.injEq, Option.map_eq_some_iff] at hrun
  rcases hrun with ⟨⟨e, hengine, hempty, hsettled⟩, hnames, hvalue⟩
  rcases (known_follows_store 0 recountActs).2.2.2 e hengine with ⟨_, hknown⟩
  rcases hknown hempty hsettled with ⟨hpublished, hcomputed⟩
  exact ⟨⟨e, hengine, hempty, hsettled⟩, hnames, hpublished, hcomputed, hvalue⟩

end Record
end Blockwise
