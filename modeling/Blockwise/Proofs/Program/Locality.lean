import Blockwise.Proofs.Chart.Editing
import Blockwise.Proofs.Program.Exactness

/-!
# What a build depends on

A build looks at START and at the blocks that links reach from there, whether or not a link leads
to a block.  Two charts that agree on these build alike: both walks find the same blocks in the
same order, and so the same steps or the same failures.  It does not matter in which order the
blocks stand, nor what else the charts hold.
-/

namespace Blockwise
namespace Chart

variable {chart chart' : Chart} {entry id : BlockId} {b : Block}

/-!
# Links that reach on

A closed set that holds the entry holds all that links reach from there.
-/

theorem Linked.mem_closed (closed : BlockId → Prop) (hentry : closed entry)
    (hlinks : ∀ i b, closed i → chart.get? i = some b →
      ∀ target, some target ∈ b.kind.links → closed target)
    (h : chart.Linked entry id) : closed id := by
  induction h with
  | entry => exact hentry
  | link _ hget hlink ih => exact hlinks _ _ ih hget _ hlink

theorem Linked.trans {first : BlockId} (hentry : chart.Linked first entry)
    (h : chart.Linked entry id) : chart.Linked first id :=
  h.mem_closed (chart.Linked first) hentry fun _ _ hi hget _ hlink => Linked.link hi hget hlink

/-- The second chart starts where the first one does, and finds the same block, or none, for
every id within reach of the first. -/
structure Agrees (chart chart' : Chart) : Prop where
  start : chart'.start = chart.start
  get? : ∀ id, chart.Linked chart.start id → chart'.get? id = chart.get? id

namespace Agrees

/-!
# Single blocks

The links of a block within reach lead to blocks in both charts, or in neither.
-/

theorem has (h : Agrees chart chart') (hid : chart.Linked chart.start id) :
    chart'.has id = chart.has id := by
  unfold Chart.has
  rw [h.get? id hid]

theorem resolves (h : Agrees chart chart') (hid : chart.Linked chart.start id)
    (hget : chart.get? id = some b) :
    ∀ link ∈ b.kind.links, chart'.resolves link = chart.resolves link := by
  intro link hlink
  cases link with
  | none => rfl
  | some target => exact h.has (Linked.link hid hget hlink)

theorem linkErrors (h : Agrees chart chart') (hid : chart.Linked chart.start id)
    (hget : chart.get? id = some b) : chart'.linkErrors b = chart.linkErrors b := by
  unfold Chart.linkErrors
  rw [List.filter_congr]
  intro link hlink
  rw [h.resolves hid hget link hlink]

theorem successor? (h : Agrees chart chart') (hid : chart.Linked chart.start id)
    (hget : chart.get? id = some b) : chart'.successor? b = chart.successor? b := by
  have hall : b.kind.links.all chart'.resolves = b.kind.links.all chart.resolves := by
    rw [Bool.eq_iff_iff, List.all_eq_true, List.all_eq_true]
    exact forall₂_congr fun link hlink => by rw [h.resolves hid hget link hlink]
  unfold Chart.successor?
  rw [hall]

theorem targets (h : Agrees chart chart') (hid : chart.Linked chart.start id)
    (hget : chart.get? id = some b) : chart'.targets b = chart.targets b := by
  unfold Chart.targets
  rw [h.successor? hid hget]

theorem step? (h : Agrees chart chart') (hid : chart.Linked chart.start id)
    (hget : chart.get? id = some b) : chart'.step? b = chart.step? b := by
  unfold Chart.step?
  rw [h.successor? hid hget]

end Agrees

/-!
# Walks in step

What is found among the targets of a block depends on which of them are unseen, and not on the other
unseen ids.  So two walks stay in step as long as they have not seen the same blocks within reach.
-/

theorem found_discover_congr {unseen unseen' targets : List BlockId}
    (h : ∀ i ∈ targets, i ∈ unseen' ↔ i ∈ unseen) :
    (discover unseen' targets).1 = (discover unseen targets).1 := by
  induction targets generalizing unseen unseen' with
  | nil => rfl
  | cons target rest ih =>
      have hrest : ∀ i ∈ rest, i ∈ unseen' ↔ i ∈ unseen :=
        fun i hi => h i (List.mem_cons_of_mem target hi)
      unfold discover
      by_cases hmem : target ∈ unseen
      · rw [if_pos hmem, if_pos ((h target List.mem_cons_self).mpr hmem)]
        have hleft : ∀ i ∈ rest,
            i ∈ unseen'.filter (· ≠ target) ↔ i ∈ unseen.filter (· ≠ target) := by
          intro i hi
          rw [List.mem_filter, List.mem_filter, hrest i hi]
        exact congrArg (target :: ·) (ih hleft)
      · rw [if_neg hmem, if_neg fun hmem' => hmem ((h target List.mem_cons_self).mp hmem')]
        exact ih hrest

theorem Agrees.walk (h : Agrees chart chart') {queue unseen unseen' : List BlockId}
    (hqueue : ∀ i ∈ queue, chart.Linked chart.start i)
    (hunseen : ∀ i, chart.Linked chart.start i → chart.has i = true →
      (i ∈ unseen' ↔ i ∈ unseen)) :
    chart'.walk queue unseen' = chart.walk queue unseen := by
  fun_induction Chart.walk chart queue unseen generalizing unseen' with
  | case1 => rw [Chart.walk]
  | case2 unseen id rest hnone ih =>
      have hid := hqueue id List.mem_cons_self
      rw [Chart.walk, h.get? id hid, hnone]
      exact ih (fun i hi => hqueue i (List.mem_cons_of_mem id hi)) hunseen
  | case3 unseen id rest first hfirst hfinish ih =>
      have hid := hqueue id List.mem_cons_self
      rw [Chart.walk, h.get? id hid, hfirst]
      simp only [if_pos hfinish]
      exact ih (fun i hi => hqueue i (List.mem_cons_of_mem id hi)) hunseen
  | case4 unseen id rest first hfirst hfinish hlength ih =>
      have hid := hqueue id List.mem_cons_self
      have htarget : ∀ i ∈ chart.targets first, chart.Linked chart.start i :=
        fun i hi => Linked.link hid hfirst (link_of_mem_targets hi)
      have hfound : (discover unseen' (chart.targets first)).1 =
          (discover unseen (chart.targets first)).1 :=
        found_discover_congr fun i hi => hunseen i (htarget i hi) (has_of_mem_targets hi)
      rw [Chart.walk, h.get? id hid, hfirst]
      simp only [if_neg hfinish]
      rw [h.targets hid hfirst, hfound]
      refine congrArg (first :: ·) (ih ?_ ?_)
      · intro i hi
        rcases List.mem_append.mp hi with hrest | hnew
        · exact hqueue i (List.mem_cons_of_mem id hrest)
        · exact htarget i (mem_found_discover.mp hnew).1
      · intro i hi hhas
        rw [mem_remaining_discover, mem_remaining_discover, hunseen i hi hhas]

theorem Agrees.reach (h : Agrees chart chart') (hentry : chart.Linked chart.start entry) :
    chart'.reach entry = chart.reach entry := by
  refine h.walk ?_ ?_
  · intro i hi
    rw [List.mem_singleton.mp hi]
    exact hentry
  · intro i hi hhas
    have hhas' : chart'.has i = true := by rw [h.has hi, hhas]
    rw [List.mem_filter, List.mem_filter, ← has_iff_mem_ids, ← has_iff_mem_ids, hhas, hhas']

/-!
# Charts that agree

The order of the blocks does not matter where their ids are distinct, and neither do blocks whose
ids are not within reach.
-/

theorem linked_of_entry (h : chart.entry = .ok entry) : chart.Linked chart.start entry := by
  rcases entry_eq_ok_iff.mp h with ⟨start, _, hstart, hkind, _⟩
  refine Linked.link Linked.entry hstart ?_
  rw [hkind]
  exact List.mem_cons_self

theorem Agrees.entry_eq (h : Agrees chart chart') : chart'.entry = chart.entry := by
  unfold Chart.entry startBlock?
  rw [h.start, h.get? chart.start Linked.entry]
  split
  · rfl
  · next b hstart =>
      split
      · next target hkind =>
          have htarget : chart.Linked chart.start target := by
            refine Linked.link Linked.entry hstart ?_
            rw [hkind]
            exact List.mem_cons_self
          rw [h.has htarget]
      · rfl

theorem agrees_of_perm (hnodup : chart.ids.Nodup) {blocks : List Block}
    (hperm : blocks.Perm chart.blocks) : Agrees chart { chart with blocks := blocks } where
  start := rfl
  get? := by
    intro id _
    have hids : (blocks.map Block.id).Perm chart.ids := hperm.map Block.id
    cases hfound : chart.get? id with
    | none =>
        refine get?_eq_none ?_
        intro hmem
        have hhas := has_iff_mem_ids.mpr (hids.subset hmem)
        rw [Chart.has, hfound] at hhas
        cases hhas
    | some b =>
        rw [← id_of_get? hfound]
        exact get?_of_mem (hids.nodup_iff.mpr hnodup)
          (hperm.symm.subset (mem_blocks_of_get? hfound))

theorem agrees_of_filter (within : BlockId → Bool)
    (hwithin : ∀ id, chart.Linked chart.start id → within id = true) {blocks : List Block}
    (hblocks : blocks.filter (fun b => within b.id) = chart.blocks.filter fun b => within b.id) :
    Agrees chart { chart with blocks := blocks } where
  start := rfl
  get? := by
    intro id hid
    -- looking for an id within reach skips the other blocks anyway
    have hskip : ∀ blocks : List Block,
        (blocks.filter fun b => within b.id).find? (fun b => b.id = id) =
          blocks.find? (fun b => b.id = id) := by
      intro blocks
      rw [List.find?_filter]
      congr 1
      funext b
      by_cases hb : b.id = id
      · simp [hb, hwithin id hid]
      · simp [hb]
    change blocks.find? _ = chart.blocks.find? _
    rw [← hskip blocks, hblocks, hskip]

/-!
# Edits out of reach

An edit changes the block of one id, and that block is not within reach.
-/

def place (chart : Chart) : Edit → BlockId
  | .add _ _ => chart.nextId
  | .connect source _ => source
  | .connectBranch source _ _ => source
  | .setContent id _ => id

theorem agrees_modify {f : Block → Block} (hf : ∀ b, (f b).id = b.id)
    (hplace : ¬ chart.Linked chart.start id) : Agrees chart (chart.modify id f) where
  start := rfl
  get? := by
    intro other hother
    rw [get?_modify hf, if_neg]
    intro hsame
    exact hplace (hsame ▸ hother)

theorem agrees_relink {targets : List BlockId} {source : BlockId}
    {relinked? : BlockKind → Option BlockKind} {refusal : ChartError}
    (hplace : ¬ chart.Linked chart.start source)
    (h : chart.relink targets source relinked? refusal = .ok chart') : Agrees chart chart' := by
  rcases relink_eq_ok_iff.mp h with ⟨_, _, kind, _, _, rfl⟩
  exact agrees_modify (f := fun b => { b with kind := kind }) (fun _ => rfl) hplace

theorem agrees_add (kind : BlockKind) (content : String)
    (hplace : ¬ chart.Linked chart.start chart.nextId) :
    Agrees chart (chart.add kind content).2 where
  start := rfl
  get? := by
    intro id hid
    have hne : chart.nextId ≠ id := fun hsame => hplace (hsame ▸ hid)
    unfold get? add
    simp [List.find?_append, hne]

theorem agrees_edit (e : Edit) (hplace : ¬ chart.Linked chart.start (chart.place e)) :
    Agrees chart (chart.edit e) := by
  cases hedited : chart.edited e with
  | error error =>
      rw [edit_of_error hedited]
      exact ⟨rfl, fun _ _ => rfl⟩
  | ok chart' =>
      have hedit : chart.edit e = chart' := by
        rw [edit, hedited]
        rfl
      rw [hedit]
      cases e with
      | add kind content =>
          cases hedited
          exact agrees_add kind content hplace
      | connect source target =>
          rw [edited, connect_eq] at hedited
          exact agrees_relink hplace hedited
      | connectBranch source onTrue onFalse =>
          rw [edited, connectBranch_eq] at hedited
          exact agrees_relink hplace hedited
      | setContent id content =>
          cases hedited
          exact agrees_modify (f := fun b => { b with content := content }) (fun _ => rfl) hplace

end Chart

namespace Program

open Chart

/-!
# Builds

The example is a ring of blocks that START leads into: one of them does not compile, another has a
link to an id without a block, and nothing leads to the last block.
-/

theorem build_of_agrees {chart chart' : Chart} (h : Agrees chart chart') :
    build chart' = build chart := by
  unfold build
  rw [h.entry_eq]
  cases hentry : chart.entry with
  | error e => rfl
  | ok entry =>
      have hlinked := linked_of_entry hentry
      have hblock : ∀ b ∈ chart.reach entry,
          chart.Linked chart.start b.id ∧ chart.get? b.id = some b := by
        intro b hb
        rcases mem_reach_iff.mp hb with ⟨hleads, hget, _⟩
        exact ⟨hlinked.trans (linked_of_leads hleads), hget⟩
      have herrors : (chart.reach entry).flatMap
            (fun b => chart'.linkErrors b ++ compileErrors b) =
          (chart.reach entry).flatMap fun b => chart.linkErrors b ++ compileErrors b := by
        refine List.flatMap_congr fun b hb => ?_
        rw [h.linkErrors (hblock b hb).1 (hblock b hb).2]
      have hsteps : (chart.reach entry).filterMap chart'.step? =
          (chart.reach entry).filterMap chart.step? :=
        List.filterMap_congr fun b hb => h.step? (hblock b hb).1 (hblock b hb).2
      simp only [h.reach hlinked, herrors, hsteps]

/-- Charts with the same start that find the same blocks for all ids within reach build alike,
to the same program or to the same errors in the same order.  So a build does not depend on the
order of blocks with distinct ids, nor on any block out of reach, nor does an edit there change
it. -/
theorem build_depends_on_reach (chart : Chart) :
    (∀ chart' : Chart, chart'.start = chart.start →
      (∀ id, chart.Linked chart.start id → chart'.get? id = chart.get? id) →
        build chart' = build chart) ∧
    (∀ blocks : List Block, chart.ids.Nodup → blocks.Perm chart.blocks →
      build { chart with blocks := blocks } = build chart) ∧
    (∀ (within : BlockId → Bool) (blocks : List Block),
      (∀ id, chart.Linked chart.start id → within id = true) →
      blocks.filter (fun b => within b.id) = chart.blocks.filter (fun b => within b.id) →
        build { chart with blocks := blocks } = build chart) ∧
    ∀ e : Edit, ¬ chart.Linked chart.start (chart.place e) →
      build (chart.edit e) = build chart := by
  refine ⟨?_, ?_, ?_, ?_⟩
  · intro chart' hstart hget
    exact build_of_agrees ⟨hstart, hget⟩
  · intro blocks hnodup hperm
    exact build_of_agrees (agrees_of_perm hnodup hperm)
  · intro within blocks hwithin hblocks
    exact build_of_agrees (agrees_of_filter within hwithin hblocks)
  · intro e hplace
    exact build_of_agrees (agrees_edit e hplace)

def ring : Chart where
  start := ⟨0⟩
  blocks :=
    [⟨⟨0⟩, "", .start (some ⟨1⟩)⟩, ⟨⟨1⟩, "x +", .output (some ⟨2⟩)⟩,
      ⟨⟨2⟩, "x", .decision (some ⟨1⟩) (some ⟨9⟩)⟩, ⟨⟨3⟩, "y", .output (some ⟨1⟩)⟩]

def ringReach : List BlockId :=
  [⟨0⟩, ⟨1⟩, ⟨2⟩, ⟨9⟩]

theorem mem_ringReach {id : BlockId} (h : ring.Linked ⟨0⟩ id) : id ∈ ringReach := by
  refine h.mem_closed (· ∈ ringReach) (by decide) ?_
  intro i b _ hget target htarget
  have hlinks : ∀ b ∈ ring.blocks, ∀ link ∈ b.kind.links, ∀ target ∈ link, target ∈ ringReach := by
    decide
  exact hlinks b (mem_blocks_of_get? hget) _ htarget target rfl

theorem build_depends_on_reach_ring :
    let blocks : List Block :=
      [⟨⟨4⟩, ")", .declaration none⟩, ⟨⟨2⟩, "x", .decision (some ⟨1⟩) (some ⟨9⟩)⟩,
        ⟨⟨3⟩, "y = ", .assignment none⟩, ⟨⟨1⟩, "x +", .output (some ⟨2⟩)⟩,
        ⟨⟨0⟩, "", .start (some ⟨1⟩)⟩]
    (∀ id, ring.Linked ⟨0⟩ id → ({ ring with blocks := blocks } : Chart).get? id = ring.get? id) ∧
    build { ring with blocks := blocks } = build ring ∧
    build ring = .error [⟨some ⟨1⟩, .expectedValue ⟨.endOfInput, 4⟩⟩, openLink ⟨2⟩] ∧
    ¬ ring.Linked ⟨0⟩ ⟨3⟩ ∧ build (ring.edit (.connect ⟨3⟩ ⟨0⟩)) = build ring ∧
    ring.ids.Nodup ∧ build { ring with blocks := ring.blocks.reverse } = build ring := by
  intro blocks
  have hget : ∀ id, ring.Linked ⟨0⟩ id →
      ({ ring with blocks := blocks } : Chart).get? id = ring.get? id := by
    intro id hid
    have hall : ∀ id ∈ ringReach,
        ({ ring with blocks := blocks } : Chart).get? id = ring.get? id := by decide
    exact hall id (mem_ringReach hid)
  have hapart : ¬ ring.Linked ⟨0⟩ ⟨3⟩ := fun h => absurd (mem_ringReach h) (by decide)
  have hnodup : ring.ids.Nodup := by decide
  exact ⟨hget, (build_depends_on_reach ring).1 _ rfl hget, by cbv, hapart,
    (build_depends_on_reach ring).2.2.2 _ hapart, hnodup,
    (build_depends_on_reach ring).2.1 _ hnodup (List.reverse_perm _)⟩

end Program
end Blockwise
