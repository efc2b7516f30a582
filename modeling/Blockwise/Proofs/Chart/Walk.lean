import Blockwise.Program
import Mathlib.Data.List.Nodup
import Mathlib.Tactic.Tauto

/-!
# What a walk through a chart finds

A walk keeps a queue of ids and the ids it has not seen yet.  It lists exactly the blocks that
the links lead to from the ids in the queue, END blocks left out, and it lists each id once.
Links of a block are followed only where all of them resolve.
-/

namespace Blockwise
namespace Chart

/-!
# Blocks by their ids

Where no two blocks have the same id, a block is found by its id.
-/

theorem id_of_get? {chart : Chart} {id : BlockId} {b : Block}
    (h : chart.get? id = some b) : b.id = id := by
  have hfound := List.find?_some h
  simpa using hfound

theorem mem_ids_of_get? {chart : Chart} {id : BlockId} {b : Block}
    (h : chart.get? id = some b) : id ∈ chart.ids := by
  have hmem : b ∈ chart.blocks := List.mem_of_find?_eq_some h
  rw [← id_of_get? h]
  exact List.mem_map_of_mem hmem

theorem has_iff {chart : Chart} {id : BlockId} :
    chart.has id = true ↔ ∃ b, chart.get? id = some b :=
  Option.isSome_iff_exists

theorem mem_blocks_of_get? {chart : Chart} {id : BlockId} {b : Block}
    (h : chart.get? id = some b) : b ∈ chart.blocks :=
  List.mem_of_find?_eq_some h

theorem has_iff_mem_ids {chart : Chart} {id : BlockId} :
    chart.has id = true ↔ id ∈ chart.ids := by
  unfold has get? ids
  rw [List.find?_isSome]
  simp

theorem get?_eq_none {chart : Chart} {id : BlockId} (h : id ∉ chart.ids) :
    chart.get? id = none := by
  rw [← Option.not_isSome_iff_eq_none]
  exact fun hhas => h (has_iff_mem_ids.mp hhas)

theorem get?_of_mem {chart : Chart} {b : Block} (hnodup : chart.ids.Nodup)
    (h : b ∈ chart.blocks) : chart.get? b.id = some b := by
  rcases has_iff.mp (has_iff_mem_ids.mpr (List.mem_map_of_mem h)) with ⟨found, hfound⟩
  have hsame : found = b :=
    List.inj_on_of_nodup_map hnodup (mem_blocks_of_get? hfound) h (id_of_get? hfound)
  rw [hfound, hsame]

/-!
# Successors of a block

A block has a successor exactly where it has links and all of them resolve, and the successor
holds just these links.
-/

theorem resolves_some {chart : Chart} {target : BlockId} :
    chart.resolves (some target) = chart.has target := rfl

theorem successor?_eq_some_iff {chart : Chart} {b : Block} {s : Successor} :
    chart.successor? b = some s ↔
      b.kind.links = s.targets.map some ∧ ∀ target ∈ s.targets, chart.has target = true := by
  unfold successor?
  constructor
  · intro h
    split at h
    · next target hall hlinks =>
        cases h
        rw [hlinks] at hall ⊢
        refine ⟨rfl, ?_⟩
        intro t ht
        rw [List.mem_singleton.mp ht]
        simpa [resolves_some] using hall
    · next onTrue onFalse hall hlinks =>
        cases h
        rw [hlinks] at hall ⊢
        refine ⟨rfl, ?_⟩
        simpa [resolves_some, Successor.targets] using hall
    · cases h
  · intro hgiven
    rcases hgiven with ⟨hlinks, hhas⟩
    have hall : b.kind.links.all chart.resolves = true := by
      rw [hlinks, List.all_map, List.all_eq_true]
      exact hhas
    rw [hall, hlinks]
    cases s with
    | next target => rfl
    | branch onTrue onFalse => rfl

theorem mem_targets_iff {chart : Chart} {b : Block} {target : BlockId} :
    target ∈ chart.targets b ↔ ∃ s, chart.successor? b = some s ∧ target ∈ s.targets := by
  unfold targets
  cases hs : chart.successor? b with
  | none => simp
  | some s => simp

theorem has_of_mem_targets {chart : Chart} {b : Block} {target : BlockId}
    (h : target ∈ chart.targets b) : chart.has target = true := by
  rcases mem_targets_iff.mp h with ⟨s, hs, hmem⟩
  exact (successor?_eq_some_iff.mp hs).2 target hmem

theorem link_of_mem_targets {chart : Chart} {b : Block} {target : BlockId}
    (h : target ∈ chart.targets b) : some target ∈ b.kind.links := by
  rcases mem_targets_iff.mp h with ⟨s, hs, hmem⟩
  rw [(successor?_eq_some_iff.mp hs).1]
  exact List.mem_map_of_mem hmem

/-!
# Discovering targets

Discovering moves the targets of a block that have not been seen from what remains to what is found.
-/

theorem mem_found_discover {unseen targets : List BlockId} {id : BlockId} :
    id ∈ (discover unseen targets).1 ↔ id ∈ targets ∧ id ∈ unseen := by
  induction targets generalizing unseen with
  | nil => simp [discover]
  | cons target rest ih =>
      unfold discover
      split
      · next hmem =>
          simp only [List.mem_cons, ih, List.mem_filter, decide_eq_true_eq]
          by_cases hid : id = target
          · simp [hid, hmem]
          · simp [hid]
      · next hmem =>
          rw [ih, List.mem_cons]
          by_cases hid : id = target
          · simp [hid, hmem]
          · simp [hid]

theorem mem_remaining_discover {unseen targets : List BlockId} {id : BlockId} :
    id ∈ (discover unseen targets).2 ↔ id ∈ unseen ∧ id ∉ targets := by
  induction targets generalizing unseen with
  | nil => simp [discover]
  | cons target rest ih =>
      unfold discover
      split
      · simp only [ih, List.mem_filter, decide_eq_true_eq, List.mem_cons, not_or]
        exact and_assoc
      · next hmem =>
          rw [ih, List.mem_cons, not_or]
          constructor
          · intro hgiven
            rcases hgiven with ⟨hunseen, hrest⟩
            refine ⟨hunseen, ?_, hrest⟩
            intro hid
            exact hmem (hid ▸ hunseen)
          · intro hgiven
            rcases hgiven with ⟨hunseen, _, hrest⟩
            exact ⟨hunseen, hrest⟩

theorem nodup_found_discover (unseen targets : List BlockId) :
    (discover unseen targets).1.Nodup := by
  induction targets generalizing unseen with
  | nil => simp [discover]
  | cons target rest ih =>
      unfold discover
      split
      · refine List.nodup_cons.mpr ⟨?_, ih _⟩
        intro hmem
        have hfilter := (mem_found_discover.mp hmem).2
        simp at hfilter
      · exact ih unseen

/-!
# The invariant of the walk

The targets of what is done are done or queued, and no id is lost or can be queued twice.  A block
that leads nowhere leaves the queue; one that leads on sends in its unseen targets.
-/

/-- The ids that a walk comes to. -/
inductive Leads (chart : Chart) (queue : List BlockId) : BlockId → Prop where
  | queued {id : BlockId} : id ∈ queue → Leads chart queue id
  | target {id target : BlockId} {b : Block} :
      Leads chart queue id → chart.get? id = some b → target ∈ chart.targets b →
      Leads chart queue target

/-- What holds of a walk between two blocks, where `done` are the ids it has taken from the
queue: no id of the chart is lost, the targets of what is done are done or queued, and no id
can be queued twice. -/
structure Walking (chart : Chart) (done : BlockId → Prop) (queue unseen : List BlockId) :
    Prop where
  covered : ∀ id, chart.has id = true → done id ∨ id ∈ queue ∨ id ∈ unseen
  closed : ∀ id b, done id → chart.get? id = some b →
    ∀ target ∈ chart.targets b, done target ∨ target ∈ queue
  nodup : queue.Nodup
  fresh : ∀ id ∈ queue, id ∉ unseen

namespace Walking

variable {chart : Chart} {done : BlockId → Prop} {id : BlockId} {rest unseen : List BlockId}

theorem skip (w : Walking chart done (id :: rest) unseen)
    (h : ∀ b, chart.get? id = some b → chart.targets b = []) :
    Walking chart (fun i => done i ∨ i = id) rest unseen where
  covered := by
    intro i hi
    have hcovered := w.covered i hi
    rw [List.mem_cons] at hcovered
    tauto
  closed := by
    intro i b hi hb target htarget
    rcases hi with hdone | rfl
    · have hclosed := w.closed i b hdone hb target htarget
      rw [List.mem_cons] at hclosed
      tauto
    · rw [h b hb] at htarget
      cases htarget
  nodup := (List.nodup_cons.mp w.nodup).2
  fresh := fun i hi => w.fresh i (List.mem_cons_of_mem id hi)

theorem follow (w : Walking chart done (id :: rest) unseen) {b : Block}
    (hb : chart.get? id = some b) :
    Walking chart (fun i => done i ∨ i = id)
      (rest ++ (discover unseen (chart.targets b)).1)
      (discover unseen (chart.targets b)).2 where
  covered := by
    intro i hi
    have hcovered := w.covered i hi
    rw [List.mem_cons] at hcovered
    rw [List.mem_append, mem_found_discover, mem_remaining_discover]
    tauto
  closed := by
    intro i b' hi hb' target htarget
    rw [List.mem_append, mem_found_discover]
    rcases hi with hdone | rfl
    · have hclosed := w.closed i b' hdone hb' target htarget
      rw [List.mem_cons] at hclosed
      tauto
    · rw [hb] at hb'
      cases hb'
      have hcovered := w.covered target (has_of_mem_targets htarget)
      rw [List.mem_cons] at hcovered
      tauto
  nodup := by
    refine List.nodup_append.mpr
      ⟨(List.nodup_cons.mp w.nodup).2, nodup_found_discover _ _, ?_⟩
    intro i hi j hj hij
    have hunseen : j ∈ unseen := (mem_found_discover.mp hj).2
    exact w.fresh i (List.mem_cons_of_mem id hi) (hij ▸ hunseen)
  fresh := by
    intro i hi hremaining
    rw [mem_remaining_discover] at hremaining
    rcases List.mem_append.mp hi with hrest | hfound
    · exact w.fresh i (List.mem_cons_of_mem id hrest) hremaining.1
    · exact hremaining.2 (mem_found_discover.mp hfound).1

end Walking

/-!
# The blocks of a walk

A walk ends with a closed set of ids that are done, so it has done all that the queue leads to, and
nothing else.
-/

theorem targets_of_finish (chart : Chart) {b : Block} (h : b.kind = .finish) :
    chart.targets b = [] := by
  unfold targets successor?
  rw [h]
  rfl

theorem Leads.mem_closed {chart : Chart} {queue : List BlockId} (closed : BlockId → Prop)
    (hqueue : ∀ i ∈ queue, closed i)
    (htargets : ∀ i b, closed i → chart.get? i = some b →
      ∀ target ∈ chart.targets b, closed target)
    {i : BlockId} (h : Leads chart queue i) : closed i := by
  induction h with
  | queued hmem => exact hqueue _ hmem
  | target _ hget htarget ih => exact htargets _ _ ih hget _ htarget

theorem Leads.mono {chart : Chart} {queue more : List BlockId}
    (hsub : ∀ i ∈ queue, i ∈ more) {i : BlockId} (h : Leads chart queue i) :
    Leads chart more i :=
  h.mem_closed (Leads chart more) (fun j hj => Leads.queued (hsub j hj))
    (fun _ _ hj hget _ htarget => Leads.target hj hget htarget)

theorem Leads.of_step {chart : Chart} {id : BlockId} {rest found : List BlockId} {b : Block}
    (hb : chart.get? id = some b) (hfound : ∀ i ∈ found, i ∈ chart.targets b) {i : BlockId}
    (h : Leads chart (rest ++ found) i) : Leads chart (id :: rest) i := by
  refine h.mem_closed (Leads chart (id :: rest)) ?_
    (fun _ _ hj hget _ htarget => Leads.target hj hget htarget)
  intro j hj
  rcases List.mem_append.mp hj with hrest | hnew
  · exact Leads.queued (List.mem_cons_of_mem id hrest)
  · exact Leads.target (Leads.queued List.mem_cons_self) hb (hfound j hnew)

theorem leads_of_mem_walk {chart : Chart} {queue unseen : List BlockId} {b : Block}
    (h : b ∈ chart.walk queue unseen) :
    Leads chart queue b.id ∧ chart.get? b.id = some b ∧ b.kind ≠ .finish := by
  fun_induction walk chart queue unseen with
  | case1 => cases h
  | case2 unseen id rest hnone ih =>
      rcases ih h with ⟨hleads, hget⟩
      exact ⟨hleads.mono fun i hi => List.mem_cons_of_mem id hi, hget⟩
  | case3 unseen id rest first hfirst hfinish ih =>
      rcases ih h with ⟨hleads, hget⟩
      exact ⟨hleads.mono fun i hi => List.mem_cons_of_mem id hi, hget⟩
  | case4 unseen id rest first hfirst hfinish hlength ih =>
      rcases List.mem_cons.mp h with rfl | hrest
      · have hid : b.id = id := id_of_get? hfirst
        rw [hid]
        exact ⟨Leads.queued List.mem_cons_self, hfirst, hfinish⟩
      · rcases ih hrest with ⟨hleads, hget⟩
        refine ⟨Leads.of_step hfirst ?_ hleads, hget⟩
        intro i hi
        exact (mem_found_discover.mp hi).1

theorem walk_closes {chart : Chart} {done : BlockId → Prop} {queue unseen : List BlockId}
    (w : Walking chart done queue unseen) :
    ∃ ended : BlockId → Prop,
      (∀ i, done i ∨ i ∈ queue → ended i) ∧
      (∀ i b, ended i → chart.get? i = some b → ∀ target ∈ chart.targets b, ended target) ∧
      ∀ i b, ended i → chart.get? i = some b → b.kind ≠ .finish →
        done i ∨ b ∈ chart.walk queue unseen := by
  fun_induction walk chart queue unseen generalizing done with
  | case1 unseen =>
      refine ⟨done, ?_, ?_, ?_⟩
      · intro i hgiven
        rcases hgiven with hdone | hqueue
        · exact hdone
        · cases hqueue
      · intro i b hdone hget target htarget
        rcases w.closed i b hdone hget target htarget with htargetDone | hqueue
        · exact htargetDone
        · cases hqueue
      · intro i b hdone _ _
        exact Or.inl hdone
  | case2 unseen id rest hnone ih =>
      have hskip := w.skip (fun b hb => by rw [hnone] at hb; cases hb)
      rcases ih hskip with ⟨ended, hstart, hclosed, hlisted⟩
      refine ⟨ended, ?_, hclosed, ?_⟩
      · intro i hi
        apply hstart
        rw [List.mem_cons] at hi
        tauto
      · intro i b hended hget hkind
        rcases hlisted i b hended hget hkind with (hdone | rfl) | hwalk
        · exact Or.inl hdone
        · rw [hnone] at hget
          cases hget
        · exact Or.inr hwalk
  | case3 unseen id rest first hfirst hfinish ih =>
      have hskip := w.skip (fun b hb => by
        rw [hfirst] at hb
        cases hb
        exact targets_of_finish chart hfinish)
      rcases ih hskip with ⟨ended, hstart, hclosed, hlisted⟩
      refine ⟨ended, ?_, hclosed, ?_⟩
      · intro i hi
        apply hstart
        rw [List.mem_cons] at hi
        tauto
      · intro i b hended hget hkind
        rcases hlisted i b hended hget hkind with (hdone | rfl) | hwalk
        · exact Or.inl hdone
        · rw [hfirst] at hget
          cases hget
          exact absurd hfinish hkind
        · exact Or.inr hwalk
  | case4 unseen id rest first hfirst hfinish hlength ih =>
      rcases ih (w.follow hfirst) with ⟨ended, hstart, hclosed, hlisted⟩
      refine ⟨ended, ?_, hclosed, ?_⟩
      · intro i hi
        apply hstart
        rw [List.mem_cons] at hi
        rw [List.mem_append]
        tauto
      · intro i b hended hget hkind
        rcases hlisted i b hended hget hkind with (hdone | rfl) | hwalk
        · exact Or.inl hdone
        · rw [hfirst] at hget
          cases hget
          exact Or.inr List.mem_cons_self
        · exact Or.inr (List.mem_cons_of_mem first hwalk)

theorem mem_of_mem_walk {chart : Chart} {queue unseen : List BlockId} {b : Block}
    (h : b ∈ chart.walk queue unseen) : b.id ∈ queue ∨ b.id ∈ unseen := by
  fun_induction walk chart queue unseen with
  | case1 => cases h
  | case2 unseen id rest hnone ih => exact (ih h).imp_left (List.mem_cons_of_mem id)
  | case3 unseen id rest first hfirst hfinish ih =>
      exact (ih h).imp_left (List.mem_cons_of_mem id)
  | case4 unseen id rest first hfirst hfinish hlength ih =>
      rcases List.mem_cons.mp h with rfl | hrest
      · exact Or.inl (id_of_get? hfirst ▸ List.mem_cons_self)
      · rcases ih hrest with hqueue | hremaining
        · rcases List.mem_append.mp hqueue with hold | hfound
          · exact Or.inl (List.mem_cons_of_mem id hold)
          · exact Or.inr (mem_found_discover.mp hfound).2
        · exact Or.inr (mem_remaining_discover.mp hremaining).1

theorem nodup_walk {chart : Chart} {done : BlockId → Prop} {queue unseen : List BlockId}
    (w : Walking chart done queue unseen) : ((chart.walk queue unseen).map Block.id).Nodup := by
  fun_induction walk chart queue unseen generalizing done with
  | case1 => exact List.nodup_nil
  | case2 unseen id rest hnone ih =>
      exact ih (w.skip fun b hb => by rw [hnone] at hb; cases hb)
  | case3 unseen id rest first hfirst hfinish ih =>
      refine ih (w.skip fun b hb => ?_)
      rw [hfirst] at hb
      cases hb
      exact targets_of_finish chart hfinish
  | case4 unseen id rest first hfirst hfinish hlength ih =>
      rw [List.map_cons, id_of_get? hfirst]
      refine List.nodup_cons.mpr ⟨?_, ih (w.follow hfirst)⟩
      intro hmem
      rcases List.mem_map.mp hmem with ⟨b, hb, hid⟩
      -- the id that left the queue was in it once and is no longer unseen
      have hnot : id ∉ unseen := w.fresh id List.mem_cons_self
      have hsource := mem_of_mem_walk hb
      rw [hid, List.mem_append, mem_found_discover, mem_remaining_discover] at hsource
      rcases hsource with (hrest | hfound) | hremaining
      · exact (List.nodup_cons.mp w.nodup).1 hrest
      · exact hnot hfound.2
      · exact hnot hremaining.1

/-!
# Reach

The blocks reached from an entry are those that it leads to, END blocks left out.
-/

theorem walking_reach (chart : Chart) (entry : BlockId) :
    Walking chart (fun _ => False) [entry] (chart.ids.filter (· ≠ entry)) where
  covered := by
    intro id hid
    rcases has_iff.mp hid with ⟨b, hb⟩
    have hmem : id ∈ chart.ids := mem_ids_of_get? hb
    by_cases h : id = entry
    · exact Or.inr (Or.inl (List.mem_singleton.mpr h))
    · exact Or.inr (Or.inr (by simp [hmem, h]))
  closed := fun _ _ h => h.elim
  nodup := by simp
  fresh := by
    intro id hid
    rw [List.mem_singleton.mp hid]
    simp

/-- The blocks reached from an entry are those that it leads to, END blocks left out. -/
theorem mem_reach_iff {chart : Chart} {entry : BlockId} {b : Block} :
    b ∈ chart.reach entry ↔
      Leads chart [entry] b.id ∧ chart.get? b.id = some b ∧ b.kind ≠ .finish := by
  constructor
  · exact leads_of_mem_walk
  · intro hgiven
    rcases hgiven with ⟨hleads, hget, hkind⟩
    rcases walk_closes (walking_reach chart entry) with ⟨ended, hstart, hclosed, hlisted⟩
    have hended : ended b.id :=
      hleads.mem_closed ended (fun i hi => hstart i (Or.inr hi)) hclosed
    rcases hlisted b.id b hended hget hkind with hfalse | hwalk
    · exact hfalse.elim
    · exact hwalk

theorem nodup_reach (chart : Chart) (entry : BlockId) :
    ((chart.reach entry).map Block.id).Nodup :=
  nodup_walk (walking_reach chart entry)

end Chart
end Blockwise
