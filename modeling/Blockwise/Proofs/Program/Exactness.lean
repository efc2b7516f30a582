import Blockwise.Proofs.Chart.Walk
import Mathlib

/-!
# Programs are built exactly

A program is built from a chart if and only if START leads to a block and every block that links
reach from there can be carried out.  The program then holds the compiled form of these blocks
and nothing else, so that a run of it can only finish at an END block.
-/

namespace Blockwise
namespace Chart

/-!
# Blocks within reach

Links reach on whether or not they lead to a block.  Where no link of a listed block is open, the
walk leads wherever links reach.
-/

inductive Linked (chart : Chart) (entry : BlockId) : BlockId → Prop where
  | entry : Linked chart entry entry
  | link {id target : BlockId} {b : Block} :
      Linked chart entry id → chart.get? id = some b → some target ∈ b.kind.links →
      Linked chart entry target

/-- Whether a run can carry out the block: its source compiles and all its links lead to
blocks.  There is nothing to carry out at END, and START is never entered. -/
def Executable (chart : Chart) (b : Block) : Prop :=
  b.kind = .finish ∨
    b.kind.role ≠ .start ∧ (∃ tree, b.compile = .ok tree) ∧
      ∀ link ∈ b.kind.links, ∃ target b', link = some target ∧ chart.get? target = some b'

theorem links_cases (kind : BlockKind) :
    kind = .finish ∨ (∃ link, kind.links = [link]) ∨ ∃ left right, kind.links = [left, right] := by
  cases kind with
  | finish => exact Or.inl rfl
  | start next => exact Or.inr (Or.inl ⟨next, rfl⟩)
  | input next => exact Or.inr (Or.inl ⟨next, rfl⟩)
  | output next => exact Or.inr (Or.inl ⟨next, rfl⟩)
  | decision onTrue onFalse => exact Or.inr (Or.inr ⟨onTrue, onFalse, rfl⟩)
  | declaration next => exact Or.inr (Or.inl ⟨next, rfl⟩)
  | assignment next => exact Or.inr (Or.inl ⟨next, rfl⟩)

theorem resolves_iff {chart : Chart} {link : Option BlockId} :
    chart.resolves link = true ↔
      ∃ target b, link = some target ∧ chart.get? target = some b := by
  cases link with
  | none => simp [resolves]
  | some target =>
      rw [resolves_some, has_iff]
      simp

theorem exists_successor {chart : Chart} {b : Block} (hkind : b.kind ≠ .finish)
    (hlinks : ∀ link ∈ b.kind.links, chart.resolves link = true) :
    ∃ s, chart.successor? b = some s := by
  rcases links_cases b.kind with hfinish | ⟨link, hone⟩ | ⟨left, right, htwo⟩
  · exact absurd hfinish hkind
  · rw [hone] at hlinks
    rcases resolves_iff.mp (hlinks link (by simp)) with ⟨target, b', rfl, hget⟩
    refine ⟨.next target, successor?_eq_some_iff.mpr ⟨hone, ?_⟩⟩
    intro t ht
    rw [List.mem_singleton.mp ht]
    exact has_iff.mpr ⟨b', hget⟩
  · rw [htwo] at hlinks
    rcases resolves_iff.mp (hlinks left (by simp)) with ⟨onTrue, bt, rfl, htrue⟩
    rcases resolves_iff.mp (hlinks right (by simp)) with ⟨onFalse, bf, rfl, hfalse⟩
    refine ⟨.branch onTrue onFalse, successor?_eq_some_iff.mpr ⟨htwo, ?_⟩⟩
    intro t ht
    simp only [Successor.targets, List.mem_cons, List.not_mem_nil, or_false] at ht
    rcases ht with rfl | rfl
    · exact has_iff.mpr ⟨bt, htrue⟩
    · exact has_iff.mpr ⟨bf, hfalse⟩

theorem ne_finish_of_link {b : Block} {link : Option BlockId} (h : link ∈ b.kind.links) :
    b.kind ≠ .finish := by
  intro hfinish
  rw [hfinish] at h
  cases h

theorem mem_targets_of_resolves {chart : Chart} {b : Block} {target : BlockId}
    (hlinks : ∀ link ∈ b.kind.links, chart.resolves link = true)
    (h : some target ∈ b.kind.links) : target ∈ chart.targets b := by
  rcases exists_successor (ne_finish_of_link h) hlinks with ⟨s, hs⟩
  rw [(successor?_eq_some_iff.mp hs).1] at h
  rcases List.mem_map.mp h with ⟨t, ht, hsome⟩
  cases hsome
  exact mem_targets_iff.mpr ⟨s, hs, ht⟩

theorem linked_of_leads {chart : Chart} {entry id : BlockId} (h : Leads chart [entry] id) :
    Linked chart entry id := by
  refine h.mem_closed (Linked chart entry) ?_ ?_
  · intro i hi
    rw [List.mem_singleton.mp hi]
    exact Linked.entry
  · intro i b hi hget target htarget
    exact Linked.link hi hget (link_of_mem_targets htarget)

theorem leads_of_linked {chart : Chart} {entry id : BlockId}
    (hresolve : ∀ b ∈ chart.reach entry, ∀ link ∈ b.kind.links, chart.resolves link = true)
    (h : Linked chart entry id) : Leads chart [entry] id := by
  induction h with
  | entry => exact Leads.queued List.mem_cons_self
  | @link i target b _ hget hlink ih =>
      have hreach : b ∈ chart.reach entry := by
        rw [mem_reach_iff, id_of_get? hget]
        exact ⟨ih, hget, ne_finish_of_link hlink⟩
      exact Leads.target ih hget (mem_targets_of_resolves (hresolve b hreach) hlink)

/-!
# Failures of a block

A block is executable exactly where a build finds no failure with it.
-/

theorem linkErrors_eq_nil_iff {chart : Chart} {b : Block} :
    chart.linkErrors b = [] ↔ ∀ link ∈ b.kind.links, chart.resolves link = true := by
  unfold linkErrors
  rw [List.map_eq_nil_iff, List.filter_eq_nil_iff]
  simp

theorem compileErrors_eq_nil_iff {b : Block} :
    compileErrors b = [] ↔ ∃ tree, b.compile = .ok tree := by
  unfold compileErrors
  cases b.compile with
  | ok tree => simp
  | error cause => simp

theorem role_of_compile {b : Block} {tree : Tree} (h : b.compile = .ok tree) :
    b.kind.role ≠ .start := by
  intro hrole
  unfold Block.compile at h
  rw [hrole] at h
  cases h

theorem executable_iff {chart : Chart} {b : Block} (hkind : b.kind ≠ .finish) :
    chart.Executable b ↔ chart.linkErrors b = [] ∧ compileErrors b = [] := by
  rw [linkErrors_eq_nil_iff, compileErrors_eq_nil_iff]
  constructor
  · intro hgiven
    rcases hgiven with hfinish | ⟨_, hcompile, hlinks⟩
    · exact absurd hfinish hkind
    · exact ⟨fun link hlink => resolves_iff.mpr (hlinks link hlink), hcompile⟩
  · intro hgiven
    rcases hgiven with ⟨hlinks, tree, hcompile⟩
    refine Or.inr ⟨role_of_compile hcompile, ⟨tree, hcompile⟩, ?_⟩
    intro link hlink
    exact resolves_iff.mp (hlinks link hlink)

theorem entry_eq_ok_iff {chart : Chart} {target : BlockId} :
    chart.entry = .ok target ↔
      ∃ b b', chart.get? chart.start = some b ∧ b.kind = .start (some target) ∧
        chart.get? target = some b' := by
  unfold entry startBlock?
  constructor
  · intro h
    split at h
    · cases h
    · next b hb =>
        split at h
        · next t hkind =>
            split at h
            · next hhas =>
                cases h
                rcases has_iff.mp hhas with ⟨b', hb'⟩
                exact ⟨b, b', hb, hkind, hb'⟩
            · cases h
        · cases h
  · intro hgiven
    rcases hgiven with ⟨b, b', hb, hkind, hb'⟩
    rw [hb]
    simp only [hkind, has_iff.mpr ⟨b', hb'⟩, if_true]

end Chart

namespace Program

open Chart

/-!
# Building

A step of a built program comes from a block within reach, and each block within reach that is not
END has a step.
-/

theorem build_eq_ok_iff {chart : Chart} {program : Program} :
    build chart = .ok program ↔
      chart.entry = .ok program.entry ∧
        (∀ b ∈ chart.reach program.entry, chart.linkErrors b = [] ∧ compileErrors b = []) ∧
        program.steps = (chart.reach program.entry).filterMap chart.step? := by
  unfold build
  cases hentry : chart.entry with
  | error e => simp
  | ok entry =>
      simp only [List.isEmpty_iff, List.flatMap_eq_nil_iff, List.append_eq_nil_iff]
      constructor
      · intro h
        split at h
        · next hnone =>
            cases h
            exact ⟨rfl, hnone, rfl⟩
        · cases h
      · intro hgiven
        rcases hgiven with ⟨hsame, hnone, hsteps⟩
        cases hsame
        rw [if_pos hnone, ← hsteps]

theorem step?_eq_some_iff {chart : Chart} {b : Block} {id : BlockId} {step : Step} :
    chart.step? b = some (id, step) ↔
      b.id = id ∧ chart.successor? b = some step.successor ∧ b.compile = .ok step.tree := by
  unfold step?
  cases hs : chart.successor? b with
  | none => simp
  | some s =>
      cases hc : b.compile with
      | error cause => simp
      | ok tree =>
          cases step
          simp [and_comm]

theorem mem_of_get? {program : Program} {id : BlockId} {step : Step}
    (h : program.get? id = some step) : (id, step) ∈ program.steps := by
  rcases List.lookup_eq_some_iff.mp h with ⟨before, after, hsteps, _⟩
  rw [hsteps]
  simp

theorem mem_keys_iff {program : Program} {id : BlockId} :
    id ∈ program.steps.map Prod.fst ↔ ∃ step, program.get? id = some step := by
  unfold get?
  rw [← Option.isSome_iff_exists, List.lookup_isSome_iff, List.mem_map]
  constructor
  · intro hgiven
    rcases hgiven with ⟨entry, hmem, rfl⟩
    exact ⟨entry, hmem, by simp⟩
  · intro hgiven
    rcases hgiven with ⟨entry, hmem, hkey⟩
    exact ⟨entry, hmem, (by simpa using hkey : id = entry.1).symm⟩

theorem resolves_of_build {chart : Chart} {program : Program}
    (hbuild : build chart = .ok program) :
    ∀ b ∈ chart.reach program.entry, ∀ link ∈ b.kind.links, chart.resolves link = true := by
  intro b hb
  exact linkErrors_eq_nil_iff.mp ((build_eq_ok_iff.mp hbuild).2.1 b hb).1

theorem block_of_get? {chart : Chart} {program : Program}
    (hbuild : build chart = .ok program) {id : BlockId} {step : Step}
    (h : program.get? id = some step) :
    ∃ b, chart.Linked program.entry id ∧ chart.get? id = some b ∧ b.kind ≠ .finish ∧
      b.compile = .ok step.tree ∧ b.kind.links = step.successor.targets.map some := by
  have hmem := mem_of_get? h
  rw [(build_eq_ok_iff.mp hbuild).2.2] at hmem
  rcases List.mem_filterMap.mp hmem with ⟨b, hreach, hstep⟩
  rcases step?_eq_some_iff.mp hstep with ⟨rfl, hsuccessor, hcompile⟩
  rcases mem_reach_iff.mp hreach with ⟨hleads, hget, hkind⟩
  exact ⟨b, linked_of_leads hleads, hget, hkind, hcompile,
    (successor?_eq_some_iff.mp hsuccessor).1⟩

theorem get?_of_block {chart : Chart} {program : Program}
    (hbuild : build chart = .ok program) {id : BlockId} {b : Block}
    (hlinked : chart.Linked program.entry id) (hget : chart.get? id = some b)
    (hkind : b.kind ≠ .finish) : ∃ step, program.get? id = some step := by
  rcases build_eq_ok_iff.mp hbuild with ⟨_, hnone, hsteps⟩
  have hreach : b ∈ chart.reach program.entry := by
    rw [mem_reach_iff, id_of_get? hget]
    exact ⟨leads_of_linked (resolves_of_build hbuild) hlinked, hget, hkind⟩
  rcases exists_successor hkind (resolves_of_build hbuild b hreach) with ⟨s, hs⟩
  rcases compileErrors_eq_nil_iff.mp (hnone b hreach).2 with ⟨tree, hcompile⟩
  refine mem_keys_iff.mp (List.mem_map.mpr ⟨(id, ⟨tree, s⟩), ?_, rfl⟩)
  rw [hsteps]
  exact List.mem_filterMap.mpr
    ⟨b, hreach, step?_eq_some_iff.mpr ⟨id_of_get? hget, hs, hcompile⟩⟩

theorem nodup_keys {chart : Chart} {program : Program} (hbuild : build chart = .ok program) :
    (program.steps.map Prod.fst).Nodup := by
  rcases build_eq_ok_iff.mp hbuild with ⟨_, _, hsteps⟩
  have hsublist : ∀ blocks : List Block,
      ((blocks.filterMap chart.step?).map Prod.fst).Sublist (blocks.map Block.id) := by
    intro blocks
    induction blocks with
    | nil => exact List.Sublist.slnil
    | cons b rest ih =>
        cases hstep : chart.step? b with
        | none =>
            rw [List.filterMap_cons_none hstep]
            exact ih.cons b.id
        | some entry =>
            have hid : b.id = entry.1 := (step?_eq_some_iff.mp hstep).1
            rw [List.filterMap_cons_some hstep, List.map_cons, List.map_cons, hid]
            exact ih.cons_cons entry.1
  rw [hsteps]
  exact (nodup_reach chart program.entry).sublist (hsublist _)

/-- The ids that a run of the program can come to. -/
inductive Visits (program : Program) : BlockId → Prop where
  | entry : Visits program program.entry
  | step {id target : BlockId} {step : Step} :
      Visits program id → program.get? id = some step → target ∈ step.successor.targets →
      Visits program target

theorem linked_of_visits {chart : Chart} {program : Program}
    (hbuild : build chart = .ok program) {id : BlockId} (h : program.Visits id) :
    chart.Linked program.entry id := by
  induction h with
  | entry => exact Linked.entry
  | step _ hget htarget ih =>
      rcases block_of_get? hbuild hget with ⟨b, _, hb, _, _, hlinks⟩
      refine Linked.link ih hb ?_
      rw [hlinks]
      exact List.mem_map_of_mem htarget

theorem exists_of_linked {chart : Chart} {program : Program}
    (hbuild : build chart = .ok program) {id : BlockId}
    (h : chart.Linked program.entry id) : ∃ b, chart.get? id = some b := by
  rcases build_eq_ok_iff.mp hbuild with ⟨hentry, _, _⟩
  have hleads := leads_of_linked (resolves_of_build hbuild) h
  refine has_iff.mp (hleads.mem_closed (fun i => chart.has i = true) ?_ ?_)
  · intro i hi
    rw [List.mem_singleton.mp hi]
    rcases entry_eq_ok_iff.mp hentry with ⟨_, b', _, _, hb'⟩
    exact has_iff.mpr ⟨b', hb'⟩
  · intro i b _ _ target htarget
    exact has_of_mem_targets htarget

theorem key_or_finish {chart : Chart} {program : Program}
    (hbuild : build chart = .ok program) {id : BlockId}
    (h : chart.Linked program.entry id) :
    id ∈ program.steps.map Prod.fst ∨ ∃ b, chart.get? id = some b ∧ b.kind = .finish := by
  rcases exists_of_linked hbuild h with ⟨b, hb⟩
  by_cases hkind : b.kind = .finish
  · exact Or.inr ⟨b, hb, hkind⟩
  · exact Or.inl (mem_keys_iff.mpr (get?_of_block hbuild h hb hkind))

theorem build_ok_iff {chart : Chart} :
    (∃ program, build chart = .ok program) ↔
      ∃ start entry first, chart.get? chart.start = some start ∧
        start.kind = .start (some entry) ∧ chart.get? entry = some first ∧
        ∀ id b, chart.Linked entry id → chart.get? id = some b → chart.Executable b := by
  constructor
  · intro hgiven
    rcases hgiven with ⟨program, hbuild⟩
    rcases build_eq_ok_iff.mp hbuild with ⟨hentry, hnone, _⟩
    rcases entry_eq_ok_iff.mp hentry with ⟨start, first, hstart, hkind, hfirst⟩
    refine ⟨start, program.entry, first, hstart, hkind, hfirst, ?_⟩
    intro id b hlinked hget
    by_cases hfinish : b.kind = .finish
    · exact Or.inl hfinish
    · refine (executable_iff hfinish).mpr (hnone b ?_)
      rw [mem_reach_iff, id_of_get? hget]
      exact ⟨leads_of_linked (resolves_of_build hbuild) hlinked, hget, hfinish⟩
  · intro hgiven
    rcases hgiven with ⟨start, entry, first, hstart, hkind, hfirst, hexecutable⟩
    refine ⟨⟨entry, (chart.reach entry).filterMap chart.step?⟩, build_eq_ok_iff.mpr ⟨?_, ?_, rfl⟩⟩
    · exact entry_eq_ok_iff.mpr ⟨start, first, hstart, hkind, hfirst⟩
    · intro b hb
      rcases mem_reach_iff.mp hb with ⟨hleads, hget, hfinish⟩
      exact (executable_iff hfinish).mp (hexecutable b.id b (linked_of_leads hleads) hget)

/-- A build succeeds exactly where START leads to a block and all within reach of it is
executable.  The program then starts there, has a step for each id within reach that is not that
of an END block, and a step is the compiled block with the block's own links.  So every
successor is a key or an END block, and a run that has nothing left to carry out is at an END
block. -/
theorem build_exact (chart : Chart) :
    ((∃ program, build chart = .ok program) ↔
      ∃ start entry first, chart.get? chart.start = some start ∧
        start.kind = .start (some entry) ∧ chart.get? entry = some first ∧
        ∀ id b, chart.Linked entry id → chart.get? id = some b → chart.Executable b) ∧
    ∀ program, build chart = .ok program →
      (∃ start, chart.get? chart.start = some start ∧
        start.kind = .start (some program.entry)) ∧
      (program.steps.map Prod.fst).Nodup ∧
      (∀ id, id ∈ program.steps.map Prod.fst ↔
        chart.Linked program.entry id ∧ ∃ b, chart.get? id = some b ∧ b.kind ≠ .finish) ∧
      (∀ id step, program.get? id = some step →
        ∃ b, chart.get? id = some b ∧ b.compile = .ok step.tree ∧
          b.kind.links = step.successor.targets.map some) ∧
      (∀ id step target, program.get? id = some step → target ∈ step.successor.targets →
        target ∈ program.steps.map Prod.fst ∨
          ∃ b, chart.get? target = some b ∧ b.kind = .finish) ∧
      ∀ id, program.Visits id → program.get? id = none →
        ∃ b, chart.get? id = some b ∧ b.kind = .finish := by
  refine ⟨build_ok_iff, ?_⟩
  intro program hbuild
  rcases build_eq_ok_iff.mp hbuild with ⟨hentry, _, _⟩
  refine ⟨?_, nodup_keys hbuild, ?_, ?_, ?_, ?_⟩
  · rcases entry_eq_ok_iff.mp hentry with ⟨start, _, hstart, hkind, _⟩
    exact ⟨start, hstart, hkind⟩
  · intro id
    rw [mem_keys_iff]
    constructor
    · intro hgiven
      rcases hgiven with ⟨step, hstep⟩
      rcases block_of_get? hbuild hstep with ⟨b, hlinked, hget, hkind, _, _⟩
      exact ⟨hlinked, b, hget, hkind⟩
    · intro hgiven
      rcases hgiven with ⟨hlinked, b, hget, hkind⟩
      exact get?_of_block hbuild hlinked hget hkind
  · intro id step hstep
    rcases block_of_get? hbuild hstep with ⟨b, _, hget, _, hcompile, hlinks⟩
    exact ⟨b, hget, hcompile, hlinks⟩
  · intro id step target hstep htarget
    rcases block_of_get? hbuild hstep with ⟨b, hlinked, hget, _, _, hlinks⟩
    refine key_or_finish hbuild (Linked.link hlinked hget ?_)
    rw [hlinks]
    exact List.mem_map_of_mem htarget
  · intro id hvisits hnone
    rcases key_or_finish hbuild (linked_of_visits hbuild hvisits) with hkey | hfinish
    · rcases mem_keys_iff.mp hkey with ⟨step, hstep⟩
      rw [hnone] at hstep
      cases hstep
    · exact hfinish

def loop : Chart where
  start := ⟨0⟩
  blocks :=
    [⟨⟨0⟩, "", .start (some ⟨1⟩)⟩, ⟨⟨1⟩, "x", .decision (some ⟨1⟩) (some ⟨2⟩)⟩,
      ⟨⟨2⟩, "", .finish⟩, ⟨⟨3⟩, ")", .output none⟩]

theorem build_exact_loop :
    build loop = .ok ⟨⟨1⟩, [(⟨1⟩, ⟨.get "x", .branch ⟨1⟩ ⟨2⟩⟩)]⟩ ∧
      ∀ id, id ∈ [(⟨1⟩ : BlockId)] ↔
        loop.Linked ⟨1⟩ id ∧ ∃ b, loop.get? id = some b ∧ b.kind ≠ .finish := by
  have hbuild : build loop = .ok ⟨⟨1⟩, [(⟨1⟩, ⟨.get "x", .branch ⟨1⟩ ⟨2⟩⟩)]⟩ := by cbv
  exact ⟨hbuild, ((build_exact loop).2 _ hbuild).2.2.1⟩

end Program
end Blockwise
