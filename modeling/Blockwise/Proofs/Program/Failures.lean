import Blockwise.Proofs.Program.Exactness

/-!
# Failures of a build

A build that fails reports failures of blocks within reach only.  It reports each of them, unless
one of these blocks has both a link that leads to a block and a link that does not: the walk does
not go on from such a block, and misses the failures that lie behind its good link.
-/

namespace Blockwise
namespace Chart

variable {chart : Chart} {entry id : BlockId} {b : Block} {blocks : List Block}

/-!
# Blocks behind links that resolve

The walk goes on from a block that is not half open along each link that resolves, and from one that
is half open along none.
-/

inductive Resolved (chart : Chart) (entry : BlockId) : BlockId → Prop where
  | entry : Resolved chart entry entry
  | link {id target : BlockId} {b : Block} :
      Resolved chart entry id → chart.get? id = some b → some target ∈ b.kind.links →
      chart.has target = true → Resolved chart entry target

/-- One link of the block leads to a block and another one does not. -/
def HalfOpen (chart : Chart) (b : Block) : Prop :=
  (∃ link ∈ b.kind.links, chart.resolves link = true) ∧
    ∃ link ∈ b.kind.links, chart.resolves link = false

theorem resolved_of_leads (h : Leads chart [entry] id) : chart.Resolved entry id := by
  refine h.mem_closed (chart.Resolved entry) ?_ ?_
  · intro i hi
    rw [List.mem_singleton.mp hi]
    exact Resolved.entry
  · intro i b hi hget target htarget
    exact Resolved.link hi hget (link_of_mem_targets htarget) (has_of_mem_targets htarget)

theorem mem_targets_of_link {target : BlockId} (hopen : ¬ chart.HalfOpen b)
    (hlink : some target ∈ b.kind.links) (htarget : chart.has target = true) :
    target ∈ chart.targets b := by
  apply mem_targets_of_resolves _ hlink
  intro link hmem
  by_contra hnot
  exact hopen ⟨⟨some target, hlink, htarget⟩, link, hmem, Bool.eq_false_iff.mpr hnot⟩

theorem leads_of_resolved
    (hopen : ∀ id b, chart.Resolved entry id → chart.get? id = some b → ¬ chart.HalfOpen b)
    (h : chart.Resolved entry id) : Leads chart [entry] id := by
  induction h with
  | entry => exact Leads.queued List.mem_cons_self
  | @link i target b hi hget hlink htarget ih =>
      exact Leads.target ih hget (mem_targets_of_link (hopen i b hi hget) hlink htarget)

/-!
# Errors about a block

Among blocks with distinct ids, the errors about a block are the failures of this block.
-/

def failures (chart : Chart) (b : Block) : List BuildError :=
  chart.linkErrors b ++ compileErrors b

theorem block_of_mem_failures {e : BuildError} (h : e ∈ chart.failures b) :
    e.block = some b.id := by
  rcases List.mem_append.mp h with hlink | hcompile
  · rcases List.mem_map.mp hlink with ⟨_, _, rfl⟩
    rfl
  · unfold compileErrors at hcompile
    split at hcompile
    · cases hcompile
    · rw [List.mem_singleton.mp hcompile]

theorem filter_failures (chart : Chart) (b : Block) (id : BlockId) :
    (chart.failures b).filter (fun e => e.block = some id) =
      if b.id = id then chart.failures b else [] := by
  split
  · next hid =>
      rw [List.filter_eq_self]
      intro e he
      rw [block_of_mem_failures he, hid]
      simp
  · next hid =>
      rw [List.filter_eq_nil_iff]
      intro e he
      rw [block_of_mem_failures he]
      simpa using hid

theorem filter_flatMap_failures (hnodup : (blocks.map Block.id).Nodup) (hb : b ∈ blocks) :
    (blocks.flatMap chart.failures).filter (fun e => e.block = some b.id) =
      chart.failures b := by
  induction blocks with
  | nil => cases hb
  | cons first rest ih =>
      rw [List.map_cons, List.nodup_cons] at hnodup
      rw [List.flatMap_cons, List.filter_append, filter_failures]
      -- the other blocks have other ids, and their failures drop out
      rcases List.mem_cons.mp hb with rfl | hrest
      · have hnone : (rest.flatMap chart.failures).filter (fun e => e.block = some b.id) = [] := by
          rw [List.filter_eq_nil_iff]
          intro e he
          rcases List.mem_flatMap.mp he with ⟨other, hother, hfailure⟩
          rw [block_of_mem_failures hfailure, decide_eq_true_eq, Option.some.injEq]
          intro hid
          exact hnodup.1 (List.mem_map.mpr ⟨other, hother, hid⟩)
        rw [if_pos rfl, hnone, List.append_nil]
      · have hid : first.id ≠ b.id := by
          intro hsame
          exact hnodup.1 (List.mem_map.mpr ⟨b, hrest, hsame.symm⟩)
        rw [if_neg hid, List.nil_append, ih hnodup.2 hrest]

end Chart

namespace Program

open Chart

theorem errors_of_build {chart : Chart} {entry : BlockId} {errors : List BuildError}
    (hentry : chart.entry = .ok entry) (hbuild : build chart = .error errors) :
    errors = (chart.reach entry).flatMap chart.failures := by
  unfold build at hbuild
  rw [hentry] at hbuild
  dsimp only at hbuild
  split at hbuild
  · cases hbuild
  · cases hbuild
    rfl

/-- Every error of a failed build is about a block that is reached by links that lead to blocks.
Where none of these blocks is half open, the errors about each of them are all its failures: one
for each link that leads nowhere, and the one that compiling its source ends in. -/
theorem build_reports_failures (chart : Chart) (start first : Block) (entry : BlockId)
    (errors : List BuildError) (hstart : chart.get? chart.start = some start)
    (hkind : start.kind = .start (some entry)) (hfirst : chart.get? entry = some first)
    (hbuild : build chart = .error errors) :
    (∀ e ∈ errors, ∃ id b, e.block = some id ∧ chart.Resolved entry id ∧
      chart.get? id = some b ∧ e ∈ chart.linkErrors b ++ compileErrors b) ∧
    ((∀ id b, chart.Resolved entry id → chart.get? id = some b → ¬ chart.HalfOpen b) →
      ∀ id b, chart.Resolved entry id → chart.get? id = some b → b.kind ≠ .finish →
        errors.filter (fun e => e.block = some id) = chart.linkErrors b ++ compileErrors b) := by
  have hentry : chart.entry = .ok entry :=
    entry_eq_ok_iff.mpr ⟨start, first, hstart, hkind, hfirst⟩
  rw [errors_of_build hentry hbuild]
  constructor
  · intro e he
    rcases List.mem_flatMap.mp he with ⟨b, hreach, hfailure⟩
    rcases mem_reach_iff.mp hreach with ⟨hleads, hget, _⟩
    exact ⟨b.id, b, block_of_mem_failures hfailure, resolved_of_leads hleads, hget, hfailure⟩
  · intro hopen id b hresolved hget hfinish
    have hid : b.id = id := id_of_get? hget
    have hreach : b ∈ chart.reach entry := by
      rw [mem_reach_iff, hid]
      exact ⟨leads_of_resolved hopen hresolved, hget, hfinish⟩
    rw [← hid]
    exact filter_flatMap_failures (nodup_reach chart entry) hreach

def twoFailures : Chart where
  start := ⟨0⟩
  blocks :=
    [⟨⟨0⟩, "", .start (some ⟨1⟩)⟩, ⟨⟨1⟩, "x", .decision (some ⟨2⟩) (some ⟨3⟩)⟩,
      ⟨⟨2⟩, ")", .output none⟩, ⟨⟨3⟩, "x = y", .assignment (some ⟨4⟩)⟩]

theorem build_reports_two_failures :
    ∃ errors, build twoFailures = .error errors ∧
      errors.filter (fun e => e.block = some ⟨2⟩) =
        [openLink ⟨2⟩, ⟨some ⟨2⟩, .expectedValue ⟨.symbol .closeParen, 1⟩⟩] := by
  let errors : List BuildError :=
    [openLink ⟨2⟩, ⟨some ⟨2⟩, .expectedValue ⟨.symbol .closeParen, 1⟩⟩, openLink ⟨3⟩]
  have hbuild : build twoFailures = .error errors := by cbv
  have hnone : ∀ b ∈ twoFailures.blocks, ¬ twoFailures.HalfOpen b := by
    unfold HalfOpen
    decide
  have hopen : ∀ id b, twoFailures.Resolved ⟨1⟩ id → twoFailures.get? id = some b →
      ¬ twoFailures.HalfOpen b := by
    intro id b _ hget
    exact hnone b (List.mem_of_find?_eq_some hget)
  have hreached : twoFailures.Resolved ⟨1⟩ ⟨2⟩ :=
    Resolved.link Resolved.entry rfl List.mem_cons_self rfl
  have hfailures := (build_reports_failures twoFailures _ _ ⟨1⟩ errors rfl rfl rfl hbuild).2 hopen
    ⟨2⟩ _ hreached rfl (by decide)
  refine ⟨errors, hbuild, hfailures.trans ?_⟩
  cbv

def halfOpen : Chart where
  start := ⟨0⟩
  blocks :=
    [⟨⟨0⟩, "", .start (some ⟨1⟩)⟩, ⟨⟨1⟩, "true", .decision (some ⟨2⟩) none⟩,
      ⟨⟨2⟩, "x +", .output (some ⟨1⟩)⟩]

/-- The block behind a half-open one is reached by links that lead to blocks and does not compile,
yet no error is about it. -/
theorem build_misses_failure :
    ∃ b cause errors, halfOpen.entry = .ok ⟨1⟩ ∧ halfOpen.Resolved ⟨1⟩ ⟨2⟩ ∧
      halfOpen.get? ⟨2⟩ = some b ∧ b.compile = .error cause ∧
      build halfOpen = .error errors ∧ ∀ e ∈ errors, e.block ≠ some ⟨2⟩ := by
  have hreached : halfOpen.Resolved ⟨1⟩ ⟨2⟩ :=
    Resolved.link Resolved.entry rfl List.mem_cons_self rfl
  have hcompile : Block.compile ⟨⟨2⟩, "x +", .output (some ⟨1⟩)⟩ =
      .error (.expectedValue ⟨.endOfInput, 4⟩) := by cbv
  have hbuild : build halfOpen = .error [openLink ⟨1⟩] := by cbv
  refine ⟨_, _, _, rfl, hreached, rfl, hcompile, hbuild, ?_⟩
  intro e he
  rw [List.mem_singleton.mp he]
  decide

end Program
end Blockwise
