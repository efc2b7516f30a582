import Blockwise.Proofs.Desk.Diagnostics
import Blockwise.Proofs.Program.Failures

/-!
# Diagnostics and builds

A desk looks at each block by itself, and a build at the blocks that a run can reach.  What a build
finds wrong with the source of a block stands in the diagnostics, in the same words.  START blocks
are the exception: they have no source, so the desk leaves them alone, but a build refuses one that
a link leads back to.
-/

namespace Blockwise

def BuildError.IsOpenLink (e : BuildError) : Prop :=
  ∃ id, e.cause = .openLink id

namespace Chart

variable {chart : Chart} {b : Block} {e : BuildError}

theorem isOpenLink_of_entry (h : chart.entry = .error e) : e.IsOpenLink := by
  unfold entry at h
  split at h
  · cases h
    exact ⟨_, rfl⟩
  · split at h
    · split at h
      · cases h
      · cases h
        exact ⟨_, rfl⟩
    · cases h
      exact ⟨_, rfl⟩

theorem isOpenLink_or_compile (h : e ∈ chart.failures b) :
    e.IsOpenLink ∨ b.compile = .error e.cause := by
  rcases List.mem_append.mp h with hlink | hcompile
  · rcases List.mem_map.mp hlink with ⟨_, _, rfl⟩
    exact Or.inl ⟨b.id, rfl⟩
  · unfold compileErrors at hcompile
    cases hresult : b.compile with
    | ok tree =>
        rw [hresult] at hcompile
        cases hcompile
    | error cause =>
        rw [hresult, List.mem_singleton] at hcompile
        right
        rw [hcompile]

end Chart

namespace Program

variable {chart : Chart} {errors : List BuildError} {e : BuildError}

/-- What a build reports beside open links is that a block within reach does not compile. -/
theorem block_of_error (hbuild : build chart = .error errors) (he : e ∈ errors) :
    e.IsOpenLink ∨ ∃ entry id b, chart.entry = .ok entry ∧ chart.Resolved entry id ∧
      e.block = some id ∧ chart.get? id = some b ∧ b.kind ≠ .finish ∧
      b.compile = .error e.cause := by
  cases hentry : chart.entry with
  | error refusal =>
      have hsingle : build chart = .error [refusal] := by
        rw [build, hentry]
      cases hsingle.symm.trans hbuild
      rw [List.mem_singleton.mp he]
      exact Or.inl (Chart.isOpenLink_of_entry hentry)
  | ok entry =>
      rw [errors_of_build hentry hbuild] at he
      rcases List.mem_flatMap.mp he with ⟨b, hreach, hfailure⟩
      rcases Chart.mem_reach_iff.mp hreach with ⟨hleads, hget, hfinish⟩
      rcases Chart.isOpenLink_or_compile hfailure with hopen | hcompile
      · exact Or.inl hopen
      · right
        exact ⟨entry, b.id, b, rfl, Chart.resolved_of_leads hleads,
          Chart.block_of_mem_failures hfailure, hget, hfinish, hcompile⟩

end Program

namespace Desk

def LeadsToStart (chart : Chart) (e : BuildError) : Prop :=
  ∃ entry id b, chart.entry = .ok entry ∧ chart.Resolved entry id ∧ chart.get? id = some b ∧
    b.kind.role = .start ∧ e = ⟨some id, .noSource .start⟩

theorem compile_of_start {b : Block} {cause : Cause} (hstart : b.kind.role = .start)
    (hcompile : b.compile = .error cause) : cause = .noSource .start := by
  rw [Block.compile, hstart] at hcompile
  cases hcompile
  rfl

theorem start_or_source {b : Block} (hfinish : b.kind ≠ .finish) :
    b.kind.role = .start ∨ b.kind.role.isTerminal = false := by
  cases hkind : b.kind with
  | start next => exact Or.inl rfl
  | finish => exact absurd hkind hfinish
  | _ => exact Or.inr rfl

def Mentions (chart : Chart) (catalog : Catalog) (diagnostics : List (BlockId × String))
    (e : BuildError) : Prop :=
  ∃ id b, e.block = some id ∧ chart.get? id = some b ∧ b.compile = .error e.cause ∧
    (id, e.cause.fault.format catalog) ∈ diagnostics

theorem error_cases {chart : Chart} {errors : List BuildError} {e : BuildError}
    (hbuild : Program.build chart = .error errors) (he : e ∈ errors) (catalog : Catalog)
    (delay : Nat) :
    e.IsOpenLink ∨ LeadsToStart chart e ∨
      Mentions chart catalog (Desk.new chart catalog delay).diagnostics e := by
  rcases Program.block_of_error hbuild he with hopen |
    ⟨entry, id, b, hentry, hreached, hblock, hget, hfinish, hcompile⟩
  · exact Or.inl hopen
  · right
    rcases start_or_source hfinish with hstart | hsource
    · left
      refine ⟨entry, id, b, hentry, hreached, hget, hstart, ?_⟩
      rw [← hblock, ← compile_of_start hstart hcompile]
    · right
      refine ⟨id, b, hblock, hget, hcompile, ?_⟩
      rw [mem_diagnostics_new, finding?, hget]
      exact diagnosis?_eq_some_iff.mpr ⟨hsource, e.cause, hcompile, rfl⟩

/-- A build reports that a link leads nowhere, that links lead back to START, or what stands in
the diagnostics about the same block and in the same words.  So a chart without diagnostics can
only fail to build for its links. -/
theorem build_errors_are_diagnosed (chart : Chart) (catalog : Catalog) (delay : Nat)
    (errors : List BuildError) (hbuild : Program.build chart = .error errors) :
    let d := Desk.new chart catalog delay
    (∀ e ∈ errors, e.IsOpenLink ∨ LeadsToStart chart e ∨
      Mentions chart catalog d.diagnostics e) ∧
    (d.diagnostics = [] → ∀ e ∈ errors, e.IsOpenLink ∨ LeadsToStart chart e) := by
  intro d
  constructor
  · intro e he
    exact error_cases hbuild he catalog delay
  · intro hnone e he
    rcases error_cases hbuild he catalog delay with hopen | hback | ⟨_, _, _, _, _, hentry⟩
    · exact Or.inl hopen
    · exact Or.inr hback
    · have hmem : _ ∈ d.diagnostics := hentry
      rw [hnone] at hmem
      cases hmem

def startAgain : Chart where
  start := ⟨0⟩
  blocks :=
    [⟨⟨0⟩, "", .start (some ⟨1⟩)⟩, ⟨⟨1⟩, "", .decision (some ⟨0⟩) (some ⟨2⟩)⟩,
      ⟨⟨2⟩, "x", .output none⟩]

theorem build_errors_are_diagnosed_start_again :
    let broken : Cause := .expectedValue ⟨.endOfInput, 1⟩
    Program.build startAgain =
        .error [⟨some ⟨1⟩, broken⟩, ⟨some ⟨0⟩, .noSource .start⟩, Chart.openLink ⟨2⟩] ∧
      (⟨1⟩, broken.fault.format .bare) ∈ (Desk.new startAgain .bare 0).diagnostics := by
  intro broken
  have hbuild : Program.build startAgain =
      .error [⟨some ⟨1⟩, broken⟩, ⟨some ⟨0⟩, .noSource .start⟩, Chart.openLink ⟨2⟩] := by cbv
  have hreported := (build_errors_are_diagnosed startAgain .bare 0 _ hbuild).1
  constructor
  · exact hbuild
  · rcases hreported ⟨some ⟨1⟩, broken⟩ List.mem_cons_self with ⟨_, hopen⟩ |
      ⟨_, _, _, _, _, _, _, hback⟩ | ⟨_, _, hblock, _, _, hentry⟩
    · cases hopen
    · have hsource : Cause.expectedValue ⟨.endOfInput, 1⟩ = .noSource .start :=
        congrArg BuildError.cause hback
      cases hsource
    · cases hblock
      exact hentry

def backToStart : Chart where
  start := ⟨0⟩
  blocks := [⟨⟨0⟩, "", .start (some ⟨1⟩)⟩, ⟨⟨1⟩, "x", .output (some ⟨0⟩)⟩]

/-- Nothing is wrong with a block, all links lead to blocks, and yet the chart does not build. -/
theorem start_fails_undiagnosed :
    backToStart.validate = .ok () ∧
      (∀ catalog, (Desk.new backToStart catalog 0).diagnostics = []) ∧
      Program.build backToStart = .error [⟨some ⟨0⟩, .noSource .start⟩] ∧
      ¬ BuildError.IsOpenLink ⟨some ⟨0⟩, .noSource .start⟩ := by
  refine ⟨rfl, ?_, by cbv, ?_⟩
  · intro catalog
    cbv
  · rintro ⟨id, hcause⟩
    cases hcause

end Desk
end Blockwise
