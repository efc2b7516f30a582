import Blockwise.Proofs.Evaluation.Interruption
import Blockwise.Proofs.Program.Exactness
import Blockwise.Proofs.Run.Moves
import Blockwise.Proofs.Run.Session

/-!
# A worker against the sequential run

Wherever a worker stands there is a rest of the sequential run that is still to be shown.  A step
of the worker takes from the front of that rest what it shows itself, and no other step of the
worker is possible: in particular none in which it ends by an interruption.
-/

namespace Blockwise

open Program (depart attend answerFrom blind_follow)

variable {e e' : Engine} {failed failed' : Bool}

/-!
# What is left of the sequential run

The rest of the sequential run is read off where the worker stands, with the lines that are left to
read.  A worker that is done has sent the faults.
-/

def Ending.ofFaults : List Fault → Ending
  | [] => .finished
  | fault :: _ => .failed fault

namespace Engine

/-- What the sequential run still shows from where the worker stands, with these lines left to
read.  A worker that is done has sent the faults. -/
def remaining (e : Engine) (input : List String) (faults : List Fault) (blocks : Nat) : Account :=
  let go := e.program.follow blocks
  let script := Script.ofInput input
  match e.phase with
  | .entering => go ⟨e.current, e.store, script⟩
  | .arriving => go ⟨e.current, e.store, script⟩
  | .checking step =>
      (attend go step (step.tree.evaluate e.store) script).after [.entered e.current]
  | .talking step talk => attend go step talk script
  | .waiting step _ next => attend go step (next (answerFrom input)) (.ofInput input.tail)
  | .answering step talk => attend go step talk script
  | .publishing step value _ => depart go step value e.store script
  | .timing step value => depart go step value e.store script
  | .pacing step value _ => depart go step value e.store script
  | .holding step value => depart go step value e.store script
  | .held step value => depart go step value e.store script
  | .stepping step value => depart go step value e.store script
  | .leaving step value => depart go step value e.store script
  | .moving target => go ⟨target, e.store, script⟩
  | .failing fault => ⟨[], some (.failed fault)⟩
  | .reporting fault => ⟨[], some (.failed fault)⟩
  | .quitting => ⟨[], some (.ofFaults faults)⟩
  | .ended => ⟨[], some (.ofFaults faults)⟩

theorem remaining_of_departing {step : Step} {value : Value}
    (h : e.phase.departing? = some (step, value)) (input : List String) (faults : List Fault)
    (blocks : Nat) :
    e.remaining input faults blocks =
      depart (e.program.follow blocks) step value e.store (.ofInput input) := by
  unfold remaining
  cases hphase : e.phase <;> rw [hphase] at h <;> cases h <;> rfl

end Engine

/-!
# No interruption

Nothing that the worker holds is an interruption, or will be one.
-/

def Talk.Undisturbed (talk : Talk) : Prop :=
  talk.Ensures Evaluation.Answered fun r => r.1.Undisturbed ∧ r.2.Undisturbed

namespace Phase

def Undisturbed : Phase → Prop
  | checking step => Evaluation.Undisturbed Value.Undisturbed step.tree.evaluate
  | talking _ talk => Talk.Undisturbed talk
  | waiting _ _ next => ∀ line, Talk.Undisturbed (next (.ok line))
  | answering _ talk => Talk.Undisturbed talk
  | phase => ∀ step value, phase.departing? = some (step, value) → value.Undisturbed

def Reports (signalled : Bool) (faults : List Fault) : Phase → Prop
  | reporting _ => signalled = true ∧ faults = []
  | quitting => signalled = true ∧ ∃ fault, faults = [fault]
  | ended => signalled = false ∧ faults = [] ∨ signalled = true ∧ ∃ fault, faults = [fault]
  | _ => signalled = false ∧ faults = []

theorem undisturbed_iff {phase : Phase} {step : Step} {value : Value}
    (h : phase.departing? = some (step, value)) : phase.Undisturbed ↔ value.Undisturbed := by
  constructor
  · intro hphase
    cases phase with
    | publishing _ _ _ | timing _ _ | pacing _ _ _ | holding _ _ | held _ _ | stepping _ _
    | leaving _ _ => exact hphase step value h
    | _ => cases h
  · intro hvalue
    cases phase with
    | publishing _ _ _ | timing _ _ | pacing _ _ _ | holding _ _ | held _ _ | stepping _ _
    | leaving _ _ =>
        intro _ _ h'
        cases h
        cases h'
        exact hvalue
    | _ => cases h

theorem undisturbed_ofFault (fault : Fault) : (Phase.ofFault fault).Undisturbed := by
  unfold Phase.ofFault
  split
  all_goals
    intro _ _ h
    cases h

theorem undisturbed_ofChoice (successor : Successor) (value : Value) :
    (Phase.ofChoice successor value).Undisturbed := by
  unfold Phase.ofChoice
  split
  · intro _ _ h
    cases h
  · split
    · intro _ _ h
      cases h
    · intro _ _ h
      cases h
    · exact undisturbed_ofFault _
    · exact undisturbed_ofFault _

end Phase

namespace Engine

/-- What holds of a worker that nobody stops, with the faults that it has sent. -/
structure Coherent (e : Engine) (signalled : Bool) (faults : List Fault) : Prop where
  steps : ∀ id step, e.program.get? id = some step →
    Evaluation.Undisturbed Value.Undisturbed step.tree.evaluate
  store : e.store.Undisturbed
  phase : e.phase.Undisturbed
  reports : e.phase.Reports signalled faults

theorem Moves.program (h : Moves e failed failed' e') : e'.program = e.program := by
  cases h <;> rfl

theorem Moves.stops (h : Moves e failed failed' e') : e'.wires.stops = e.wires.stops := by
  cases h <;> rfl

theorem Moves.store (h : Moves e failed failed' e') (hstore : e.store.Undisturbed)
    (hphase : e.phase.Undisturbed) : e'.store.Undisturbed := by
  cases h with
  | leave htalk _ =>
      rw [htalk] at hphase
      exact hphase.2
  | _ => exact hstore

theorem Moves.phase (h : Moves e failed failed' e') {faults : List Fault}
    (he : e.Coherent failed faults) : e'.phase.Undisturbed := by
  have hphase := he.phase
  cases h with
  | arrive _ hget => exact he.steps _ _ hget
  | begin hcheck =>
      rw [hcheck] at hphase
      exact hphase e.store he.store
  | fail _ => exact Phase.undisturbed_ofFault _
  | leave htalk _ =>
      rw [htalk] at hphase
      exact (Phase.undisturbed_iff rfl).mpr hphase.1
  | write htalk =>
      rw [htalk] at hphase
      exact hphase
  | ask htalk =>
      rw [htalk] at hphase
      exact fun line => hphase (.ok line) trivial
  | look hwait =>
      rw [hwait] at hphase
      exact hphase
  | @take _ _ _ line _ hwait _ =>
      rw [hwait] at hphase
      exact hphase line
  | answer htalk =>
      rw [htalk] at hphase
      exact hphase
  | linger hdone hdone' =>
      exact (Phase.undisturbed_iff hdone').mpr ((Phase.undisturbed_iff hdone).mp hphase)
  | depart _ => exact Phase.undisturbed_ofChoice _ _
  | rest _ => exact hphase
  | enter _ | finish _ _ | move _ | raise _ | report _ | quit _ =>
      intro _ _ h
      cases h

end Engine

/-!
# Reports of faults

The worker signals a fault and sends it as it goes on to its end.
-/

namespace Phase

variable {signalled : Bool} {faults : List Fault}

theorem reports_iff {phase : Phase} {done : Step × Value} (h : phase.departing? = some done) :
    phase.Reports signalled faults ↔ signalled = false ∧ faults = [] := by
  cases phase <;> first | rfl | cases h

theorem reports_ofFault (fault : Fault) (h : signalled = false ∧ faults = []) :
    (Phase.ofFault fault).Reports signalled faults := by
  unfold Phase.ofFault
  split
  · exact Or.inl h
  · exact h

theorem reports_ofChoice (successor : Successor) (value : Value)
    (h : signalled = false ∧ faults = []) :
    (Phase.ofChoice successor value).Reports signalled faults := by
  unfold Phase.ofChoice
  split
  · exact h
  · split
    · exact h
    · exact h
    · exact reports_ofFault _ h
    · exact reports_ofFault _ h

end Phase

namespace Engine

theorem Moves.reports (h : Moves e failed failed' e') {reported : List Fault}
    (hreports : e.phase.Reports failed (reported ++ e.wires.errors.toList)) :
    e'.phase.Reports failed' (reported ++ e'.wires.errors.toList) := by
  cases h with
  | finish harrive _ =>
      rw [harrive] at hreports
      exact Or.inl hreports
  | fail htalk =>
      rw [htalk] at hreports
      exact Phase.reports_ofFault _ hreports
  | linger hdone hdone' =>
      exact (Phase.reports_iff hdone').mpr ((Phase.reports_iff hdone).mp hreports)
  | depart hleave =>
      rw [hleave] at hreports
      exact Phase.reports_ofChoice _ _ hreports
  | raise hfail =>
      rw [hfail] at hreports
      exact ⟨rfl, hreports.2⟩
  | @report fault hreport =>
      rw [hreport] at hreports
      refine ⟨hreports.1, fault, ?_⟩
      rw [Channel.toList_send, ← List.append_assoc, hreports.2]
      rfl
  | quit hquit =>
      rw [hquit] at hreports
      exact Or.inr hreports
  | rest _ => exact hreports
  | enter hphase | arrive hphase _ | begin hphase | leave hphase _ | write hphase | ask hphase
  | look hphase | take hphase _ | answer hphase | move hphase =>
      rw [hphase] at hreports
      exact hreports

theorem Moves.coherent (h : Moves e failed failed' e') {reported : List Fault}
    (he : e.Coherent failed (reported ++ e.wires.errors.toList)) :
    e'.Coherent failed' (reported ++ e'.wires.errors.toList) := by
  refine ⟨?_, h.store he.store he.phase, h.phase he, h.reports he.reports⟩
  rw [h.program]
  exact he.steps

theorem coherent_new {chart : Chart} {program : Program}
    (hbuild : Program.build chart = .ok program) : (Engine.new program).Coherent false [] := by
  refine ⟨?_, Store.undisturbed_empty, ?_, rfl, rfl⟩
  · intro id step hget
    rcases Program.block_of_get? hbuild hget with ⟨b, _, _, _, hcompile, _⟩
    exact Tree.undisturbed_of_ofSource hcompile
  · intro _ _ h
    cases h

/-!
# Output

A step sends the lines that it shows.
-/

theorem Moves.output (h : Moves e failed failed' e') :
    e'.wires.output.toList = e.wires.output.toList ++ e.sent e' := by
  unfold sent
  cases h with
  | write _ => simp
  | _ => simp [go]

theorem lines_shown (e e' : Engine) : (e.shown e').filterMap Observation.line? = e.sent e' := by
  have hlines : ∀ lines : List String,
      (lines.map Observation.wrote).filterMap Observation.line? = lines := by
    intro lines
    simp [List.filterMap_map, Function.comp_def, Observation.line?]
  unfold shown
  dsimp only
  rw [List.filterMap_append, hlines]
  split <;> rfl

/-!
# One step

A step takes what it shows from the front of what is left.  Between two blocks it shows nothing, and
a value leads the worker where it leads the sequential run.
-/

theorem shown_of_departing {done : Step × Value} (h : e.phase.departing? = some done)
    (houtput : e'.wires.output = e.wires.output) : e.shown e' = [] := by
  have hsent : e.sent e' = [] := by simp [sent, houtput]
  unfold shown
  dsimp only
  rw [hsent]
  split
  · next hphase _ =>
      rw [hphase] at h
      cases h
  · next hphase _ =>
      rw [hphase] at h
      cases h
  · rfl

theorem remaining_ofChoice {step : Step} {value : Value} (hvalue : value.Undisturbed)
    (input : List String) (faults : List Fault) (blocks : Nat) :
    (e.go (.ofChoice step.successor value)).remaining input faults blocks =
      depart (e.program.follow blocks) step value e.store (.ofInput input) := by
  have hfault : ∀ fault : Fault, fault.isInterruption = false →
      (e.go (.ofFault fault)).remaining input faults blocks = ⟨[], some (.failed fault)⟩ := by
    intro fault hfault
    simp [Phase.ofFault, hfault, remaining, go]
  unfold Phase.ofChoice depart Program.choose
  cases step.successor with
  | next target => rfl
  | branch onTrue onFalse =>
      have hboolean := Value.undisturbed_toBoolean hvalue
      dsimp only
      cases hvalue : value.toBoolean with
      | boolean b => cases b <;> rfl
      | error fault =>
          rw [hvalue] at hboolean
          exact hfault fault hboolean
      | empty | number x | string s => exact hfault _ rfl

theorem remaining_of_eq {input input' : List String} {faults faults' : List Fault}
    {shown : List Observation}
    (h : ∀ more blocks, e.remaining (input ++ more) faults blocks =
      (e'.remaining (input' ++ more) faults' blocks).after shown) :
    ∃ cost, ∀ more blocks, e.remaining (input ++ more) faults (cost + blocks) =
      (e'.remaining (input' ++ more) faults' blocks).after shown := by
  refine ⟨0, ?_⟩
  intro more blocks
  rw [Nat.zero_add]
  exact h more blocks

/-- What a step shows is what the sequential run shows next. -/
theorem Moves.remaining (h : Moves e failed failed' e') {reported : List Fault}
    (he : e.Coherent failed (reported ++ e.wires.errors.toList)) :
    ∃ cost, ∀ more blocks,
      e.remaining (e.wires.input.toList ++ more) (reported ++ e.wires.errors.toList)
          (cost + blocks) =
        (e'.remaining (e'.wires.input.toList ++ more) (reported ++ e'.wires.errors.toList)
          blocks).after (e.shown e') := by
  have hreports := he.reports
  have hphase := he.phase
  cases h with
  -- The worker only goes on, and what remains for it to do stays the same.
  | enter hgo | begin hgo | look hgo | answer hgo | move hgo | raise hgo | quit hgo =>
      refine remaining_of_eq ?_
      intro more blocks
      simp [Engine.remaining, shown, sent, go, hgo]
  | arrive harrive hget =>
      -- Here alone the sequential run has to be followed for one block more.
      refine ⟨1, ?_⟩
      intro more blocks
      simp [Engine.remaining, shown, sent, go, harrive, Nat.add_comm 1, Program.follow, hget]
  | finish harrive hget =>
      rw [harrive] at hreports
      refine ⟨1, ?_⟩
      intro more blocks
      simp [Engine.remaining, shown, sent, go, harrive, Nat.add_comm 1, Program.follow, hget,
        hreports.2, Ending.ofFaults]
  | @fail step fault store htalk =>
      -- The fault is no interruption, so the worker does not end without a report.
      rw [htalk] at hphase
      have hfault : Phase.ofFault fault = .failing fault := by
        rw [Phase.ofFault, hphase.1]
        rfl
      refine remaining_of_eq ?_
      intro more blocks
      simp [Engine.remaining, shown, sent, go, htalk, hfault, Program.attend_done,
        Program.conclude]
  | @leave step value store listing htalk hvalue =>
      refine remaining_of_eq ?_
      intro more blocks
      cases value with
      | error fault => cases hvalue
      | empty | number x | string s | boolean b =>
          simp [Engine.remaining, shown, sent, htalk, Program.attend_done, Program.conclude]
  | write htalk =>
      refine remaining_of_eq ?_
      intro more blocks
      simp [Engine.remaining, shown, sent, htalk, Program.attend_write (blind_follow _ _)]
  | ask htalk =>
      -- The rest answers the read already; which line that is, is seen when the worker takes it.
      refine remaining_of_eq ?_
      intro more blocks
      simp [Engine.remaining, shown, sent, go, htalk, Program.attend_read (blind_follow _ _)]
  | take hwait hline =>
      refine remaining_of_eq ?_
      intro more blocks
      simp [Engine.remaining, shown, sent, hwait, hline, answerFrom]
  | @linger done phase updates hdone hdone' =>
      let lingering : Engine :=
        { e with wires := { e.wires with updates := updates }, phase := phase }
      have hlinger : lingering.phase.departing? = some done := hdone'
      refine remaining_of_eq ?_
      intro more blocks
      rw [shown_of_departing hdone, Account.after_nil, remaining_of_departing hdone,
        remaining_of_departing hlinger]
      rfl
  | @depart step value hleave =>
      have hdone := departing_of hleave rfl
      rw [Phase.undisturbed_iff hdone] at hphase
      refine remaining_of_eq ?_
      intro more blocks
      rw [shown_of_departing hdone, Account.after_nil, remaining_of_departing hdone,
        remaining_ofChoice hphase]
      · rfl
      · rfl
  | @report fault hreport =>
      rw [hreport] at hreports
      refine remaining_of_eq ?_
      intro more blocks
      have hended : reported ++ (e.wires.errors.toList ++ [fault]) = [fault] := by
        rw [← List.append_assoc, hreports.2]
        rfl
      simp [Engine.remaining, shown, sent, hreport, hended, Ending.ofFaults]
  | rest hended =>
      refine remaining_of_eq ?_
      intro more blocks
      simp [shown, sent, hended]

end Engine

end Blockwise
