import Blockwise.Proofs.Terminal.Answering

/-!
# How the loop ends

The loop ends with success just if the run has finished.  A stop keeps what it has found the run to
be, so a run that did not finish by itself is never taken for one that did.
-/

namespace Blockwise

namespace Conversation

variable {c c' : Conversation} {turn : Turn} {chart : Chart} {program : Program} {delay : Nat}
  {input : List String} {ending : Ending}

theorem work_of_ended {r : Run} (h : r.isLive = false) (chance : Chance) : r.work chance = r := by
  cases hengine : r.engine with
  | none => simp [Run.work, hengine]
  | some e =>
      have hphase := Run.ended_of_isLive hengine h
      simp only [Run.work, hengine, Engine.step, hphase]
      rw [← hengine]

def Truthful (c : Conversation) : Prop :=
  ∀ success, c.terminal.phase = .exited success →
    (success = true ↔ c.record.watch.run.state = .stopped .finished)

theorem Happens.truthful (h : c.Happens turn c') (hkept : c.Kept delay) (hglanced : c.Glanced)
    (hc : c.Truthful) : c'.Truthful := by
  intro success hexited
  cases h with
  | rest _ | deliver _ | endInput _ => exact hc success hexited
  | @work chance =>
      have hended := hglanced.finishing (by rw [show c.terminal.phase = _ from hexited]; rfl)
      have hsame : (c.work chance).record.watch.run = c.record.watch.run :=
        work_of_ended hended chance
      rw [hsame]
      exact hc success hexited
  | takeLines hphase _ | takeFaults hphase _ | takeUpdates hphase _ | print hphase _ _ =>
      rw [show c.terminal.phase = _ from hexited] at hphase
      cases hphase
  | leave hphase _ =>
      change c.terminal.leave.phase = _ at hexited
      change success = true ↔ c.record.watch.run.state = _
      rw [← hkept.run]
      cases hcase : c.terminal.phase with
      | closing =>
          simp only [Terminal.leave, hcase, Terminal.Phase.exited.injEq] at hexited
          rw [← hexited, decide_eq_true_iff]
      | flushing finished =>
          simp only [Terminal.leave, hcase] at hexited
          split at hexited <;> cases hexited
      | _ =>
          rw [hcase] at hphase
          cases hphase
  | stop hphase _ _ _ | stopping hphase _ _ =>
      rw [show c.terminal.phase = _ from hexited] at hphase
      cases hphase
  | look _ | unprompted _ _ | again _ _ _ | prompt _ _ _ | hand _ _ _ | retry _ _ _ _
  | stopped _ _ _ => cases hexited

theorem truthful_start (hbuild : Program.build chart = .ok program) (catalog : Catalog)
    (delay : Nat) (input : List String) : (start chart catalog delay input).Truthful := by
  intro success hexited
  simp [start, Terminal.start, Run.start, Run.new, hbuild] at hexited

theorem truthful_perform (hbuild : Program.build chart = .ok program) (catalog : Catalog)
    (delay : Nat) (input : List String) (turns : List Turn) :
    ((start chart catalog delay input).perform turns).Truthful := by
  induction turns using List.reverseRecOn with
  | nil => exact truthful_start hbuild catalog delay input
  | append_singleton turns turn ih =>
      rw [perform_concat]
      exact (happens_step _ turn).truthful (kept_perform chart catalog delay input turns)
        (glanced_perform chart catalog delay input turns) ih

def Judged (c : Conversation) : Prop :=
  c.stop ≠ none → c.record.watch.Given .finished → c.session.run.state = .stopped .finished

theorem Happens.judged (h : c.Happens turn c') (hkept : c.Kept delay)
    (hfed : c.Fed chart delay input) (hc : c.Judged) : c'.Judged := by
  intro hsome hgiven
  have horderly := hkept.reachable.orderly
  -- The run that the loop has stopped is not followed any more.
  have hstep : ∀ a : Act, a ≠ .call .stop → c.stop ≠ none →
      (c.record.watch.step a).Given .finished →
        (c.onRun a).session.run.state = .stopped .finished := by
    intro a ha hstopped hlater
    have hsession : (c.onRun a).session = c.session := by simp [onRun, hstopped]
    rw [hsession]
    apply hc hstopped
    rcases (Watch.happens_act c.record.watch a).given horderly hlater with
      hbefore | ⟨hstop, _⟩ | haborted | ⟨hfailed, _⟩
    · exact hbefore
    · exact absurd hstop ha
    · cases haborted
    · cases hfailed
  cases h with
  | work | takeLines _ _ | takeFaults _ _ | takeUpdates _ _ | hand _ _ _ | stopping _ _ _
  | stopped _ _ _ => exact hstep _ (by simp) hsome hgiven
  | stop hphase hfree _ _ =>
      have hnone := (hkept.stands.of_serving (by rw [hphase]; rfl) hfree).1
      have hsession : (c.onRun (.call .stop)).session = c.session := by simp [onRun, Act.event?]
      change (c.onRun (.call .stop)).session.run.state = _
      rw [hsession, hfed.run hnone]
      rcases (Watch.happens_act c.record.watch (.call .stop)).given horderly hgiven with
        (hstage | hreason) | ⟨_, hreason, hstage⟩ | haborted | ⟨hfailed, _⟩
      · exact Run.state_of_stopped hstage
      · rw [hfree] at hreason
        cases hreason
      · exact Run.state_of_ended hstage hreason
      · cases haborted
      · cases hfailed
  | _ => exact hc hsome hgiven

theorem judged_perform (chart : Chart) (catalog : Catalog) (delay : Nat) (input : List String)
    (turns : List Turn) : ((start chart catalog delay input).perform turns).Judged := by
  induction turns using List.reverseRecOn with
  | nil => exact fun hsome => absurd rfl hsome
  | append_singleton turns turn ih =>
      rw [perform_concat]
      exact (happens_step _ turn).judged (kept_perform chart catalog delay input turns)
        (fed_perform chart catalog delay input turns) ih

end Conversation

theorem Session.Tracks.ending_with {program : Program} {s : Session} {e : Engine}
    (h : s.Tracks program e) (hended : s.run.isLive = false) (more : List String) :
    ∃ blocks, (program.reference (s.submitted ++ more) blocks).ending =
      some (.ofFaults s.faults) := by
  rcases h.reference with ⟨cost, hreference⟩
  refine ⟨cost + 0, ?_⟩
  rw [hreference more 0, h.faults_eq]
  simp [Engine.remaining, h.ended hended, Account.after]

namespace Conversation

variable {c : Conversation} {chart : Chart} {program : Program} {delay : Nat}
  {input : List String} {ending : Ending}

theorem Fed.finished_iff (h : c.Fed chart delay input)
    (hbuild : Program.build chart = .ok program) (hinput : program.Completes input ending)
    (hended : c.session.run.isLive = false) :
    c.session.run.state = .stopped .finished ↔ ending = .finished := by
  rcases h.tracks hbuild with ⟨e, htracks⟩
  rcases hinput.ends with ⟨blocks, hends⟩
  have hgiven := htracks.ending_with hended (c.terminal.lines.toList ++ c.unread)
  rw [← List.append_assoc, show c.session.submitted ++ c.terminal.lines.toList ++ c.unread = input
    from h.lines] at hgiven
  have hsame := (Program.ends_iff hends).mp hgiven
  rcases htracks.reports hended with ⟨hstate, hfaults⟩ | ⟨hstate, fault, hfaults⟩
  · rw [hfaults] at hsame
    simp [hstate, ← hsame, Ending.ofFaults]
  · rw [hfaults] at hsame
    simp [hstate, ← hsame, Ending.ofFaults]

/-- What the loop tells by its end: the ending, if it has not stopped the run, and in any case no
success that is none. -/
theorem Fed.exited (h : c.Fed chart delay input) (hkept : c.Kept delay)
    (hglanced : c.Glanced) (htruthful : c.Truthful) (hjudged : c.Judged)
    (hbuild : Program.build chart = .ok program) (hinput : program.Completes input ending)
    {success : Bool} (hexited : c.terminal.phase = .exited success) :
    (success = true → ending = .finished) ∧
      (c.stop = none → ending = .finished → success = true) := by
  have hended : c.record.watch.run.isLive = false :=
    hglanced.finishing (by rw [hexited]; rfl)
  have hsuccess := htruthful success hexited
  cases hstop : c.stop with
  | none =>
      have hiff := h.finished_iff hbuild hinput
      rw [h.run hstop] at hiff
      rw [hsuccess, hiff hended]
      exact ⟨id, fun _ => id⟩
  | some g =>
      refine ⟨?_, nofun⟩
      intro hsuccessful
      have hstate := hsuccess.mp hsuccessful
      have hengine : c.record.watch.run.engine = none := by
        cases hkept.stands with
        | unstopped hnone _ _ => cases hnone.symm.trans hstop
        | stopping _ _ hfetching => cases hexited.symm.trans hfetching
        | stopped _ _ hengine _ => exact hengine
      have hstage : c.record.watch.run.stage = .stopped .finished := by
        cases hkept.reachable.orderly.staged with
        | idle hidle _ _ _ _ => cases (Run.state_of_idle hidle).symm.trans hstate
        | running _ hsome => cases hengine.symm.trans hsome
        | stopped hstage _ _ =>
            rw [← hstate, Run.state_of_stopped hstage]
            exact hstage
      have hbefore := hjudged (by simp [hstop]) (Or.inl hstage)
      rcases h.tracks hbuild with ⟨e, htracks⟩
      exact (h.finished_iff hbuild hinput (htracks.isLive_iff.mpr ⟨_, hbefore⟩)).mp hbefore

end Conversation

end Blockwise
