import Blockwise.Proofs.Run.Delivery

/-!
# Runs that are over

A run whose worker has ended sends nothing more.  So a channel that is found empty then stays
empty, and all that was ever sent on it has been taken, unless the channels were given up before.
-/

namespace Blockwise

namespace Duty

def isStop : Duty → Bool
  | cancelling _ | notifying _ | releasing _ | joining _ => true
  | _ => false

end Duty

namespace Act

def isPlain : Act → Bool
  | call (.start _) | call .drainOutput | call .drainErrors | call .drainUpdates => false
  | _ => true

def isStart : Act → Bool
  | call (.start _) => true
  | _ => false

theorem isStart_of_isPlain {a : Act} (h : a.isPlain = true) : a.isStart = false := by
  unfold isStart
  split
  · cases h
  · rfl

end Act

theorem Channel.toList_of_drain {α : Type} {c : Channel α} (h : c.drain.1 = []) :
    c.toList = [] := by
  rcases c with ⟨⟨queued⟩⟩
  cases queued with
  | nil => rfl
  | cons first rest => simp [drain, batch] at h

namespace Run

variable {r : Run}

def queuedFaults (r : Run) : List Fault :=
  match r.engine with
  | none => []
  | some e => e.wires.errors.toList

theorem queuedLines_of_drain (h : r.drainOutput.1 = []) : r.queuedLines = [] := by
  unfold drainOutput at h
  unfold queuedLines
  cases hengine : r.engine with
  | none => rfl
  | some e =>
      rw [hengine] at h
      exact Channel.toList_of_drain h

theorem queuedFaults_of_drain (h : r.drainErrors.1 = []) : r.queuedFaults = [] := by
  unfold drainErrors at h
  unfold queuedFaults
  cases hengine : r.engine with
  | none => rfl
  | some e =>
      rw [hengine] at h
      exact Channel.toList_of_drain h

theorem queuedUpdates_of_drain (h : r.drainUpdates.1 = []) : r.queuedUpdates = [] := by
  unfold drainUpdates at h
  unfold queuedUpdates
  cases hengine : r.engine with
  | none => rfl
  | some e =>
      rw [hengine] at h
      exact Channel.toList_of_drain h

end Run

/-!
# One act

Only a start brings a worker, and one that has ended does nothing more.
-/

namespace Watch

variable {w w' : Watch} {a : Act}

/-- Nobody has asked for the end of the run. -/
def Unstopped (w : Watch) : Prop :=
  w.duty.isStop = false ∧ w.run.signals.cancelled = false

theorem unstopped_new (delay : Nat) : (new delay).Unstopped :=
  ⟨rfl, rfl⟩

theorem Happens.unstopped (h : Happens w a w') (ha : a ≠ .call .stop) (hw : w.Unstopped) :
    w'.Unstopped := by
  rcases hw with ⟨hduty, hcancelled⟩
  cases h with
  | work _ hsteps => exact ⟨hduty, hsteps.cancelled.trans hcancelled⟩
  | stop _ => exact absurd rfl ha
  | cancel hstop | notify hstop | release hstop | close hstop _ =>
      rw [hstop] at hduty
      cases hduty
  | rest | launch _ _ _ | refuse _ _ _ | retime _ | serve _ _ _ _ _ => exact ⟨hduty, hcancelled⟩
  | pause _ _ | resume _ _ | advance _ _ | drop _ | set _ | request _ => exact ⟨rfl, hcancelled⟩

theorem Happens.deeds_of_none (h : Happens w a w') (hw : w.Orderly)
    (hdeeds : w.run.engine = none → w.run.signals.cancelled = false → w.deeds = [])
    (hnone : w'.run.engine = none) (hcancelled : w'.run.signals.cancelled = false) :
    w'.deeds = [] := by
  have hduty := hw.duty
  cases h with
  | work _ _ | launch _ _ _ | serve _ _ _ _ _ => cases hnone
  | cancel _ => cases hcancelled
  | close hjoin _ =>
      rw [hjoin] at hduty
      cases hcancelled.symm.trans hduty
  | notify _ => exact hdeeds (Option.map_eq_none_iff.mp hnone) hcancelled
  | _ => exact hdeeds hnone hcancelled

theorem deeds_of_none (delay : Nat) (acts : List Act) :
    let w := (new delay).perform acts
    w.run.engine = none → w.run.signals.cancelled = false → w.deeds = [] :=
  @always_orderly (fun w => w.run.engine = none → w.run.signals.cancelled = false → w.deeds = [])
    (fun _ _ _ => rfl) (fun w a hw hdeeds => (happens_act w a).deeds_of_none hw hdeeds) delay acts

theorem Happens.ended (h : Happens w a w') (ha : a.isStart = false)
    (hended : w.run.isLive = false) : w'.run.isLive = false ∧ w'.deeds = w.deeds := by
  cases h with
  | work hengine hsteps =>
      rcases hsteps.of_ended (Run.ended_of_isLive hengine hended) with ⟨rfl, rfl, rfl⟩
      refine ⟨?_, List.append_nil _⟩
      simpa [Run.isLive, hengine] using hended
  | launch _ _ _ => cases ha
  | serve _ hengine _ _ _ =>
      refine ⟨?_, rfl⟩
      simpa [Run.isLive, hengine] using hended
  | notify _ =>
      refine ⟨?_, rfl⟩
      cases hengine : w.run.engine with
      | none => simp [Run.isLive, Run.engine_sendStop_of_none hengine]
      | some e =>
          simpa [Run.isLive, hengine, Run.engine_sendStop_of_some hengine] using hended
  | close _ _ => exact ⟨rfl, rfl⟩
  | _ => exact ⟨hended, rfl⟩

theorem Happens.engine_of_none (h : Happens w a w') (ha : a.isStart = false)
    (hnone : w.run.engine = none) : w'.run.engine = none := by
  cases h with
  | launch _ _ _ => cases ha
  | work hsome _ | serve _ hsome _ _ _ => cases hnone.symm.trans hsome
  | notify _ => exact Run.engine_sendStop_of_none hnone
  | close _ _ => rfl
  | _ => exact hnone

theorem Happens.reported_prefix (h : Happens w a w') : w.reported <+: w'.reported := by
  cases h with
  | serve _ _ _ _ _ => exact List.prefix_append _ _
  | _ => exact List.prefix_rfl

theorem linesBy_of_isPlain (h : a.isPlain = true) : w.linesBy a = [] := by
  unfold linesBy
  split
  · cases h
  · rfl

theorem reported_of_isPlain (h : a.isPlain = true) : (w.act a).reported = w.reported := by
  cases a with
  | work chance => rfl
  | proceed =>
      unfold act proceed
      cases w.duty <;> try rfl
      dsimp only
      split <;> rfl
  | call call =>
      unfold act
      dsimp only
      split
      · cases call with
        | pause | resume | advance =>
            simp only [enter]
            split <;> rfl
        | drainErrors => cases h
        | _ => rfl
      · rfl

end Watch

/-!
# Whole runs

The run stays over, so that no channel that was emptied is filled again.
-/

namespace Record

variable {r : Record} {a : Act} {delay : Nat} {acts : List Act}

/-- The run is over, and everything that it sent was taken. -/
structure Complete (r : Record) : Prop where
  ended : r.watch.run.isLive = false
  lines : r.lines = r.watch.written
  faults : r.watch.reported = r.watch.reports
  updates : r.updates = r.watch.updated

structure Rests (r r' : Record) : Prop where
  ended : r'.watch.run.isLive = false
  lines : r.lines = r.watch.written → r'.lines = r'.watch.written
  faults : r.watch.reported = r.watch.reports → r'.watch.reported = r'.watch.reports
  updates : r.updates = r.watch.updated → r'.updates = r'.watch.updated

theorem Complete.rest {r' : Record} (h : r.Complete) (hrests : r.Rests r') : r'.Complete where
  ended := hrests.ended
  lines := hrests.lines h.lines
  faults := hrests.faults h.faults
  updates := hrests.updates h.updates

theorem honest_perform (delay : Nat) (acts : List Act) :
    ((new delay).perform acts).watch.Honest acts := by
  rw [watch_perform]
  exact Watch.honest_perform delay acts

/-- What was taken and what is queued make up what was sent, unless the channels were given up. -/
theorem rest_of_unstopped (hunstopped : ((new delay).perform acts).watch.Unstopped) :
    let r := (new delay).perform acts
    r.lines ++ r.watch.run.queuedLines = r.watch.written ∧
    r.watch.reported ++ r.watch.run.queuedFaults = r.watch.reports ∧
    r.updates ++ r.watch.run.queuedUpdates = r.watch.updated := by
  intro r
  have hdelivered : r.Delivered := delivered_perform delay acts
  have hhonest : r.watch.Honest acts := honest_perform delay acts
  have hdeeds : r.watch.run.engine = none → r.watch.deeds = [] := by
    have hwatch : r.watch = (Watch.new delay).perform acts := watch_perform _ acts
    intro hnone
    have hcancelled := hunstopped.2
    rw [hwatch] at hnone hcancelled ⊢
    exact Watch.deeds_of_none delay acts hnone hcancelled
  cases hengine : r.watch.run.engine with
  | some e =>
      rcases hdelivered.rest (by simp [hengine]) with ⟨hlines, hupdates⟩
      refine ⟨hlines, ?_, hupdates⟩
      rw [Run.queuedFaults, hengine]
      exact (hhonest.live e hengine).reported
  | none =>
      have hlines := hdelivered.lines
      have hreported := (hhonest.closed hengine).2
      have hupdates := hdelivered.updates
      simp only [Watch.written, Watch.reports, Watch.updated, hdeeds hengine,
        List.filterMap_nil, List.prefix_nil] at hlines hreported hupdates ⊢
      simp [hlines, hreported, hupdates, Run.queuedLines, Run.queuedFaults, Run.queuedUpdates,
        hengine]

theorem rests_step (hended : ((new delay).perform acts).watch.run.isLive = false)
    (ha : a.isStart = false) :
    ((new delay).perform acts).Rests (((new delay).perform acts).step a) := by
  have hafter : (((new delay).perform acts).step a).Delivered := by
    rw [← perform_concat]
    exact delivered_perform delay (acts ++ [a])
  have hhonest := honest_perform delay (acts ++ [a])
  rw [perform_concat] at hhonest
  generalize (new delay).perform acts = r at hended hafter hhonest ⊢
  have hact := Watch.happens_act r.watch a
  rcases hact.ended ha hended with ⟨hended', hdeeds⟩
  have hdeeds' : (r.step a).watch.deeds = r.watch.deeds := hdeeds
  refine ⟨hended', ?_, ?_, ?_⟩
  · intro hlines
    apply hafter.lines.eq_of_length_le
    rw [Watch.written, hdeeds', ← Watch.written, ← hlines]
    exact (List.prefix_append _ _).length_le
  · intro hreported
    rcases hhonest.exists_tells with ⟨_, _, _, hprefix⟩
    apply hprefix.eq_of_length_le
    rw [Watch.reports, hdeeds', ← Watch.reports, ← hreported]
    exact hact.reported_prefix.length_le
  · intro hupdates
    apply hafter.updates.eq_of_length_le
    rw [Watch.updated, hdeeds', ← Watch.updated, ← hupdates]
    exact (List.prefix_append _ _).length_le

end Record
end Blockwise
