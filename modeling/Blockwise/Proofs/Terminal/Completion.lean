import Blockwise.Proofs.Terminal.Pace

/-!
# Conversations that come to their end

If the worker, the reader and the loop go on again and again, a run that has lines enough comes to
its end, or the loop stops it.  While the worker waits, the reader fetches a line and the loop hands
it over; else the worker goes on.  Once the worker has ended, the loop prints what is left and ends.
-/

namespace Blockwise

namespace Conversation

variable {c c' : Conversation} {turn : Turn} {chart : Chart} {program : Program} {delay : Nat}
  {input : List String} {ending : Ending}

/-!
# Schedules

A schedule says whose turn it is at each moment.  It is fair if all three get their turns again and
again, and every delay passes.
-/

def after (c : Conversation) (schedule : Nat → Turn) : Nat → Conversation
  | 0 => c
  | n + 1 => (c.after schedule n).step (schedule n)

theorem after_eq_perform (c : Conversation) (schedule : Nat → Turn) (n : Nat) :
    c.after schedule n = c.perform ((List.range n).map schedule) := by
  induction n with
  | zero => rfl
  | succ n ih =>
    rw [List.range_succ, List.map_append, List.map_singleton, perform_concat, ← ih, after]

structure Fair (schedule : Nat → Turn) : Prop where
  works : ∀ n, ∃ m, n ≤ m ∧ ∃ chance, schedule m = .work chance ∧ chance.delayOver = true
  reads : ∀ n, ∃ m, n ≤ m ∧ schedule m = .read
  proceeds : ∀ n, ∃ m, n ≤ m ∧ schedule m = .proceed

/-!
# What a turn leaves as it was

While the loop stops the run it does nothing else, and only the worker goes on.
-/

theorem Happens.stop_cases (h : c.Happens turn c') :
    c'.stop = c.stop ∨ c.terminal.phase = .fetching ∧ c.record.watch.duty = .free ∧
      c.terminal.lines.toList = [] ∧ c.terminal.inputEnded = true ∧ c'.stop ≠ none := by
  cases h with
  | stop hphase hfree hlines hended => exact Or.inr ⟨hphase, hfree, hlines, hended, by simp⟩
  | _ => exact Or.inl rfl

theorem Happens.free (h : c.Happens turn c') (hfree : c.record.watch.duty = .free)
    (hstop : c'.stop = c.stop) (hc : c.Kept delay) : c'.record.watch.duty = .free := by
  cases h with
  | work | takeLines _ _ | takeFaults _ _ | takeUpdates _ _ | hand _ _ _ =>
      exact (Watch.duty_of_event rfl).trans hfree
  | stop hphase _ _ _ =>
      have hnone := (hc.stands.of_serving (by rw [hphase]; rfl) hfree).1
      cases hstop.trans hnone
  | stopping _ hbusy _ | stopped _ hbusy _ => exact absurd hfree hbusy
  | _ => exact hfree

theorem Happens.stays_ended (h : c.Happens turn c')
    (hended : c.record.watch.run.isLive = false) : c'.record.watch.run.isLive = false := by
  rcases h.record with hsame | ⟨a, ha, hstep⟩
  · rw [hsame]
    exact hended
  · rw [hstep]
    exact isLive_step ha hended

theorem record_of_stopping (hphase : c.terminal.phase = .fetching)
    (hbusy : c.record.watch.duty ≠ .free) (turn : Turn) :
    (c.step turn).record.watch =
      match turn with
      | .work chance => c.record.watch.step (.work chance)
      | .read => c.record.watch
      | .proceed => c.record.watch.step .proceed := by
  have hhappens := c.happens_step turn
  generalize c.step turn = c' at hhappens
  cases hhappens with
  | work | deliver _ | endInput _ | stopping _ _ _ | stopped _ _ _ => rfl
  | takeLines h _ | takeFaults h _ | takeUpdates h _ | print h _ _ | leave h _ =>
      rw [hphase] at h
      cases h
  | rest h | look h | unprompted h _ | again h _ _ | prompt h _ _ => cases hphase.symm.trans h
  | hand _ hfree _ | stop _ hfree _ _ | retry _ hfree _ _ => exact absurd hfree hbusy

/-- A conversation as it goes on under a schedule. -/
structure Course (chart : Chart) (delay : Nat) (input : List String) (schedule : Nat → Turn)
    (x : Nat → Conversation) : Prop where
  step : ∀ n, x (n + 1) = (x n).step (schedule n)
  steady : ∀ n, (x n).Steady chart delay input

theorem course_after (chart : Chart) (catalog : Catalog) (delay : Nat) (input : List String)
    (schedule : Nat → Turn) :
    Course chart delay input schedule ((start chart catalog delay input).after schedule) where
  step := fun _ => rfl
  steady := by
    intro n
    rw [after_eq_perform]
    exact steady_perform chart catalog delay input _

namespace Course

variable {schedule : Nat → Turn} {x : Nat → Conversation}

theorem happens (h : Course chart delay input schedule x) (n : Nat) :
    (x n).Happens (schedule n) (x (n + 1)) := by
  rw [h.step]
  exact happens_step _ _

/-!
# Ended workers

When the worker has ended, each step of the loop brings it closer to its end, unless it stops the
run first.
-/

theorem exists_exited_of_ended (h : Course chart delay input schedule x) (hfair : Fair schedule)
    {n : Nat} (hfree : (x n).record.watch.duty = .free)
    (hended : (x n).record.watch.run.isLive = false) :
    ∃ m, n ≤ m ∧ ((∃ success, (x m).terminal.phase = .exited success) ∨
      (x n).stop = none ∧ (x m).stop ≠ none) := by
  let stays := fun k => (x k).record.watch.duty = .free ∧
    (x k).record.watch.run.isLive = false ∧ (x k).stop = (x n).stop
  refine exists_goal stays (fun k => (x k).toGo) hfair.proceeds ?_
    ⟨hfree, hended, rfl⟩
  rintro k ⟨hfree', hended', hstop'⟩
  have hhappens := h.happens k
  have hkept := (h.steady k).kept
  rcases hhappens.stop_cases with hsame | ⟨hphase, _, _, _, hsome⟩
  · have hstays : stays (k + 1) :=
      ⟨hhappens.free hfree' hsame hkept, hhappens.stays_ended hended', hsame.trans hstop'⟩
    cases hturn : schedule k with
    | work chance =>
        have htoGo : (x (k + 1)).toGo = (x k).toGo := by
          rw [h.step, hturn]
          exact toGo_work_of_ended hended' chance
        exact Or.inr ⟨hstays, Nat.le_of_eq htoGo, nofun⟩
    | read =>
        have htoGo : (x (k + 1)).toGo = (x k).toGo := by
          rw [h.step, hturn]
          exact toGo_read _
        exact Or.inr ⟨hstays, Nat.le_of_eq htoGo, nofun⟩
    | proceed =>
        rw [hturn] at hhappens
        have hdead : ¬ (x k).record.watch.run.isLive = true := by simp [hended']
        rcases hhappens.toGo_lt hkept hfree' (fun hlive => absurd hlive hdead) with
          hless | hexited | ⟨hlive, _⟩ | ⟨hnone, hsome⟩
        · exact Or.inr ⟨hstays, Nat.le_of_lt hless, fun _ => hless⟩
        · exact Or.inl (Or.inl hexited)
        · exact absurd hlive hdead
        · exact absurd (hsame.trans hnone) hsome
  · left
    right
    have hnone := (hkept.stands.of_serving (by rw [hphase]; rfl) hfree').1
    exact ⟨hstop'.symm.trans hnone, hsome⟩

/-!
# Workers at work

The run has only so much to show.  Before each thing the worker takes its steps, or waits until the
reader has fetched a line and the loop has handed it over.
-/

theorem step_cases (h : Course chart delay input schedule x)
    (hbuild : Program.build chart = .ok program) {n k : Nat} (hnone : (x k).stop = none)
    (hlevel : Level (x n) (x k)) :
    ((x (k + 1)).stop ≠ none ∨ Closer (x n) (x (k + 1))) ∨
      (x (k + 1)).stop = none ∧ Level (x k) (x (k + 1)) ∧ Level (x n) (x (k + 1)) ∧
        ((x n).record.watch.run.asks = true → (x k).terminal.lines.toList ≠ [] →
          (x (k + 1)).terminal.lines.toList ≠ []) := by
  by_cases hstop : (x (k + 1)).stop = none
  · have hnone' : ((x k).step (schedule k)).stop = none := by
      rw [← h.step]
      exact hstop
    have hcases := (h.steady k).step_cases hbuild hnone hnone'
    rw [← h.step] at hcases
    rcases hcases with hcloser | ⟨hlevel', hlines⟩
    · exact Or.inl (Or.inr (hlevel.closer hcloser))
    · have hboth := hlevel.trans hlevel'
      exact Or.inr ⟨hstop, hlevel', hboth, fun hasks => hlines (hboth.asks.trans hasks)⟩
  · exact Or.inl (Or.inl hstop)

theorem exists_closer_of_work (h : Course chart delay input schedule x) (hfair : Fair schedule)
    (hbuild : Program.build chart = .ok program) {n : Nat} (hnone : (x n).stop = none)
    (hlive : (x n).record.watch.run.isLive = true)
    (hasks : (x n).record.watch.run.asks = false) :
    ∃ m, n ≤ m ∧ ((x m).stop ≠ none ∨ Closer (x n) (x m)) := by
  let stays := fun k => (x k).stop = none ∧ Level (x n) (x k)
  refine exists_goal_of_helps stays hfair.works ?_ ?_ ⟨hnone, rfl, rfl, rfl⟩
  · rintro k ⟨hnone', hlevel⟩
    rcases h.step_cases hbuild hnone' hlevel with hgoal | ⟨hstop, _, hboth, _⟩
    · exact Or.inl hgoal
    · exact Or.inr ⟨hstop, hboth⟩
  · rintro k ⟨hnone', hlevel⟩ ⟨chance, hturn, hover⟩
    right
    rcases (h.steady k).work_cases hbuild hnone' chance with hcloser | ⟨_, hwaits⟩
    · rw [h.step, hturn]
      exact hlevel.closer hcloser
    · have hwaiting := hwaits hover (hlevel.isLive.trans hlive)
      cases (hlevel.asks.trans hasks).symm.trans hwaiting

theorem exists_line (h : Course chart delay input schedule x) (hfair : Fair schedule)
    (hbuild : Program.build chart = .ok program) (hinput : program.Completes input ending)
    {n : Nat} (hnone : (x n).stop = none) (hasks : (x n).record.watch.run.asks = true) :
    ∃ m, n ≤ m ∧ (((x m).stop ≠ none ∨ Closer (x n) (x m)) ∨
      (x m).stop = none ∧ Level (x n) (x m) ∧ (x m).terminal.lines.toList ≠ []) := by
  let stays := fun k => (x k).stop = none ∧ Level (x n) (x k)
  refine exists_goal_of_helps stays hfair.reads ?_ ?_ ⟨hnone, rfl, rfl, rfl⟩
  · rintro k ⟨hnone', hlevel⟩
    rcases h.step_cases hbuild hnone' hlevel with hgoal | ⟨hstop, _, hboth, _⟩
    · exact Or.inl (Or.inl hgoal)
    · exact Or.inr ⟨hstop, hboth⟩
  · rintro k ⟨hnone', hlevel⟩ hread
    rcases h.step_cases hbuild hnone' hlevel with hgoal | ⟨hstop, _, hboth, _⟩
    · exact Or.inl hgoal
    · refine Or.inr ⟨hstop, hboth, ?_⟩
      have hline := (h.steady k).fed.exists_line (h.steady k).kept hbuild hinput hnone'
        (hlevel.asks.trans hasks)
      rw [h.step, hread]
      change (x k).read.terminal.lines.toList ≠ []
      unfold read
      split
      · simp [Terminal.deliver]
      · next hunread =>
        rw [hunread, List.append_nil] at hline
        exact hline

theorem exists_closer_of_line (h : Course chart delay input schedule x) (hfair : Fair schedule)
    (hbuild : Program.build chart = .ok program) {n : Nat} (hnone : (x n).stop = none)
    (hasks : (x n).record.watch.run.asks = true) (hlines : (x n).terminal.lines.toList ≠ []) :
    ∃ m, n ≤ m ∧ ((x m).stop ≠ none ∨ Closer (x n) (x m)) := by
  let stays := fun k => (x k).stop = none ∧ Level (x n) (x k) ∧ (x k).terminal.lines.toList ≠ []
  refine exists_goal stays (fun k => (x k).toGo) hfair.proceeds ?_
    ⟨hnone, ⟨rfl, rfl, rfl⟩, hlines⟩
  rintro k ⟨hnone', hlevel, hlines'⟩
  rcases h.step_cases hbuild hnone' hlevel with hgoal | ⟨hstop, hstep, hboth, hkeeps⟩
  · exact Or.inl hgoal
  · right
    have hasks' := hlevel.asks.trans hasks
    have hasks'' := hboth.asks.trans hasks
    have hstays : stays (k + 1) := ⟨hstop, hboth, hkeeps hasks hlines'⟩
    cases hturn : schedule k with
    | work chance =>
        have htoGo : (x (k + 1)).toGo = (x k).toGo := by
          rw [h.step, hturn]
          exact (h.steady k).toGo_work_of_asks hnone' hasks' chance
        exact ⟨hstays, Nat.le_of_eq htoGo, nofun⟩
    | read =>
        have htoGo : (x (k + 1)).toGo = (x k).toGo := by
          rw [h.step, hturn]
          exact toGo_read _
        exact ⟨hstays, Nat.le_of_eq htoGo, nofun⟩
    | proceed =>
        have hhappens := h.happens k
        rw [hturn] at hhappens
        have hkept := (h.steady k).kept
        have hfree := (hkept.stands.of_unstopped hnone').2
        rcases hhappens.toGo_lt hkept hfree fun _ => ⟨hasks', hlines'⟩ with
          hless | ⟨success, hexited⟩ | ⟨_, hsilent⟩ | ⟨_, hsome⟩
        · exact ⟨hstays, Nat.le_of_lt hless, fun _ => hless⟩
        · have hended := (h.steady (k + 1)).glanced.finishing (by rw [hexited]; rfl)
          cases (Run.isLive_of_asks hasks'').symm.trans hended
        · cases hasks''.symm.trans hsilent
        · exact absurd hstop hsome

theorem exists_closer (h : Course chart delay input schedule x) (hfair : Fair schedule)
    (hbuild : Program.build chart = .ok program) (hinput : program.Completes input ending)
    {n : Nat} (hnone : (x n).stop = none) (hlive : (x n).record.watch.run.isLive = true) :
    ∃ m, n ≤ m ∧ ((x m).stop ≠ none ∨ Closer (x n) (x m)) := by
  cases hasks : (x n).record.watch.run.asks with
  | false => exact h.exists_closer_of_work hfair hbuild hnone hlive hasks
  | true =>
      rcases h.exists_line hfair hbuild hinput hnone hasks with
        ⟨m, hm, hgoal | ⟨hnone', hlevel, hlines⟩⟩
      · exact ⟨m, hm, hgoal⟩
      · rcases h.exists_closer_of_line hfair hbuild hnone' (hlevel.asks.trans hasks) hlines with
          ⟨i, hi, hgoal⟩
        exact ⟨i, Nat.le_trans hm hi, hgoal.imp id hlevel.closer⟩

/-- A run that has lines enough comes to its end with the loop, unless the loop stops it. -/
theorem exists_exited_or_stopped (h : Course chart delay input schedule x)
    (hfair : Fair schedule) (hbuild : Program.build chart = .ok program)
    (hinput : program.Completes input ending) {n : Nat} (hnone : (x n).stop = none) :
    ∃ m, n ≤ m ∧ ((∃ success, (x m).terminal.phase = .exited success) ∨ (x m).stop ≠ none) := by
  rcases hinput.ends with ⟨blocks, hends⟩
  have hbound := fun n => (h.steady n).progress_le hbuild hends
  generalize (program.reference input blocks).shown.length + input.length = total at hbound
  -- the run has only so much to show, and is slowed down before each thing only so long
  induction hleft : total - (x n).progress using Nat.strongRecOn generalizing n with
  | ind left ihleft =>
      induction hpace : (x n).pace using Nat.strongRecOn generalizing n with
      | ind pace ihpace =>
          cases hlive : (x n).record.watch.run.isLive with
          | false =>
              have hfree := ((h.steady n).kept.stands.of_unstopped hnone).2
              rcases h.exists_exited_of_ended hfair hfree hlive with ⟨m, hm, hgoal⟩
              exact ⟨m, hm, hgoal.imp id And.right⟩
          | true =>
              rcases h.exists_closer hfair hbuild hinput hnone hlive with ⟨m, hm, hgoal⟩
              by_cases hstop : (x m).stop = none
              · rcases hgoal with hsome | hless | ⟨hsame, hless⟩
                · exact absurd hstop hsome
                · have hm' := hbound m
                  rcases ihleft (total - (x m).progress) (by omega) hstop rfl with ⟨i, hi, hdone⟩
                  exact ⟨i, Nat.le_trans hm hi, hdone⟩
                · rcases ihpace (x m).pace (by omega) hstop (by omega) rfl with ⟨i, hi, hdone⟩
                  exact ⟨i, Nat.le_trans hm hi, hdone⟩
              · exact ⟨m, hm, Or.inr hstop⟩

/-!
# Stopped runs

The loop tells the worker that the run is stopped, gets it back and then finds the worker ended.
-/

theorem watch_of_stopping (h : Course chart delay input schedule x) {k : Nat}
    (hstop : (x k).record.watch.duty.isStop = true) :
    (x (k + 1)).record.watch =
      match schedule k with
      | .work chance => (x k).record.watch.step (.work chance)
      | .read => (x k).record.watch
      | .proceed => (x k).record.watch.step .proceed := by
  have hbusy : (x k).record.watch.duty ≠ .free := by
    intro hfree
    rw [hfree] at hstop
    cases hstop
  have hphase : (x k).terminal.phase = .fetching := by
    cases (h.steady k).kept.stands with
    | unstopped _ _ hfree | stopped _ hfree _ _ => exact absurd hfree hbusy
    | stopping _ _ hfetching => exact hfetching
  rw [h.step]
  exact record_of_stopping hphase hbusy (schedule k)

theorem exists_ending (h : Course chart delay input schedule x) (hfair : Fair schedule) {n : Nat}
    (hstop : (x n).record.watch.duty.isStop = true) :
    ∃ m, n ≤ m ∧ (x m).record.watch.Ending := by
  have hending : ∀ k, (x k).record.watch.duty.isStop = true →
      (x k).record.watch.run.signals.cancelled = true → (x k).record.watch.Ending :=
    fun k hduty hcancelled => ⟨(h.steady k).kept.reachable, hduty, hcancelled⟩
  have hfits := (h.steady n).kept.reachable.orderly.duty
  cases hduty : (x n).record.watch.duty with
  | notifying _ | releasing _ | joining _ =>
      rw [hduty] at hfits
      exact ⟨n, Nat.le_refl n, hending n hstop hfits⟩
  | free | dropping _ | setting _ | requesting =>
      rw [hduty] at hstop
      cases hstop
  | cancelling reason =>
      let cancelling := fun k => (x k).record.watch.duty = .cancelling reason
      have hstops : ∀ k, cancelling k → (x k).record.watch.duty.isStop = true := by
        intro k (hcancelling : (x k).record.watch.duty = .cancelling reason)
        rw [hcancelling]
        rfl
      have hcancels : ∀ k, cancelling k → schedule k = .proceed →
          (x (k + 1)).record.watch.Ending := by
        intro k (hcancelling : (x k).record.watch.duty = .cancelling reason) hturn
        have hwatch := h.watch_of_stopping (hstops k hcancelling)
        rw [hturn] at hwatch
        apply hending
        · rw [hwatch]
          simp [Watch.step, Watch.act, Watch.proceed, hcancelling, Duty.isStop]
        · rw [hwatch]
          simp [Watch.step, Watch.act, Watch.proceed, hcancelling, Run.setCancelled]
      refine exists_goal_of_helps cancelling hfair.proceeds ?_ hcancels hduty
      intro k hcancelling
      have hwatch := h.watch_of_stopping (hstops k hcancelling)
      cases hturn : schedule k with
      | work chance =>
          rw [hturn] at hwatch
          exact Or.inr ((congrArg Watch.duty hwatch).trans hcancelling)
      | read =>
          rw [hturn] at hwatch
          exact Or.inr ((congrArg Watch.duty hwatch).trans hcancelling)
      | proceed => exact Or.inl (hcancels k hcancelling hturn)

theorem exists_nearer (h : Course chart delay input schedule x) (hfair : Fair schedule) {n : Nat}
    (hending : (x n).record.watch.Ending) :
    ∃ m, n ≤ m ∧ Watch.Nearer (x n).record.watch (x m).record.watch := by
  let w := (x n).record.watch
  let stays := fun k => (x k).record.watch.Ending ∧ (x k).record.watch.duty.toGo ≤ w.duty.toGo ∧
    (x k).record.watch.toGo ≤ w.toGo
  have hact : ∀ k, stays k → ∀ a : Act, (x (k + 1)).record.watch = (x k).record.watch.step a →
      Watch.Nearer w (x (k + 1)).record.watch ∨ stays (k + 1) := by
    rintro k ⟨hending', hduty, htoGo⟩ a hstep
    rcases hending'.step a with hfree | ⟨hstill, hduty', htoGo'⟩
    · exact Or.inl (Or.inl (hstep ▸ hfree))
    · right
      rw [← hstep] at hstill hduty' htoGo'
      exact ⟨hstill, Nat.le_trans hduty' hduty, Nat.le_trans htoGo' htoGo⟩
  have hkeeps : ∀ k, stays k → Watch.Nearer w (x (k + 1)).record.watch ∨ stays (k + 1) := by
    intro k hstays
    have hwatch := h.watch_of_stopping hstays.1.duty
    cases hturn : schedule k with
    | work chance =>
        rw [hturn] at hwatch
        exact hact k hstays _ hwatch
    | read =>
        rw [hturn] at hwatch
        change (x (k + 1)).record.watch = (x k).record.watch at hwatch
        right
        change (x (k + 1)).record.watch.Ending ∧ (x (k + 1)).record.watch.duty.toGo ≤ _ ∧
          (x (k + 1)).record.watch.toGo ≤ _
        rw [hwatch]
        exact hstays
    | proceed =>
        rw [hturn] at hwatch
        exact hact k hstays _ hwatch
  have hstart : stays n := ⟨hending, Nat.le_refl _, Nat.le_refl _⟩
  rcases w.nearer_cases with hworks | hproceeds
  · refine exists_goal_of_helps stays hfair.works hkeeps ?_ hstart
    rintro k ⟨hending', hduty, htoGo⟩ ⟨chance, hturn, _⟩
    have hwatch := h.watch_of_stopping hending'.duty
    rw [hturn] at hwatch
    rw [hwatch]
    exact hworks _ chance hending' hduty htoGo
  · refine exists_goal_of_helps stays hfair.proceeds hkeeps ?_ hstart
    rintro k ⟨hending', hduty, htoGo⟩ hturn
    have hwatch := h.watch_of_stopping hending'.duty
    rw [hturn] at hwatch
    rw [hwatch]
    exact hproceeds _ hending' hduty htoGo

theorem exists_free (h : Course chart delay input schedule x) (hfair : Fair schedule) {n : Nat}
    (hending : (x n).record.watch.Ending) : ∃ m, n ≤ m ∧ (x m).record.watch.duty = .free := by
  induction hrank : (x n).record.watch.duty.toGo + (x n).record.watch.toGo using Nat.strongRecOn
    generalizing n with
  | ind rank ih =>
      rcases h.exists_nearer hfair hending with ⟨m, hm, hfree | ⟨hending', hless⟩⟩
      · exact ⟨m, hm, hfree⟩
      · rcases ih _ (by omega) hending' rfl with ⟨i, hi, hfree⟩
        exact ⟨i, Nat.le_trans hm hi, hfree⟩

theorem stop_ne_none (h : Course chart delay input schedule x) {n : Nat}
    (hsome : (x n).stop ≠ none) (i : Nat) : (x (n + i)).stop ≠ none := by
  induction i with
  | zero => exact hsome
  | succ i ih =>
      rcases (h.happens (n + i)).stop_cases with hsame | ⟨_, _, _, _, hsome'⟩
      · change (x (n + i + 1)).stop ≠ none
        rw [hsame]
        exact ih
      · exact hsome'

theorem exists_exited_of_free (h : Course chart delay input schedule x) (hfair : Fair schedule)
    {n : Nat} (hsome : (x n).stop ≠ none) (hfree : (x n).record.watch.duty = .free) :
    ∃ m, ∃ success, (x m).terminal.phase = .exited success := by
  have hended : (x n).record.watch.run.isLive = false := by
    cases (h.steady n).kept.stands with
    | unstopped hnone _ _ => exact absurd hnone hsome
    | stopping _ hstop _ =>
        rw [hfree] at hstop
        cases hstop
    | stopped _ _ hengine _ => simp [Run.isLive, hengine]
  rcases h.exists_exited_of_ended hfair hfree hended with ⟨m, _, hexited | ⟨hnone, _⟩⟩
  · exact ⟨m, hexited⟩
  · exact absurd hnone hsome

theorem exists_exited_of_stopped (h : Course chart delay input schedule x)
    (hfair : Fair schedule) {n : Nat} (hsome : (x n).stop ≠ none) :
    ∃ m, ∃ success, (x m).terminal.phase = .exited success := by
  rcases (h.steady n).kept.stands.duty with hfree | hstop
  · exact h.exists_exited_of_free hfair hsome hfree
  · rcases h.exists_ending hfair hstop with ⟨k, hk, hending⟩
    rcases h.exists_free hfair hending with ⟨m, hm, hfree⟩
    obtain ⟨i, rfl⟩ := Nat.exists_eq_add_of_le (Nat.le_trans hk hm)
    exact h.exists_exited_of_free hfair (h.stop_ne_none hsome i) hfree

theorem exists_exited (h : Course chart delay input schedule x) (hfair : Fair schedule)
    (hbuild : Program.build chart = .ok program) (hinput : program.Completes input ending) :
    ∃ m, ∃ success, (x m).terminal.phase = .exited success := by
  by_cases hnone : (x 0).stop = none
  · rcases h.exists_exited_or_stopped hfair hbuild hinput hnone with ⟨m, _, hexited | hsome⟩
    · exact ⟨m, hexited⟩
    · exact h.exists_exited_of_stopped hfair hsome
  · exact h.exists_exited_of_stopped hfair hnone

end Course

/-!
# Enough lines

What has been prompted for is what reads have asked, all but the last read that waits.  Nothing is
left over when the worker has ended.
-/

theorem Polite.exists_owed (h : c.Polite) :
    ∃ owed, c.asked = c.prompts ++ owed ∧ owed.length ≤ 1 := by
  refine ⟨c.owed, h.asked, ?_⟩
  unfold owed
  split
  · cases c.record.watch.run.prompt? <;> simp
  · simp

theorem Polite.of_ended (h : c.Polite) (hengine : ∃ e, c.record.watch.run.engine = some e)
    (hended : c.record.watch.run.isLive = false) :
    c.answered = c.handed ∧ c.asked = c.prompts := by
  rcases hengine with ⟨e, hengine⟩
  have hphase := Run.ended_of_isLive hengine hended
  rcases h.served e hengine with ⟨hserved, hqueue⟩
  have hsilent : c.record.watch.run.asks = false := by
    simp [Run.asks, hengine, Engine.asks, hphase, Phase.isRead]
  have howed := h.asked
  rw [hserved.nil_of_isRead (by rw [hphase]; rfl), List.append_nil] at hqueue
  rw [owed, hsilent] at howed
  exact ⟨hqueue, by simpa using howed⟩

/-- With lines enough, reads get them in order and the loop comes to its end.  It tells the ending
of the sequential run, but that it may take a run for failed that it has stopped.  As long as it
sees no prompt of a read that has its line already, it does not stop the run, and prints the prompt
of each read once. -/
theorem enough_lines_suffice (hbuild : Program.build chart = .ok program)
    (hinput : program.Completes input ending) (catalog : Catalog) (delay : Nat)
    (schedule : Nat → Turn) :
    let x := (start chart catalog delay input).after schedule
    (∀ n, (x n).answered <+: (x n).handed ∧ (x n).handed <+: input ∧
      (∀ success, (x n).terminal.phase = .exited success →
        (success = true → ending = .finished) ∧
          ((x n).stop = none → ending = .finished → success = true)) ∧
      ((x n).hasty = false → (x n).stop = none ∧
        (∃ owed, (x n).asked = (x n).prompts ++ owed ∧ owed.length ≤ 1) ∧
        ∀ success, (x n).terminal.phase = .exited success →
          (x n).answered = (x n).handed ∧ (x n).asked = (x n).prompts)) ∧
    (Fair schedule → ∃ n, ∃ success, (x n).terminal.phase = .exited success) := by
  intro x
  have hcourse : Course chart delay input schedule x := course_after chart catalog delay input _
  constructor
  · intro n
    have hsteady := hcourse.steady n
    have hperform : x n = (start chart catalog delay input).perform ((List.range n).map schedule) :=
      after_eq_perform _ schedule n
    have htruthful : (x n).Truthful := hperform ▸ truthful_perform hbuild catalog delay input _
    have hjudged : (x n).Judged := hperform ▸ judged_perform chart catalog delay input _
    refine ⟨hsteady.answers.front, hsteady.fed.handed, ?_, ?_⟩
    · intro success hexited
      exact hsteady.fed.exited hsteady.kept hsteady.glanced htruthful hjudged hbuild hinput hexited
    · intro hhasty
      have hpolite : (x n).Polite := by
        rw [hperform] at hhasty ⊢
        exact polite_perform hbuild catalog delay hinput _ hhasty
      refine ⟨hpolite.stop, hpolite.exists_owed, ?_⟩
      intro success hexited
      have hended := hsteady.glanced.finishing (by rw [hexited]; rfl)
      exact hpolite.of_ended (hsteady.exists_engine hbuild hpolite.stop) hended
  · intro hfair
    exact hcourse.exists_exited hfair hbuild hinput

def inTurns (n : Nat) : Turn :=
  match n % 3 with
  | 0 => .work (.inOrder true)
  | 1 => .read
  | _ => .proceed

theorem fair_inTurns : Fair inTurns where
  works := by
    intro n
    refine ⟨3 * n, by omega, .inOrder true, ?_, rfl⟩
    simp [inTurns]
  reads := by
    intro n
    refine ⟨3 * n + 1, by omega, ?_⟩
    simp [inTurns, Nat.add_mod]
  proceeds := by
    intro n
    refine ⟨3 * n + 2, by omega, ?_⟩
    simp [inTurns, Nat.add_mod]

theorem completes_echo : Session.echoProgram.Completes ["Ada"] .finished where
  ends := ⟨3, by cbv⟩
  enough := nofun

theorem enough_lines_suffice_echo :
    let x := (start Session.echo .english 0 ["Ada"]).after inTurns
    Program.build Session.echo = .ok Session.echoProgram ∧
      Session.echoProgram.Completes ["Ada"] .finished ∧ Fair inTurns ∧
      (∃ n, ∃ success, (x n).terminal.phase = .exited success) ∧
      (x 150).terminal.phase = .exited true ∧ (x 150).hasty = false ∧
      (x 150).answered = (x 150).handed ∧ (x 150).asked = (x 150).prompts := by
  intro x
  have hbuild : Program.build Session.echo = .ok Session.echoProgram := by cbv
  have hsuffices := enough_lines_suffice hbuild completes_echo .english 0 inTurns
  have hperform : ∀ n, x n = (start Session.echo .english 0 ["Ada"]).perform
      ((List.range n).map inTurns) := after_eq_perform _ inTurns
  have hevaluated : (x 150).terminal.phase = .exited true ∧ (x 150).hasty = false := by
    rw [hperform]
    decide +kernel
  rcases hevaluated with ⟨hexited, hhasty⟩
  have hdone : ∀ n, (x n).hasty = false → (x n).terminal.phase = .exited true →
      (x n).answered = (x n).handed ∧ (x n).asked = (x n).prompts :=
    fun n hhasty hexited => ((hsuffices.1 n).2.2.2 hhasty).2.2 true hexited
  exact ⟨hbuild, completes_echo, fair_inTurns, hsuffices.2 fair_inTurns, hexited, hhasty,
    hdone 150 hhasty hexited⟩

/-!
# Stale prompts

A prompt stays up until the worker has taken its line.  The loop that sees it in between fetches
another line for it, and this is the only way in which it comes to stop a run that has lines enough.
-/

/-- The loop has been fetching a line since it saw the prompt of a worker that did not wait. -/
def Misled (x : Nat → Conversation) (n : Nat) : Prop :=
  ∃ m, m < n ∧ (x m).terminal.phase = .prompting ∧ (x m).record.watch.run.asks = false ∧
    ∀ k, m < k → k ≤ n → (x k).terminal.phase = .fetching

theorem Happens.fetching_cases (h : c.Happens turn c') (hc : c.Kept delay) (hnone : c'.stop = none)
    (hfetching : c'.terminal.phase = .fetching) :
    c.terminal.phase = .prompting ∧ c'.record = c.record ∨
      c.terminal.phase = .fetching ∧
        (c.record.watch.run.asks = true → c'.record.watch.run.asks = true) := by
  cases h with
  | rest _ | deliver _ | endInput _ => exact Or.inr ⟨hfetching, id⟩
  | work =>
      have hcalm := (hc.stands.of_unstopped hnone).1.2
      exact Or.inr ⟨hfetching, fun hasks => (Watch.asks_step hc.reachable hcalm rfl hasks).1⟩
  | again hphase _ _ | prompt hphase _ _ => exact Or.inl ⟨hphase, rfl⟩
  | takeLines hphase _ | takeFaults hphase _ | takeUpdates hphase _ | print hphase _ _ =>
      exact absurd hfetching (phase_ne_of_isPrinting hphase)
  | leave hphase _ => exact absurd hfetching (leave_ne_fetching c.terminal hphase)
  | look _ | unprompted _ _ | hand _ _ _ | retry _ _ _ _ | stopped _ _ _ => cases hfetching
  | stop _ _ _ _ => cases hnone
  | stopping _ hbusy _ => exact absurd (hc.stands.of_unstopped hnone).2 hbusy

theorem Course.asks_or_misled {schedule : Nat → Turn} {x : Nat → Conversation}
    (h : Course chart delay input schedule x) (hstart : (x 0).terminal.phase ≠ .fetching) {n : Nat}
    (hnone : (x n).stop = none) (hfetching : (x n).terminal.phase = .fetching) :
    (x n).record.watch.run.asks = true ∨ Misled x n := by
  induction n with
  | zero => exact absurd hfetching hstart
  | succ n ih =>
      rcases (h.happens n).fetching_cases (h.steady n).kept hnone hfetching with
        ⟨hprompting, hrecord⟩ | ⟨hbefore, hwaits⟩
      · rw [hrecord]
        cases hasks : (x n).record.watch.run.asks with
        | true => exact Or.inl rfl
        | false =>
            refine Or.inr ⟨n, Nat.lt_succ_self n, hprompting, hasks, ?_⟩
            intro k hn hk
            rw [Nat.le_antisymm hk hn]
            exact hfetching
      · have hnone' : (x n).stop = none := by
          by_contra hsome
          exact h.stop_ne_none hsome 1 hnone
        rcases ih hnone' hbefore with hasks | ⟨m, hm, hprompting, hasks, hsince⟩
        · exact Or.inl (hwaits hasks)
        · refine Or.inr ⟨m, Nat.lt_succ_of_lt hm, hprompting, hasks, ?_⟩
          intro k hmk hk
          rcases Nat.le_succ_iff.mp hk with hle | rfl
          · exact hsince k hmk hle
          · exact hfetching

/-- With lines enough, the loop stops the run only on a prompt that is stale itself. -/
theorem stops_only_when_misled (hbuild : Program.build chart = .ok program)
    (hinput : program.Completes input ending) (catalog : Catalog) (delay : Nat)
    (schedule : Nat → Turn) :
    let x := (start chart catalog delay input).after schedule
    ∀ n, (x n).stop = none → (x (n + 1)).stop ≠ none → Misled x n := by
  intro x n hnone hsome
  have hcourse : Course chart delay input schedule x := course_after chart catalog delay input _
  have hsteady := hcourse.steady n
  rcases (hcourse.happens n).stop_cases with hsame | ⟨hphase, _, hlines, hended, _⟩
  · exact absurd (hsame.trans hnone) hsome
  · have hsilent :=
      hsteady.fed.asks_of_none_left hsteady.kept hbuild hinput hnone hlines hended
    rcases hcourse.asks_or_misled (start_ne_fetching chart catalog delay input) hnone hphase with
      hasks | hmisled
    · cases hasks.symm.trans hsilent
    · exact hmisled

def hastyTurns : List Turn :=
  .read :: working 10 ++ .read :: proceeding 30 ++ working 40 ++ proceeding 20

/-- The line has been handed over and not been taken when the loop sees the prompt once more.  It
prints it again, and stops the run for want of a line that needs no other. -/
theorem stale_prompt_stops_run :
    let seeing := (start Session.echo .english 0 ["Ada"]).perform (hastyTurns.take 24)
    let stopping := (start Session.echo .english 0 ["Ada"]).perform (hastyTurns.take 26)
    let c := (start Session.echo .english 0 ["Ada"]).perform hastyTurns
    (Session.echoProgram.reference ["Ada"] 3).ending = some .finished ∧
      (seeing.terminal.phase = .prompting ∧ seeing.record.watch.run.asks = false ∧
        seeing.handed = ["Ada"] ∧ seeing.answered = [] ∧ seeing.stop.isNone = true) ∧
      (stopping.terminal.phase = .fetching ∧ stopping.answered = [] ∧
        stopping.stop.isSome = true) ∧
      c.terminal.phase = .exited false ∧ c.stop.isSome = true ∧ c.hasty = true ∧
      c.asked = ["s (String)"] ∧ c.prompts = ["s (String)", "s (String)"] := by
  intro seeing stopping c
  have hending : (Session.echoProgram.reference ["Ada"] 3).ending = some .finished := by cbv
  have hseeing : seeing.terminal.phase = .prompting ∧ seeing.record.watch.run.asks = false ∧
      seeing.handed = ["Ada"] ∧ seeing.answered = [] ∧ seeing.stop.isNone = true := by
    decide +kernel
  have hstopping : stopping.terminal.phase = .fetching ∧ stopping.answered = [] ∧
      stopping.stop.isSome = true := by
    decide +kernel
  have hended : c.terminal.phase = .exited false ∧ c.stop.isSome = true ∧ c.hasty = true ∧
      c.asked = ["s (String)"] ∧ c.prompts = ["s (String)", "s (String)"] := by
    decide +kernel
  exact ⟨hending, hseeing, hstopping, hended⟩

end Conversation

end Blockwise
