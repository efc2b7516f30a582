import Blockwise.Proofs.Run.Lifecycle
import Blockwise.Proofs.Run.Pause
import Blockwise.Proofs.Run.Soundness

/-!
# One step at a time

A paused worker that is granted a step goes on by one block, evaluates it and waits again.  This
takes a schedule that gives the worker and its supervisor their turns, and that lets delays pass.
-/

namespace Blockwise

/-- The worker and its supervisor get their turns again and again, and every delay passes. -/
structure Fair (schedule : Nat → Act) : Prop where
  works : ∀ n, ∃ m, n ≤ m ∧ ∃ chance, schedule m = .work chance ∧ chance.delayOver = true
  proceeds : ∀ n, ∃ m, n ≤ m ∧ schedule m = .proceed

def Uncontrolled (schedule : Nat → Act) : Prop :=
  ∀ n call, schedule n = .call call → call.isControl = false

theorem Fair.shift {schedule : Nat → Act} (h : Fair schedule) (start : Nat) :
    Fair fun n => schedule (start + n) where
  works := by
    intro n
    rcases h.works (start + n) with ⟨m, hm, hwork⟩
    obtain ⟨i, rfl⟩ := Nat.exists_eq_add_of_le hm
    rw [Nat.add_assoc] at hwork
    exact ⟨n + i, Nat.le_add_right n i, hwork⟩
  proceeds := by
    intro n
    rcases h.proceeds (start + n) with ⟨m, hm, hproceed⟩
    obtain ⟨i, rfl⟩ := Nat.exists_eq_add_of_le hm
    rw [Nat.add_assoc] at hproceed
    exact ⟨n + i, Nat.le_add_right n i, hproceed⟩

/-!
# Goals

A goal is reached under a schedule if no step raises the rank before it, and steps that come again
and again lower it.  Where a single such step is enough, no rank is needed.
-/

theorem exists_goal (stays : Nat → Prop) (rank : Nat → Nat) {goal helps : Nat → Prop}
    (hfair : ∀ n, ∃ m, n ≤ m ∧ helps m)
    (hstep : ∀ n, stays n → goal (n + 1) ∨
      stays (n + 1) ∧ rank (n + 1) ≤ rank n ∧ (helps n → rank (n + 1) < rank n))
    {n : Nat} (hn : stays n) : ∃ m, n ≤ m ∧ goal m := by
  have huntil : ∀ n, stays n → ∀ i, (∃ m, n ≤ m ∧ goal m) ∨
      stays (n + i) ∧ rank (n + i) ≤ rank n := by
    intro n hn i
    induction i with
    | zero => exact Or.inr ⟨hn, Nat.le_refl _⟩
    | succ i ih =>
        rcases ih with hgoal | ⟨hstays, hrank⟩
        · exact Or.inl hgoal
        · rcases hstep (n + i) hstays with hgoal | ⟨hstays', hrank', _⟩
          · exact Or.inl ⟨n + i + 1, by omega, hgoal⟩
          · exact Or.inr ⟨hstays', Nat.le_trans hrank' hrank⟩
  induction hr : rank n using Nat.strongRecOn generalizing n with
  | ind r ih =>
      rcases hfair n with ⟨m, hm, hhelps⟩
      obtain ⟨i, rfl⟩ := Nat.exists_eq_add_of_le hm
      rcases huntil n hn i with hgoal | ⟨hstays, hrank⟩
      · exact hgoal
      · rcases hstep (n + i) hstays with hgoal | ⟨hstays', _, hless⟩
        · exact ⟨n + i + 1, by omega, hgoal⟩
        · have hless' : rank (n + i + 1) < r := by
            have := hless hhelps
            omega
          rcases ih _ hless' hstays' rfl with ⟨m, hm, hgoal⟩
          exact ⟨m, by omega, hgoal⟩

theorem exists_goal_of_helps (stays : Nat → Prop) {goal helps : Nat → Prop}
    (hfair : ∀ n, ∃ m, n ≤ m ∧ helps m) (hstep : ∀ n, stays n → goal (n + 1) ∨ stays (n + 1))
    (hhelps : ∀ n, stays n → helps n → goal (n + 1)) {n : Nat} (hn : stays n) :
    ∃ m, n ≤ m ∧ goal m := by
  refine exists_goal stays (fun _ => 0) hfair ?_ hn
  intro m hm
  by_cases hturn : helps m
  · exact Or.inl (hhelps m hm hturn)
  · exact (hstep m hm).imp id fun hstays => ⟨hstays, Nat.le_refl _, fun h => absurd h hturn⟩

/-!
# The pace of a paused worker

While the run is paused and not cancelled, each step of the worker leads on from where it stands, up
to a wait in the pause, a wait for a line or the end of the run.
-/

def Phase.isRead : Phase → Bool
  | waiting _ _ _ => true
  | _ => false

structure Standing where
  phase : Phase
  step : Bool
  moves : Nat

namespace Standing

def Rests (x : Standing) : Prop :=
  x.phase.isHold = true ∨ x.phase.isRead = true ∨ x.phase = .ended

/-- What a step can do while the run is paused and not cancelled. -/
inductive Paces (delayOver : Bool) : Standing → Standing → Prop where
  | enter {b : Bool} {k : Nat} : Paces delayOver ⟨.entering, b, k⟩ ⟨.arriving, b, k⟩
  | arrive {step : Step} {b : Bool} {k : Nat} :
      Paces delayOver ⟨.arriving, b, k⟩ ⟨.checking step, b, k⟩
  | finish {b : Bool} {k : Nat} : Paces delayOver ⟨.arriving, b, k⟩ ⟨.ended, b, k⟩
  | begin {step : Step} {talk : Talk} {b : Bool} {k : Nat} :
      Paces delayOver ⟨.checking step, b, k⟩ ⟨.talking step talk, b, k⟩
  | fail {step : Step} {r : Value × Store} {fault : Fault} {b : Bool} {k : Nat} :
      Paces delayOver ⟨.talking step (.done r), b, k⟩ ⟨.ofFault fault, b, k⟩
  | leave {step : Step} {r : Value × Store} {value : Value} {rest : List (String × Value)}
      {b : Bool} {k : Nat} :
      Paces delayOver ⟨.talking step (.done r), b, k⟩ ⟨.publishing step value rest, b, k⟩
  | write {step : Step} {line : String} {next : Talk} {b : Bool} {k : Nat} :
      Paces delayOver ⟨.talking step (.write line next), b, k⟩ ⟨.talking step next, b, k⟩
  | ask {step : Step} {prompt : String} {next : Except Fault String → Talk} {wait : Wait}
      {b : Bool} {k : Nat} :
      Paces delayOver ⟨.talking step (.read prompt next), b, k⟩ ⟨.waiting step wait next, b, k⟩
  | look {step : Step} {wait wait' : Wait} {next : Except Fault String → Talk} {b : Bool}
      {k : Nat} : Paces delayOver ⟨.waiting step wait next, b, k⟩ ⟨.waiting step wait' next, b, k⟩
  | take {step : Step} {wait : Wait} {next : Except Fault String → Talk} {line : String}
      {b : Bool} {k : Nat} :
      Paces delayOver ⟨.waiting step wait next, b, k⟩ ⟨.answering step (next (.ok line)), b, k⟩
  | answer {step : Step} {talk : Talk} {b : Bool} {k : Nat} :
      Paces delayOver ⟨.answering step talk, b, k⟩ ⟨.talking step talk, b, k⟩
  | publish {step : Step} {value : Value} {update : String × Value}
      {rest : List (String × Value)} {b : Bool} {k : Nat} :
      Paces delayOver ⟨.publishing step value (update :: rest), b, k⟩
        ⟨.publishing step value rest, b, k⟩
  | listed {step : Step} {value : Value} {b : Bool} {k : Nat} :
      Paces delayOver ⟨.publishing step value [], b, k⟩ ⟨.timing step value, b, k⟩
  | time {step : Step} {value : Value} {delay : Nat} {b : Bool} {k : Nat} :
      Paces delayOver ⟨.timing step value, b, k⟩ ⟨.pacing step value delay, b, k⟩
  | doze {step : Step} {value : Value} {delay : Nat} {b : Bool} {k : Nat} : delayOver = false →
      Paces delayOver ⟨.pacing step value delay, b, k⟩ ⟨.pacing step value delay, b, k⟩
  | wake {step : Step} {value : Value} {delay : Nat} {b : Bool} {k : Nat} :
      Paces delayOver ⟨.pacing step value delay, b, k⟩ ⟨.holding step value, b, k⟩
  | hold {step : Step} {value : Value} {b : Bool} {k : Nat} :
      Paces delayOver ⟨.holding step value, b, k⟩ ⟨.held step value, b, k⟩
  | stay {step : Step} {value : Value} {b : Bool} {k : Nat} :
      Paces delayOver ⟨.held step value, b, k⟩ ⟨.stepping step value, b, k⟩
  | grant {step : Step} {value : Value} {k : Nat} :
      Paces delayOver ⟨.stepping step value, true, k⟩ ⟨.leaving step value, false, k⟩
  | deny {step : Step} {value : Value} {k : Nat} :
      Paces delayOver ⟨.stepping step value, false, k⟩ ⟨.holding step value, false, k⟩
  | choose {step : Step} {value : Value} {target : BlockId} {b : Bool} {k : Nat} :
      Paces delayOver ⟨.leaving step value, b, k⟩ ⟨.moving target, b, k⟩
  | move {target : BlockId} {b : Bool} {k : Nat} :
      Paces delayOver ⟨.moving target, b, k⟩ ⟨.arriving, b, k + 1⟩
  | raise {fault : Fault} {b : Bool} {k : Nat} :
      Paces delayOver ⟨.failing fault, b, k⟩ ⟨.reporting fault, b, k⟩
  | report {fault : Fault} {b : Bool} {k : Nat} :
      Paces delayOver ⟨.reporting fault, b, k⟩ ⟨.quitting, b, k⟩
  | quit {b : Bool} {k : Nat} : Paces delayOver ⟨.quitting, b, k⟩ ⟨.ended, b, k⟩
  | rest {b : Bool} {k : Nat} : Paces delayOver ⟨.ended, b, k⟩ ⟨.ended, b, k⟩

theorem Paces.of_isHold {delayOver : Bool} {x y : Standing} (h : Paces delayOver x y)
    (hx : x.phase.isHold = true) :
    y.moves = x.moves ∧ (x.step = false → y.phase.isHold = true ∧ y.step = false) := by
  cases h with
  | hold | stay | deny => exact ⟨rfl, fun hstep => ⟨rfl, hstep⟩⟩
  | grant =>
      refine ⟨rfl, ?_⟩
      intro hstep
      cases hstep
  | _ => cases hx

end Standing

open Standing in
theorem Engine.Steps.paces {chance : Chance} {s s' : Signals} {e e' : Engine} {done : List Deed}
    (h : e.Steps chance s s' e' done) (hpaused : s.paused = true) (hcalm : s.cancelled = false)
    (hstops : e.wires.stops = 0) (hsound : e.Sound) (k : Nat) :
    Paces chance.delayOver ⟨e.phase, s.step, k⟩
      ⟨e'.phase, s'.step, k + done.countP Deed.isMove⟩ := by
  cases h with
  | obey _ hcancelled => cases hcalm.symm.trans hcancelled
  | interrupt _ hinterrupted =>
      rcases hinterrupted with hcancelled | hsent
      · cases hcalm.symm.trans hcancelled
      · exact absurd hstops hsent
  | pass _ hresumed => cases hpaused.symm.trans hresumed
  | balk hphase _ hchoice | lapse hphase _ hchoice =>
      rcases hsound.ofChoice hphase with ⟨target, _, hmoving⟩
      cases hmoving.symm.trans hchoice
  | enter hphase => rw [hphase]; exact Paces.enter
  | arrive hphase _ => rw [hphase]; exact Paces.arrive
  | finish hphase _ => rw [hphase]; exact Paces.finish
  | begin hphase _ => rw [hphase]; exact Paces.begin
  | fail hphase => rw [hphase]; exact Paces.fail
  | leave hphase _ => rw [hphase]; exact Paces.leave
  | write hphase => rw [hphase]; exact Paces.write
  | ask hphase => rw [hphase]; exact Paces.ask
  | look hphase => rw [hphase]; exact Paces.look
  | take hphase _ => rw [hphase]; exact Paces.take
  | answer hphase => rw [hphase]; exact Paces.answer
  | publish hphase => rw [hphase]; exact Paces.publish
  | listed hphase => rw [hphase]; exact Paces.listed
  | time hphase => rw [hphase]; exact Paces.time
  | doze hphase hover => rw [hphase]; exact Paces.doze hover
  | wake hphase _ => rw [hphase]; exact Paces.wake
  | hold hphase _ => rw [hphase]; exact Paces.hold
  | stay hphase _ => rw [hphase]; exact Paces.stay
  | grant hphase hstep => rw [hphase, hstep]; exact Paces.grant
  | deny hphase hstep => rw [hphase, hstep]; exact Paces.deny
  | choose hphase _ _ => rw [hphase]; exact Paces.choose
  | move hphase => rw [hphase]; exact Paces.move
  | raise hphase => rw [hphase]; exact Paces.raise
  | report hphase => rw [hphase]; exact Paces.report
  | quit hphase => rw [hphase]; exact Paces.quit
  | rest hphase => rw [hphase]; exact Paces.rest

namespace Watch

variable {w w' : Watch} {a : Act}

def after (w : Watch) (schedule : Nat → Act) : Nat → Watch
  | 0 => w
  | n + 1 => (w.after schedule n).step (schedule n)

theorem after_add (w : Watch) (schedule : Nat → Act) (start n : Nat) :
    w.after schedule (start + n) =
      (w.after schedule start).after (fun i => schedule (start + i)) n := by
  induction n with
  | zero => rfl
  | succ n ih =>
      show (w.after schedule (start + n)).step _ = _
      rw [ih]
      rfl

def Reachable (w : Watch) : Prop :=
  ∃ delay acts, w = (new delay).perform acts

theorem Reachable.step (h : w.Reachable) (a : Act) : (w.step a).Reachable := by
  rcases h with ⟨delay, acts, rfl⟩
  exact ⟨delay, acts ++ [a], (perform_concat _ _ _).symm⟩

theorem Reachable.orderly (h : w.Reachable) : w.Orderly := by
  rcases h with ⟨delay, acts, rfl⟩
  exact orderly_perform delay acts

theorem Reachable.sound (h : w.Reachable) : w.Sound := by
  rcases h with ⟨delay, acts, rfl⟩
  exact sound_perform delay acts

theorem Reachable.runs (h : w.Reachable) : w.Runs := by
  rcases h with ⟨delay, acts, rfl⟩
  exact runs_perform delay acts

def standing? (w : Watch) : Option Standing :=
  w.run.engine.map fun e => ⟨e.phase, w.run.signals.step, w.moves⟩

theorem standing?_eq {e : Engine} (h : w.run.engine = some e) :
    w.standing? = some ⟨e.phase, w.run.signals.step, w.moves⟩ := by
  simp [standing?, h]

theorem Reachable.standing_work (hw : w.Reachable) (hpaused : w.run.signals.paused = true)
    (hcalm : w.run.signals.cancelled = false) {x : Standing} (hx : w.standing? = some x)
    (chance : Chance) :
    ∃ y, x.Paces chance.delayOver y ∧ (w.step (.work chance)).standing? = some y := by
  rcases Option.map_eq_some_iff.mp hx with ⟨e, hengine, rfl⟩
  have hstops := (hw.runs hcalm e hengine).stops
  have hsound := hw.sound.engine e hengine
  have hpaces := (e.steps_step chance w.run.signals).paces hpaused hcalm hstops hsound w.moves
  refine ⟨_, hpaces, ?_⟩
  simp [Watch.step, act_work hengine, standing?, moves]

/-!
# Paused runs that are left alone

Nobody but the worker itself changes where it stands.
-/

structure Unattended (w : Watch) : Prop where
  reachable : w.Reachable
  duty : w.duty = .free
  paused : w.run.signals.paused = true
  stage : w.run.stage = .running

theorem Unattended.uncancelled (h : w.Unattended) : w.run.signals.cancelled = false :=
  h.reachable.orderly.uncancelled h.duty h.stage

theorem Happens.unattended (h : Happens w a w') (hw : w.Unattended)
    (ha : ∀ call, a = .call call → call.isControl = false) :
    w'.duty = .free ∧ w'.run.signals.paused = true ∧ w'.run.stage = .running := by
  have hduty := hw.duty
  have hstage := hw.stage
  cases h with
  | rest | retime _ | serve _ _ _ _ _ => exact ⟨hduty, hw.paused, hstage⟩
  | work _ hsteps => exact ⟨hduty, hsteps.paused.trans hw.paused, hstage⟩
  | launch _ hidle _ | refuse _ hidle _ => cases hidle.symm.trans hstage
  | pause _ _ | resume _ _ | advance _ _ | stop _ => cases ha _ rfl
  | drop h | set h | request h | cancel h | notify h | release h | close h _ =>
      cases hduty.symm.trans h

theorem Unattended.step (h : w.Unattended) (ha : ∀ call, a = .call call → call.isControl = false) :
    (w.step a).Unattended := by
  rcases (happens_act w a).unattended h ha with ⟨hduty, hpaused, hstage⟩
  exact ⟨h.reachable.step a, hduty, hpaused, hstage⟩

theorem Happens.standing (h : Happens w a w') (hw : w.Unattended)
    (hcall : ∀ call, a = .call call → call.isControl = false) (hwork : ∀ chance, a ≠ .work chance) :
    w'.standing? = w.standing? := by
  have hduty := hw.duty
  cases h with
  | rest | retime _ => rfl
  | work _ _ => exact absurd rfl (hwork _)
  | serve _ hengine _ _ _ =>
      rw [standing?_eq hengine]
      rfl
  | launch _ hidle _ | refuse _ hidle _ => cases hidle.symm.trans hw.stage
  | pause _ _ | resume _ _ | advance _ _ | stop _ => cases hcall _ rfl
  | drop h | set h | request h | cancel h | notify h | release h | close h _ =>
      cases hduty.symm.trans h

/-!
# Schedules

A worker that gets its turns takes its steps.  So it settles if each place that it may come to leads
on to rest, with so many moves in all.
-/

section Schedule

variable {schedule : Nat → Act}

def Settled (w : Watch) (schedule : Nat → Act) (k n : Nat) : Prop :=
  ∃ m, n ≤ m ∧ ∀ i, m ≤ i →
    ∃ x, (w.after schedule i).standing? = some x ∧ x.Rests ∧ x.moves = k

/-- Wherever a worker stands like that, it comes to rest. -/
def Settles (w : Watch) (schedule : Nat → Act) (k : Nat) (x : Standing) : Prop :=
  ∀ n, (w.after schedule n).standing? = some x → w.Settled schedule k n

theorem Settled.of_le {k n m : Nat} (h : w.Settled schedule k m) (hle : n ≤ m) :
    w.Settled schedule k n := by
  rcases h with ⟨i, hi, hrests⟩
  exact ⟨i, Nat.le_trans hle hi, hrests⟩

variable (hw : w.Unattended) (hcalls : Uncontrolled schedule)

include hw hcalls

theorem Unattended.after (n : Nat) : (w.after schedule n).Unattended := by
  induction n with
  | zero => exact hw
  | succ n ih => exact ih.step (hcalls n)

theorem standing_after {n : Nat} {x : Standing} (hx : (w.after schedule n).standing? = some x) :
    (w.after schedule (n + 1)).standing? = some x ∧ (∀ chance, schedule n ≠ .work chance) ∨
      ∃ chance y, schedule n = .work chance ∧ x.Paces chance.delayOver y ∧
        (w.after schedule (n + 1)).standing? = some y := by
  have hn : (w.after schedule n).Unattended := hw.after hcalls n
  show ((w.after schedule n).step (schedule n)).standing? = some x ∧ _ ∨
    ∃ chance y, _ ∧ _ ∧ ((w.after schedule n).step (schedule n)).standing? = some y
  by_cases hwork : ∃ chance, schedule n = .work chance
  · rcases hwork with ⟨chance, hact⟩
    rcases hn.reachable.standing_work hn.paused hn.uncancelled hx chance with ⟨y, hpaces, hy⟩
    right
    rw [hact]
    exact ⟨chance, y, rfl, hpaces, hy⟩
  · have hother : ∀ chance, schedule n ≠ .work chance := fun chance h => hwork ⟨chance, h⟩
    left
    constructor
    · rw [← hx]
      exact (happens_act _ _).standing hn (hcalls n) hother
    · exact hother

theorem settles_of_paces (hfair : Fair schedule) {k : Nat} {x : Standing}
    (hpaces : ∀ delayOver y, x.Paces delayOver y →
      delayOver = false ∧ y = x ∨ w.Settles schedule k y) : w.Settles schedule k x := by
  intro n hn
  let stands := fun m => (w.after schedule m).standing? = some x
  have hgoal : ∃ m, n ≤ m ∧ w.Settled schedule k m := by
    refine exists_goal_of_helps stands hfair.works ?_ ?_ hn
    · intro m hm
      rcases standing_after hw hcalls hm with ⟨hx, _⟩ | ⟨chance, y, _, hstep, hy⟩
      · exact Or.inr hx
      · rcases hpaces _ y hstep with ⟨_, rfl⟩ | hsettles
        · exact Or.inr hy
        · exact Or.inl (hsettles (m + 1) hy)
    · rintro m hm ⟨chance, hwork, hover⟩
      rcases standing_after hw hcalls hm with ⟨_, hother⟩ | ⟨chance', y, hact, hstep, hy⟩
      · exact absurd hwork (hother chance)
      · cases hwork.symm.trans hact
        rcases hpaces _ y hstep with ⟨hdozes, _⟩ | hsettles
        · cases hover.symm.trans hdozes
        · exact hsettles (m + 1) hy
  rcases hgoal with ⟨m, hm, hsettled⟩
  exact hsettled.of_le hm

theorem settles_of_next (hfair : Fair schedule) {k : Nat} {x : Standing}
    (hnext : ∀ delayOver y, x.Paces delayOver y → w.Settles schedule k y) :
    w.Settles schedule k x :=
  settles_of_paces hw hcalls hfair fun delayOver y hpaces => Or.inr (hnext delayOver y hpaces)

theorem settles_of_rests {k : Nat} (Holds : Standing → Prop)
    (hrests : ∀ x, Holds x → x.Rests ∧ x.moves = k)
    (hpaces : ∀ x delayOver y, Holds x → x.Paces delayOver y →
      Holds y ∨ w.Settles schedule k y) {x : Standing} (hx : Holds x) :
    w.Settles schedule k x := by
  intro n hn
  by_cases hleaves : ∃ m y, n ≤ m ∧ (w.after schedule m).standing? = some y ∧
      w.Settles schedule k y
  · rcases hleaves with ⟨m, y, hm, hy, hsettles⟩
    exact (hsettles m hy).of_le hm
  · have hstays : ∀ m, n ≤ m → ∃ y, (w.after schedule m).standing? = some y ∧ Holds y := by
      intro m hm
      induction m, hm using Nat.le_induction with
      | base => exact ⟨x, hn, hx⟩
      | succ m hm ih =>
          rcases ih with ⟨y, hy, hholds⟩
          rcases standing_after hw hcalls hy with ⟨hy', _⟩ | ⟨chance, z, _, hstep, hz⟩
          · exact ⟨y, hy', hholds⟩
          · rcases hpaces y _ z hholds hstep with hholds' | hsettles
            · exact ⟨z, hz, hholds'⟩
            · exact absurd ⟨m + 1, z, Nat.le_succ_of_le hm, hz, hsettles⟩ hleaves
    refine ⟨n, Nat.le_refl n, ?_⟩
    intro i hi
    rcases hstays i hi with ⟨y, hy, hholds⟩
    exact ⟨y, hy, hrests y hholds⟩

/-!
# From a request to the next rest

A worker that was granted a step moves on, evaluates the next block and waits again, unless the
evaluation waits for a line that does not come, or fails.
-/

theorem settles_hold {k : Nat} {phase : Phase} (hphase : phase.isHold = true) :
    w.Settles schedule k ⟨phase, false, k⟩ := by
  apply settles_of_rests hw hcalls fun x => x.phase.isHold = true ∧ x.step = false ∧ x.moves = k
  · intro x hx
    exact ⟨Or.inl hx.1, hx.2.2⟩
  · rintro x delayOver y ⟨hhold, hstep, hmoves⟩ hpaces
    left
    rcases hpaces.of_isHold hhold with ⟨hsame, hstays⟩
    rcases hstays hstep with ⟨hhold', hstep'⟩
    exact ⟨hhold', hstep', hsame.trans hmoves⟩
  · exact ⟨hphase, rfl, rfl⟩

theorem settles_ended {k : Nat} {b : Bool} : w.Settles schedule k ⟨.ended, b, k⟩ := by
  apply settles_of_rests hw hcalls fun x => x.phase = .ended ∧ x.moves = k
  · intro x hx
    exact ⟨Or.inr (Or.inr hx.1), hx.2⟩
  · intro x delayOver y hx hpaces
    left
    cases hpaces with
    | rest => exact hx
    | _ => cases hx.1
  · exact ⟨rfl, rfl⟩

variable (hfair : Fair schedule) {k : Nat}

include hfair

theorem settles_failing (fault : Fault) : w.Settles schedule k ⟨.failing fault, false, k⟩ := by
  have hquitting : w.Settles schedule k ⟨.quitting, false, k⟩ := by
    apply settles_of_next hw hcalls hfair
    rintro delayOver y ⟨⟩
    exact settles_ended hw hcalls
  have hreporting : w.Settles schedule k ⟨.reporting fault, false, k⟩ := by
    apply settles_of_next hw hcalls hfair
    rintro delayOver y ⟨⟩
    exact hquitting
  apply settles_of_next hw hcalls hfair
  rintro delayOver y ⟨⟩
  exact hreporting

theorem settles_ofFault (fault : Fault) :
    w.Settles schedule k ⟨.ofFault fault, false, k⟩ := by
  unfold Phase.ofFault
  split
  · exact settles_ended hw hcalls
  · exact settles_failing hw hcalls hfair fault

theorem settles_publishing (step : Step) (value : Value) (rest : List (String × Value)) :
    w.Settles schedule k ⟨.publishing step value rest, false, k⟩ := by
  have hpacing : ∀ delay, w.Settles schedule k ⟨.pacing step value delay, false, k⟩ := by
    intro delay
    apply settles_of_paces hw hcalls hfair
    intro delayOver y hpaces
    cases hpaces with
    | doze hover => exact Or.inl ⟨hover, rfl⟩
    | wake => exact Or.inr (settles_hold hw hcalls rfl)
  have htiming : w.Settles schedule k ⟨.timing step value, false, k⟩ := by
    apply settles_of_next hw hcalls hfair
    rintro delayOver y ⟨⟩
    exact hpacing _
  induction rest with
  | nil =>
      apply settles_of_next hw hcalls hfair
      rintro delayOver y ⟨⟩
      exact htiming
  | cons update rest ih =>
      apply settles_of_next hw hcalls hfair
      rintro delayOver y ⟨⟩
      exact ih

theorem settles_talking (step : Step) (talk : Talk) :
    w.Settles schedule k ⟨.talking step talk, false, k⟩ := by
  induction talk with
  | done result =>
      apply settles_of_next hw hcalls hfair
      intro delayOver y hpaces
      cases hpaces with
      | fail => exact settles_ofFault hw hcalls hfair _
      | leave => exact settles_publishing hw hcalls hfair step _ _
  | write line next ih =>
      apply settles_of_next hw hcalls hfair
      rintro delayOver y ⟨⟩
      exact ih
  | read prompt next ih =>
      have hanswering : ∀ answer,
          w.Settles schedule k ⟨.answering step (next answer), false, k⟩ := by
        intro answer
        apply settles_of_next hw hcalls hfair
        rintro delayOver y ⟨⟩
        exact ih answer
      have hwaiting : ∀ wait, w.Settles schedule k ⟨.waiting step wait next, false, k⟩ := by
        intro wait
        apply settles_of_rests hw hcalls fun x => ∃ wait, x = ⟨.waiting step wait next, false, k⟩
        · rintro x ⟨wait, rfl⟩
          exact ⟨Or.inr (Or.inl rfl), rfl⟩
        · rintro x delayOver y ⟨wait, rfl⟩ hpaces
          cases hpaces with
          | look => exact Or.inl ⟨_, rfl⟩
          | take => exact Or.inr (hanswering _)
        · exact ⟨wait, rfl⟩
      apply settles_of_next hw hcalls hfair
      rintro delayOver y ⟨⟩
      exact hwaiting _

theorem settles_arriving : w.Settles schedule k ⟨.arriving, false, k⟩ := by
  have hchecking : ∀ step, w.Settles schedule k ⟨.checking step, false, k⟩ := by
    intro step
    apply settles_of_next hw hcalls hfair
    rintro delayOver y ⟨⟩
    exact settles_talking hw hcalls hfair step _
  apply settles_of_next hw hcalls hfair
  intro delayOver y hpaces
  cases hpaces with
  | arrive => exact hchecking _
  | finish => exact settles_ended hw hcalls

theorem settles_granted {phase : Phase} (hphase : phase.isHold = true) :
    w.Settles schedule (k + 1) ⟨phase, true, k⟩ := by
  have hmoving : ∀ target, w.Settles schedule (k + 1) ⟨.moving target, false, k⟩ := by
    intro target
    apply settles_of_next hw hcalls hfair
    rintro delayOver y ⟨⟩
    exact settles_arriving hw hcalls hfair
  have hleaving : ∀ step value,
      w.Settles schedule (k + 1) ⟨.leaving step value, false, k⟩ := by
    intro step value
    apply settles_of_next hw hcalls hfair
    rintro delayOver y ⟨⟩
    exact hmoving _
  have hstepping : ∀ step value,
      w.Settles schedule (k + 1) ⟨.stepping step value, true, k⟩ := by
    intro step value
    apply settles_of_next hw hcalls hfair
    rintro delayOver y ⟨⟩
    exact hleaving step value
  have hheld : ∀ step value, w.Settles schedule (k + 1) ⟨.held step value, true, k⟩ := by
    intro step value
    apply settles_of_next hw hcalls hfair
    rintro delayOver y ⟨⟩
    exact hstepping step value
  cases phase with
  | holding step value =>
      apply settles_of_next hw hcalls hfair
      rintro delayOver y ⟨⟩
      exact hheld step value
  | held step value => exact hheld step value
  | stepping step value => exact hstepping step value
  | _ => cases hphase

end Schedule

/-!
# The call that requests a step

Until the step is requested, only the worker does anything.  It waits all the while if no step was
pending when the call began.
-/

def Held (w : Watch) : Prop :=
  ∃ e, w.run.engine = some e ∧ e.phase.isHold = true

theorem held_of_any (h : (w.run.engine.any fun e => e.phase.isHold) = true) : w.Held := by
  rcases (Option.any_eq_true _ _).mp h with ⟨e, hengine, hhold⟩
  exact ⟨e, hengine, hhold⟩

theorem Held.isHold (h : w.Held) {x : Standing} (hx : w.standing? = some x) :
    x.phase.isHold = true := by
  rcases h with ⟨e, hengine, hhold⟩
  rw [standing?_eq hengine] at hx
  cases hx
  exact hhold

structure Asking (w : Watch) (x : Standing) : Prop where
  reachable : w.Reachable
  duty : w.duty = .requesting
  standing : w.standing? = some x
  held : x.phase.isHold = true

theorem Asking.fits {x : Standing} (h : w.Asking x) :
    w.run.stage = .running ∧ w.run.signals.cancelled = false ∧ w.run.signals.paused = true := by
  have hfits := h.reachable.orderly.duty
  rw [h.duty] at hfits
  exact hfits

theorem Asking.step {x : Standing} (h : w.Asking x) (ha : a ≠ .proceed) :
    ∃ y, (w.step a).duty = .requesting ∧ (w.step a).standing? = some y ∧ y.moves = x.moves ∧
      (x.step = false → y.phase.isHold = true ∧ y.step = false) := by
  rcases h.fits with ⟨_, hcalm, hpaused⟩
  cases a with
  | work chance =>
      rcases h.reachable.standing_work hpaused hcalm h.standing chance with ⟨y, hpaces, hy⟩
      exact ⟨y, h.duty, hy, hpaces.of_isHold h.held⟩
  | call call =>
      have hact : w.act (.call call) = w := by simp [act, h.duty]
      refine ⟨x, ?_, ?_, rfl, fun hstep => ⟨h.held, hstep⟩⟩
      · rw [Watch.step, hact]
        exact h.duty
      · rw [Watch.step, hact]
        exact h.standing
  | proceed => exact absurd rfl ha

theorem Asking.request {x : Standing} (h : w.Asking x) :
    (w.step .proceed).Unattended ∧
      (w.step .proceed).standing? = some ⟨x.phase, true, x.moves⟩ := by
  rcases h.fits with ⟨hstage, _, hpaused⟩
  rcases Option.map_eq_some_iff.mp h.standing with ⟨e, hengine, rfl⟩
  have hact : w.act .proceed = { w with run := w.run.requestStep, duty := .free } := by
    simp [act, proceed, h.duty]
  constructor
  · refine ⟨h.reachable.step _, ?_, ?_, ?_⟩
    · rw [Watch.step, hact]
      rfl
    · rw [Watch.step, hact]
      exact hpaused
    · rw [Watch.step, hact]
      exact hstage
  · rw [Watch.step, hact]
    simp [standing?, Run.requestStep, hengine, moves]

theorem exists_requested {x : Standing} (h : w.Asking x) {schedule : Nat → Act}
    (hfair : Fair schedule)
    (hheld : x.step = false ∨
      ∀ n, (w.after schedule n).duty = .requesting → (w.after schedule n).Held) :
    ∃ n phase, (w.after schedule n).Unattended ∧ phase.isHold = true ∧
      (w.after schedule n).standing? = some ⟨phase, true, x.moves⟩ := by
  let asking := fun n => ∃ y, (w.after schedule n).Asking y ∧ y.moves = x.moves ∧
    (x.step = false → y.step = false)
  let requested := fun n => ∃ phase, (w.after schedule n).Unattended ∧ phase.isHold = true ∧
    (w.after schedule n).standing? = some ⟨phase, true, x.moves⟩
  have hrequests : ∀ n, asking n → schedule n = .proceed → requested (n + 1) := by
    rintro n ⟨y, hy, hmoves, _⟩ hproceed
    rcases hy.request with ⟨hunattended, hstanding⟩
    rw [← hproceed] at hunattended hstanding
    rw [hmoves] at hstanding
    exact ⟨y.phase, hunattended, hy.held, hstanding⟩
  have hwaits : ∀ n, asking n → schedule n ≠ .proceed → asking (n + 1) := by
    rintro n ⟨y, hy, hmoves, hstep⟩ hother
    rcases hy.step hother with ⟨z, hduty, hz, hmoves', hstays⟩
    have hhold : z.phase.isHold = true := by
      rcases hheld with hnone | hheld
      · exact (hstays (hstep hnone)).1
      · exact (hheld (n + 1) hduty).isHold hz
    exact ⟨z, ⟨hy.reachable.step _, hduty, hz, hhold⟩, hmoves'.trans hmoves,
      fun hnone => (hstays (hstep hnone)).2⟩
  have hgoal : ∃ n, 0 ≤ n ∧ requested n := by
    refine exists_goal_of_helps asking hfair.proceeds ?_ hrequests ⟨x, h, rfl, id⟩
    intro n hn
    by_cases hproceed : schedule n = .proceed
    · exact Or.inl (hrequests n hn hproceed)
    · exact Or.inr (hwaits n hn hproceed)
  rcases hgoal with ⟨n, _, phase, hrequested⟩
  exact ⟨n, phase, hrequested⟩

/-- The worker waits in a pause or for a line, or the run has ended with a failure or where
nothing was left to carry out. -/
def Resting (w : Watch) : Prop :=
  ∃ e, w.run.engine = some e ∧
    (e.phase.isHold = true ∨ e.phase.isRead = true ∨
      e.phase = .ended ∧ (w.run.signals.failed = true ∨ e.program.get? e.current = none))

theorem Unattended.resting (h : w.Unattended) {x : Standing} (hx : w.standing? = some x)
    (hrests : x.Rests) : w.Resting := by
  rcases Option.map_eq_some_iff.mp hx with ⟨e, hengine, rfl⟩
  refine ⟨e, hengine, ?_⟩
  rcases hrests with hhold | hread | hended
  · exact Or.inl hhold
  · exact Or.inr (Or.inl hread)
  · exact Or.inr (Or.inr ⟨hended, (h.reachable.runs h.uncancelled e hengine).ended hended⟩)

theorem moves_once_of_requested {schedule : Nat → Act} {start k : Nat} {phase : Phase}
    (h : (w.after schedule start).Unattended) (hphase : phase.isHold = true)
    (hstanding : (w.after schedule start).standing? = some ⟨phase, true, k⟩)
    (hfair : Fair schedule) (hcalls : Uncontrolled schedule) :
    ∃ n, ∀ m, n ≤ m → (w.after schedule m).moves = k + 1 ∧ (w.after schedule m).Resting := by
  have hcalls' : Uncontrolled fun n => schedule (start + n) := fun n => hcalls (start + n)
  rcases settles_granted h hcalls' (hfair.shift start) hphase 0 hstanding with ⟨n, _, hrests⟩
  refine ⟨start + n, ?_⟩
  intro m hm
  obtain ⟨i, rfl⟩ := Nat.exists_eq_add_of_le hm
  rcases hrests (n + i) (Nat.le_add_right n i) with ⟨y, hy, hrest, hmoves⟩
  have hthere := h.after hcalls' (n + i)
  rw [Nat.add_assoc, after_add]
  constructor
  · rcases Option.map_eq_some_iff.mp hy with ⟨e, _, rfl⟩
    exact hmoves
  · exact hthere.resting hy hrest

theorem advance_moves_once {x : Standing} (h : w.Asking x) {schedule : Nat → Act}
    (hfair : Fair schedule) (hcalls : Uncontrolled schedule)
    (hheld : x.step = false ∨
      ∀ n, (w.after schedule n).duty = .requesting → (w.after schedule n).Held) :
    ∃ n, ∀ m, n ≤ m →
      (w.after schedule m).moves = x.moves + 1 ∧ (w.after schedule m).Resting := by
  rcases exists_requested h hfair hheld with ⟨start, phase, hunattended, hhold, hstanding⟩
  exact moves_once_of_requested hunattended hhold hstanding hfair hcalls

theorem Reachable.asking_of_advance (hw : w.Reachable) (hfree : w.duty = .free)
    (hstate : w.run.state = .paused) (hheld : w.Held) :
    ∃ phase, (w.step (.call .advance)).Asking ⟨phase, w.run.signals.step, w.moves⟩ := by
  rcases hheld with ⟨e, hengine, hhold⟩
  have hact : w.act (.call .advance) = { w with duty := .requesting } := by
    simp [act, enter, hfree, hstate]
  refine ⟨e.phase, hw.step _, ?_, ?_, hhold⟩
  · simp only [Watch.step, hact, duty_note]
  · simp only [Watch.step, hact]
    exact standing?_eq hengine

/-!
# Pauses

In the schedule of the example both have their turns one by one, on a block that leads back to
itself.
-/

/-- After a pause the worker makes one move at most, and one for each request.  No request
outlasts the pause that it was made in.  A worker that waits in a pause and is told to go on moves
once, and comes to rest again. -/
theorem pause_is_honoured (delay : Nat) (acts : List Act) :
    let w := (new delay).perform acts
    (w.duty = .free → w.run.state = .running → ∀ during later,
      let p := (w.step (.call .pause)).perform during
      (∀ a ∈ during, ∀ call, a ≠ .call call) → p.duty = .free →
      (∀ a ∈ later, a ≠ .call .resume ∧ a ≠ .call .stop) →
        (p.perform later).moves ≤ p.moves + 1 + later.countP Act.isAdvance) ∧
    (w.run.signals.cancelled = false → w.run.signals.paused = false →
      w.run.signals.step = false) ∧
    (w.duty = .free → w.run.state = .paused → w.Held → ∀ schedule,
      Fair schedule → Uncontrolled schedule →
      let v := w.step (.call .advance)
      (w.run.signals.step = false ∨
        ∀ n, (v.after schedule n).duty = .requesting → (v.after schedule n).Held) →
      ∃ n, ∀ m, n ≤ m →
        (v.after schedule m).moves = w.moves + 1 ∧ (v.after schedule m).Resting) := by
  intro w
  refine ⟨?_, (orderly_perform delay acts).step, ?_⟩
  · intro hfree hstate during later p hduring hfree' hlater
    have hp : p = (new delay).perform (acts ++ .call .pause :: during) := by
      rw [perform_append, perform_cons]
    have hpauses : p.Pauses := pauses_perform (pauses_pause hfree hstate) during hduring
    rcases hpauses.credit_le hfree' with ⟨hpausing, hcredit⟩
    rw [hp] at hpausing hcredit ⊢
    have hbalance := (pausing_perform hpausing later hlater).2
    omega
  · intro hfree hstate hheld schedule hfair hcalls v hwaits
    have hw : w.Reachable := ⟨delay, acts, rfl⟩
    rcases hw.asking_of_advance hfree hstate hheld with ⟨phase, hasking⟩
    exact advance_moves_once hasking hfair hcalls hwaits

def alternating (n : Nat) : Act :=
  if n % 2 = 0 then .work (.inOrder true) else .proceed

theorem fair_alternating : Fair alternating where
  works := by
    intro n
    refine ⟨2 * n, by omega, .inOrder true, ?_, rfl⟩
    simp [alternating]
  proceeds := by
    intro n
    refine ⟨2 * n + 1, by omega, ?_⟩
    simp [alternating, Nat.add_mod]

theorem uncontrolled_alternating : Uncontrolled alternating := by
  intro n call h
  unfold alternating at h
  split at h
  · cases h
  · cases h

def endlessStart : List Act :=
  .call (.start endless) :: List.replicate 12 (.work (.inOrder true))

def endlessPause : List Act :=
  [Act.proceed, Act.work (.inOrder true), Act.proceed] ++
    List.replicate 3 (Act.work (.inOrder true))

theorem pause_is_honoured_endless :
    let w := (new 0).perform endlessStart
    let p := (w.step (.call .pause)).perform endlessPause
    w.run.state = .running ∧ w.run.signals.step = false ∧ p.run.state = .paused ∧ p.Held ∧
      (p.perform [.call .advance, .proceed, .work (.inOrder true)]).moves ≤ p.moves + 2 ∧
      ∃ n, ∀ m, n ≤ m →
        ((p.step (.call .advance)).after alternating m).moves = p.moves + 1 ∧
          ((p.step (.call .advance)).after alternating m).Resting := by
  intro w p
  -- evaluated together, so that the run is evaluated once
  have hrun : (w.duty, w.run.state, w.run.signals.cancelled, w.run.signals.paused, p.duty,
      p.run.state, p.run.signals.step, p.run.engine.any fun e => e.phase.isHold) =
        (.free, .running, false, false, .free, .paused, false, true) := by cbv
  simp only [Prod.mk.injEq] at hrun
  rcases hrun with ⟨hfree, hrunning, hcalm, hresumed, hfree', hpaused, hnone, hany⟩
  have hheld : p.Held := held_of_any hany
  rcases pause_is_honoured 0 endlessStart with ⟨hbound, hstep, _⟩
  have hp : p = (new 0).perform (endlessStart ++ .call .pause :: endlessPause) := by
    rw [perform_append, perform_cons]
  have honce := (pause_is_honoured 0 (endlessStart ++ .call .pause :: endlessPause)).2.2
  rw [← hp] at honce
  have hmoves := hbound hfree hrunning endlessPause
    [.call .advance, .proceed, .work (.inOrder true)] (by simp [endlessPause]) hfree' (by simp)
  exact ⟨hrunning, hstep hcalm hresumed, hpaused, hheld, hmoves,
    honce hfree' hpaused hheld alternating fair_alternating uncontrolled_alternating
      (Or.inl hnone)⟩

/-- When nothing comes between the call and the request that it makes, a step that is still pending
from before makes no difference: the worker moves once and comes to rest again. -/
theorem advance_at_once_moves_once (delay : Nat) (acts : List Act) :
    let w := (new delay).perform acts
    w.duty = .free → w.run.state = .paused → w.Held → ∀ schedule,
      Fair schedule → Uncontrolled schedule → schedule 0 = .proceed →
      let v := w.step (.call .advance)
      ∃ n, ∀ m, n ≤ m →
        (v.after schedule m).moves = w.moves + 1 ∧ (v.after schedule m).Resting := by
  intro w hfree hstate hheld schedule hfair hcalls hproceed v
  have hw : w.Reachable := ⟨delay, acts, rfl⟩
  rcases hw.asking_of_advance hfree hstate hheld with ⟨phase, hasking⟩
  rcases hasking.request with ⟨hunattended, hstanding⟩
  have hfirst : v.after schedule 1 = v.step .proceed := congrArg v.step hproceed
  rw [← hfirst] at hunattended hstanding
  exact moves_once_of_requested hunattended hasking.held hstanding hfair hcalls

end Watch
end Blockwise
