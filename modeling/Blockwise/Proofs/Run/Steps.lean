import Blockwise.Run

/-!
# Steps of a worker

Everything that the worker can do in one step, with the signals that it reads and writes and with
what it does that others can tell.
-/

namespace Blockwise

/-- What a worker does that others can tell: it begins to evaluate a block, announces the next one,
comes to a fault, sends it, writes a line or sends an update. -/
inductive Deed where
  | evaluated (block : BlockId)
  | wrote (line : String)
  | updated (update : String × Value)
  | moved (target : BlockId)
  | failed (block : BlockId) (fault : Fault)
  | reported (fault : Fault)

namespace Deed

def isMove : Deed → Bool
  | moved _ => true
  | _ => false

def failure? : Deed → Option (BlockId × Fault)
  | failed block fault => some (block, fault)
  | _ => none

def report? : Deed → Option Fault
  | reported fault => some fault
  | _ => none

end Deed

def Channel.since {α : Type} (before after : Channel α) : List α :=
  after.toList.drop before.toList.length

@[simp] theorem Channel.since_self {α : Type} (c : Channel α) : c.since c = [] := by
  simp [since]

@[simp] theorem Channel.since_send {α : Type} (c : Channel α) (message : α) :
    c.since (c.send message) = [message] := by
  simp [since]

namespace Phase

/-- The block that is done and its value, while the worker has not gone on from it. -/
def departing? : Phase → Option (Step × Value)
  | publishing step value _ => some (step, value)
  | timing step value => some (step, value)
  | pacing step value _ => some (step, value)
  | holding step value => some (step, value)
  | held step value => some (step, value)
  | stepping step value => some (step, value)
  | leaving step value => some (step, value)
  | _ => none

def isHold : Phase → Bool
  | holding _ _ | held _ _ | stepping _ _ => true
  | _ => false

def isPast : Phase → Bool
  | leaving _ _ | moving _ => true
  | _ => false

def isCheck : Phase → Bool
  | checking _ | pacing _ _ _ | held _ _ | leaving _ _ => true
  | _ => false

theorem eq_ended_of_isEnded {phase : Phase} (h : phase.isEnded = true) : phase = .ended := by
  cases phase <;> first | rfl | cases h

theorem ofChoice_cases (successor : Successor) (value : Value) :
    (∃ target, ofChoice successor value = .moving target) ∨
      (∃ fault, ofChoice successor value = .failing fault) ∨
        ofChoice successor value = .ended := by
  have hfault : ∀ fault : Fault, (∃ fault', ofFault fault = .failing fault') ∨
      ofFault fault = .ended := by
    intro fault
    unfold ofFault
    split
    · exact Or.inr rfl
    · exact Or.inl ⟨fault, rfl⟩
  unfold ofChoice
  split
  · exact Or.inl ⟨_, rfl⟩
  · split
    · exact Or.inl ⟨_, rfl⟩
    · exact Or.inl ⟨_, rfl⟩
    · exact Or.inr (hfault _)
    · exact Or.inr (hfault _)

end Phase

namespace Engine

def progress (before after : Engine) : List Deed :=
  match before.phase, after.phase with
  | .checking _, .talking _ _ => [.evaluated before.current]
  | .talking _ (.done (.error fault, _)), _ => [.failed before.current fault]
  | .leaving _ _, .failing fault => [.failed before.current fault]
  | .moving target, _ => [.moved target]
  | _, _ => []

def deeds (before after : Engine) : List Deed :=
  before.progress after
    ++ (before.wires.output.since after.wires.output).map Deed.wrote
    ++ (before.wires.updates.since after.wires.updates).map Deed.updated
    ++ (before.wires.errors.since after.wires.errors).map Deed.reported

/-- What a step can do: the signals and the worker after it, and its deeds. -/
inductive Steps (chance : Chance) (s : Signals) (e : Engine) :
    Signals → Engine → List Deed → Prop where
  | enter : e.phase = .entering →
      Steps chance s e { s with current := e.current } (e.go .arriving) []
  | arrive {step : Step} : e.phase = .arriving → e.program.get? e.current = some step →
      Steps chance s e s (e.go (.checking step)) []
  | finish : e.phase = .arriving → e.program.get? e.current = none →
      Steps chance s e s (e.go .ended) []
  | obey : e.phase.isCheck = true → s.cancelled = true → Steps chance s e s (e.go .ended) []
  | begin {step : Step} : e.phase = .checking step → s.cancelled = false →
      Steps chance s e s (e.go (.talking step (step.tree.evaluate e.store)))
        [.evaluated e.current]
  | fail {step : Step} {fault : Fault} {store : Store} :
      e.phase = .talking step (.done (.error fault, store)) →
      Steps chance s e s (e.go (.ofFault fault)) [.failed e.current fault]
  | leave {step : Step} {value : Value} {store : Store} :
      e.phase = .talking step (.done (value, store)) → value.isError = false →
      Steps chance s e s
        { e with store := store, phase := .publishing step value (chance.listing store) } []
  | write {step : Step} {line : String} {next : Talk} :
      e.phase = .talking step (.write line next) →
      Steps chance s e s
        { e with
          wires := { e.wires with output := e.wires.output.send line }
          phase := .talking step next } [.wrote line]
  | ask {step : Step} {prompt : String} {next : Except Fault String → Talk} :
      e.phase = .talking step (.read prompt next) →
      Steps chance s e { s with prompt := some prompt } (e.go (.waiting step .stops next)) []
  | look {step : Step} {wait wait' : Wait} {next : Except Fault String → Talk} :
      e.phase = .waiting step wait next → Steps chance s e s (e.go (.waiting step wait' next)) []
  | interrupt {step : Step} {wait : Wait} {next : Except Fault String → Talk} {stops : Nat} :
      e.phase = .waiting step wait next → s.cancelled = true ∨ e.wires.stops ≠ 0 →
      Steps chance s e s
        { e with
          wires := { e.wires with stops := stops }
          phase := .answering step (next (.error Cause.interrupted.fault)) } []
  | take {step : Step} {wait : Wait} {next : Except Fault String → Talk} {line : String}
      {input : Channel String} : e.phase = .waiting step wait next →
      e.wires.input.toList = line :: input.toList →
      Steps chance s e s
        { e with
          wires := { e.wires with input := input }
          phase := .answering step (next (.ok line)) } []
  | answer {step : Step} {talk : Talk} : e.phase = .answering step talk →
      Steps chance s e { s with prompt := none } (e.go (.talking step talk)) []
  | publish {step : Step} {value : Value} {update : String × Value}
      {rest : List (String × Value)} : e.phase = .publishing step value (update :: rest) →
      Steps chance s e s
        { e with
          wires := { e.wires with updates := e.wires.updates.send update }
          phase := .publishing step value rest } [.updated update]
  | listed {step : Step} {value : Value} : e.phase = .publishing step value [] →
      Steps chance s e s (e.go (.timing step value)) []
  | time {step : Step} {value : Value} : e.phase = .timing step value →
      Steps chance s e s (e.go (.pacing step value s.delay)) []
  | doze {step : Step} {value : Value} {delay : Nat} : e.phase = .pacing step value delay →
      chance.delayOver = false → Steps chance s e s e []
  | wake {step : Step} {value : Value} {delay : Nat} : e.phase = .pacing step value delay →
      s.cancelled = false → Steps chance s e s (e.go (.holding step value)) []
  | hold {step : Step} {value : Value} : e.phase = .holding step value → s.paused = true →
      Steps chance s e s (e.go (.held step value)) []
  | pass {step : Step} {value : Value} : e.phase = .holding step value → s.paused = false →
      Steps chance s e s (e.go (.leaving step value)) []
  | stay {step : Step} {value : Value} : e.phase = .held step value → s.cancelled = false →
      Steps chance s e s (e.go (.stepping step value)) []
  | grant {step : Step} {value : Value} : e.phase = .stepping step value → s.step = true →
      Steps chance s e { s with step := false } (e.go (.leaving step value)) []
  | deny {step : Step} {value : Value} : e.phase = .stepping step value → s.step = false →
      Steps chance s e s (e.go (.holding step value)) []
  | choose {step : Step} {value : Value} {target : BlockId} : e.phase = .leaving step value →
      s.cancelled = false → Phase.ofChoice step.successor value = .moving target →
      Steps chance s e s (e.go (.moving target)) []
  | balk {step : Step} {value : Value} {fault : Fault} : e.phase = .leaving step value →
      s.cancelled = false → Phase.ofChoice step.successor value = .failing fault →
      Steps chance s e s (e.go (.failing fault)) [.failed e.current fault]
  | lapse {step : Step} {value : Value} : e.phase = .leaving step value →
      s.cancelled = false → Phase.ofChoice step.successor value = .ended →
      Steps chance s e s (e.go .ended) []
  | move {target : BlockId} : e.phase = .moving target →
      Steps chance s e { s with current := target }
        { e with current := target, phase := .arriving } [.moved target]
  | raise {fault : Fault} : e.phase = .failing fault →
      Steps chance s e { s with failed := true } (e.go (.reporting fault)) []
  | report {fault : Fault} : e.phase = .reporting fault →
      Steps chance s e s
        { e with
          wires := { e.wires with errors := e.wires.errors.send fault }
          phase := .quitting } [.reported fault]
  | quit : e.phase = .quitting → Steps chance s e s (e.go .ended) []
  | rest : e.phase = .ended → Steps chance s e s e []

variable {chance : Chance} {s s' : Signals} {e e' : Engine} {done : List Deed}

theorem departing_of {phase : Phase} {done : Step × Value} (hphase : e.phase = phase)
    (h : phase.departing? = some done) : e.phase.departing? = some done := by
  rw [hphase, h]

theorem progress_of_isCheck (h : e.phase.isCheck = true) : e.progress (e.go .ended) = [] := by
  cases hphase : e.phase <;> simp [hphase, Phase.isCheck, progress, go] at h ⊢

theorem Steps.deeds_eq (h : Steps chance s e s' e' done) :
    e.deeds e' = done := by
  cases h with
  | obey hcheck _ =>
      rw [deeds, progress_of_isCheck hcheck]
      simp [go]
  | @leave step value store hphase hvalue =>
      cases value with
      | error fault => cases hvalue
      | _ => simp [deeds, progress, hphase]
  | _ => simp_all [deeds, progress, go]

theorem steps_talk {step : Step} {talk : Talk} (hphase : e.phase = .talking step talk) :
    ∃ done, Steps chance s e (e.talk chance s step talk).1 (e.talk chance s step talk).2 done := by
  cases talk with
  | done result =>
      rcases result with ⟨value, store⟩
      cases value with
      | error fault => exact ⟨_, Steps.fail hphase⟩
      | empty | number x | string b | boolean b => exact ⟨_, Steps.leave hphase rfl⟩
  | write line next => exact ⟨_, Steps.write hphase⟩
  | read prompt next => exact ⟨_, Steps.ask hphase⟩

theorem steps_wait {step : Step} {wait : Wait} {next : Except Fault String → Talk}
    (hphase : e.phase = .waiting step wait next) :
    Steps chance s e s (e.wait s step next wait) [] := by
  cases wait with
  | stops =>
      cases hstops : e.wires.stops with
      | zero =>
          simp only [Engine.wait, hstops]
          exact Steps.look hphase
      | succ n =>
          simp only [Engine.wait, hstops]
          apply Steps.interrupt hphase
          right
          simp [hstops]
  | cancellation =>
      cases hcancelled : s.cancelled with
      | false =>
          simp only [Engine.wait, hcancelled]
          exact Steps.look hphase
      | true =>
          simp only [Engine.wait, hcancelled]
          exact Steps.interrupt hphase (Or.inl hcancelled)
  | line =>
      cases hreceive : e.wires.input.receive? with
      | none =>
          simp only [Engine.wait, hreceive]
          exact Steps.look hphase
      | some received =>
          simp only [Engine.wait, hreceive]
          exact Steps.take hphase (Channel.toList_of_receive? hreceive)

theorem exists_steps (chance : Chance) (s : Signals) (e : Engine) :
    ∃ done, Steps chance s e (e.step chance s).1 (e.step chance s).2 done := by
  unfold step
  cases hphase : e.phase with
  | entering => exact ⟨_, Steps.enter hphase⟩
  | arriving =>
      dsimp only
      cases hget : e.program.get? e.current with
      | none => exact ⟨_, Steps.finish hphase hget⟩
      | some step => exact ⟨_, Steps.arrive hphase hget⟩
  | checking step =>
      dsimp only
      split
      · next hcancelled => exact ⟨_, Steps.obey (by rw [hphase]; rfl) hcancelled⟩
      · next hcancelled => exact ⟨_, Steps.begin hphase (Bool.eq_false_iff.mpr hcancelled)⟩
  | talking step talk => exact steps_talk hphase
  | waiting step wait next => exact ⟨_, steps_wait hphase⟩
  | answering step talk => exact ⟨_, Steps.answer hphase⟩
  | publishing step value rest =>
      cases rest with
      | nil => exact ⟨_, Steps.listed hphase⟩
      | cons update rest => exact ⟨_, Steps.publish hphase⟩
  | timing step value => exact ⟨_, Steps.time hphase⟩
  | pacing step value delay =>
      dsimp only
      split
      · next hcancelled => exact ⟨_, Steps.obey (by rw [hphase]; rfl) hcancelled⟩
      · next hcancelled =>
          split
          · exact ⟨_, Steps.wake hphase (Bool.eq_false_iff.mpr hcancelled)⟩
          · next hdelay =>
              simp only [Bool.or_eq_true, not_or, Bool.not_eq_true] at hdelay
              exact ⟨_, Steps.doze hphase hdelay.2⟩
  | holding step value =>
      dsimp only
      split
      · next hpaused => exact ⟨_, Steps.hold hphase hpaused⟩
      · next hpaused => exact ⟨_, Steps.pass hphase (Bool.eq_false_iff.mpr hpaused)⟩
  | held step value =>
      dsimp only
      split
      · next hcancelled => exact ⟨_, Steps.obey (by rw [hphase]; rfl) hcancelled⟩
      · next hcancelled => exact ⟨_, Steps.stay hphase (Bool.eq_false_iff.mpr hcancelled)⟩
  | stepping step value =>
      dsimp only
      split
      · next hstep => exact ⟨_, Steps.grant hphase hstep⟩
      · next hstep => exact ⟨_, Steps.deny hphase (Bool.eq_false_iff.mpr hstep)⟩
  | leaving step value =>
      dsimp only
      split
      · next hcancelled => exact ⟨_, Steps.obey (by rw [hphase]; rfl) hcancelled⟩
      · next hcancelled =>
          have hrunning := Bool.eq_false_iff.mpr hcancelled
          rcases Phase.ofChoice_cases step.successor value with
            ⟨target, hchoice⟩ | ⟨fault, hchoice⟩ | hchoice
          · rw [hchoice]
            exact ⟨_, Steps.choose hphase hrunning hchoice⟩
          · rw [hchoice]
            exact ⟨_, Steps.balk hphase hrunning hchoice⟩
          · rw [hchoice]
            exact ⟨_, Steps.lapse hphase hrunning hchoice⟩
  | moving target => exact ⟨_, Steps.move hphase⟩
  | failing fault => exact ⟨_, Steps.raise hphase⟩
  | reporting fault => exact ⟨_, Steps.report hphase⟩
  | quitting => exact ⟨_, Steps.quit hphase⟩
  | ended => exact ⟨_, Steps.rest hphase⟩

theorem steps_step (chance : Chance) (s : Signals) (e : Engine) :
    Steps chance s e (e.step chance s).1 (e.step chance s).2
      (e.deeds (e.step chance s).2) := by
  rcases exists_steps chance s e with ⟨done, h⟩
  rw [h.deeds_eq]
  exact h

theorem Steps.of_ended (h : Steps chance s e s' e' done) (hended : e.phase = .ended) :
    s' = s ∧ e' = e ∧ done = [] := by
  cases h with
  | rest _ => exact ⟨rfl, rfl, rfl⟩
  | obey hcheck _ =>
      rw [hended] at hcheck
      cases hcheck
  | enter hphase | arrive hphase _ | finish hphase _ | begin hphase _ | fail hphase
  | leave hphase _ | write hphase | ask hphase | look hphase | interrupt hphase _
  | take hphase _ | answer hphase | publish hphase | listed hphase | time hphase | doze hphase _
  | wake hphase _ | hold hphase _ | pass hphase _ | stay hphase _ | grant hphase _
  | deny hphase _ | choose hphase _ _ | balk hphase _ _ | lapse hphase _ _ | move hphase
  | raise hphase | report hphase | quit hphase =>
      rw [hended] at hphase
      cases hphase

/-!
# Signals that a step leaves alone

The worker takes requests for steps and makes none, and it revokes neither a cancellation nor a
failure.
-/

theorem Steps.cancelled (h : Steps chance s e s' e' done) : s'.cancelled = s.cancelled := by
  cases h <;> rfl

theorem Steps.paused (h : Steps chance s e s' e' done) : s'.paused = s.paused := by
  cases h <;> rfl

theorem Steps.step_of_false (h : Steps chance s e s' e' done) (hstep : s.step = false) :
    s'.step = false := by
  cases h <;> first | exact hstep | rfl

theorem Steps.failed_of_true (h : Steps chance s e s' e' done) (hfailed : s.failed = true) :
    s'.failed = true := by
  cases h <;> first | exact hfailed | rfl

theorem Steps.program (h : Steps chance s e s' e' done) : e'.program = e.program := by
  cases h <;> rfl

end Engine
end Blockwise
