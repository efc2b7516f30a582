import Blockwise.Dialogue

/-!
# Results of dialogues

What a dialogue ends with, whatever it is told as long as the answers are of a certain kind, and
what holding it with a script adds to the script.
-/

namespace Blockwise
namespace Dialogue

variable {α β : Type} {Answer : Except Fault String → Prop}

/-- As long as reads are answered as `Answer` says, the dialogue ends as `Result` says. -/
def Ensures (Answer : Except Fault String → Prop) (Result : α → Prop) : Dialogue α → Prop
  | done result => Result result
  | write _ next => next.Ensures Answer Result
  | read _ next => ∀ answer, Answer answer → (next answer).Ensures Answer Result

theorem Ensures.mono {Result Result' : α → Prop} {d : Dialogue α} (h : d.Ensures Answer Result)
    (hmono : ∀ a, Result a → Result' a) : d.Ensures Answer Result' := by
  induction d with
  | done result => exact hmono result h
  | write line rest ih => exact ih h
  | read prompt rest ih =>
      intro answer hanswer
      exact ih answer (h answer hanswer)

theorem Ensures.bind {Middle : α → Prop} {Result : β → Prop} {d : Dialogue α}
    {next : α → Dialogue β} (h : d.Ensures Answer Middle)
    (hnext : ∀ a, Middle a → (next a).Ensures Answer Result) :
    (d >>= next).Ensures Answer Result := by
  induction d with
  | done result => exact hnext result h
  | write line rest ih => exact ih h
  | read prompt rest ih =>
      intro answer hanswer
      exact ih answer (h answer hanswer)

/-!
# Exchanges

What passes between a dialogue and whoever holds it, and what is left of the dialogue then.
-/

inductive Exchange where
  | said (line : String)
  | asked (prompt : String) (answer : Except Fault String)

inductive After : Dialogue α → List Exchange → Dialogue α → Prop where
  | refl {d : Dialogue α} : After d [] d
  | said {line : String} {next d : Dialogue α} {exchanges : List Exchange} :
      After next exchanges d → After (write line next) (.said line :: exchanges) d
  | asked {prompt : String} {answer : Except Fault String} {d : Dialogue α}
      {next : Except Fault String → Dialogue α} {exchanges : List Exchange} :
      After (next answer) exchanges d →
      After (read prompt next) (.asked prompt answer :: exchanges) d

theorem After.trans {d d' d'' : Dialogue α} {exchanges exchanges' : List Exchange}
    (h : After d exchanges d') (h' : After d' exchanges' d'') :
    After d (exchanges ++ exchanges') d'' := by
  induction h with
  | refl => exact h'
  | said _ ih => exact After.said (ih h')
  | asked _ ih => exact After.asked (ih h')

theorem After.bind {d d' : Dialogue α} {exchanges : List Exchange} (h : After d exchanges d')
    (next : α → Dialogue β) : After (d.bind next) exchanges (d'.bind next) := by
  induction h with
  | refl => exact After.refl
  | said _ ih => exact After.said ih
  | asked _ ih => exact After.asked ih

/-!
# Scripts

A script only ever grows, and what a dialogue adds to it depends on its lines alone.
-/

theorem perform_bind (d : Dialogue α) (next : α → Dialogue β) (script : Script) :
    (d.bind next).perform script =
      (next (d.perform script).1).perform (d.perform script).2 := by
  induction d generalizing script with
  | done result => rfl
  | write line rest ih => exact ih (script.record line)
  | read prompt rest ih => exact ih _ (script.answer prompt).2

theorem perform_eq (d : Dialogue α) (script : Script) :
    d.perform script =
      ((d.perform (.ofInput script.input)).1,
        { input := (d.perform (.ofInput script.input)).2.input
          output := script.output ++ (d.perform (.ofInput script.input)).2.output
          prompts := script.prompts ++ (d.perform (.ofInput script.input)).2.prompts }) := by
  induction d generalizing script with
  | done result => simp [perform, Script.ofInput]
  | write line next ih =>
      simp only [perform]
      rw [ih (script.record line), ih ((Script.ofInput script.input).record line)]
      simp [Script.record, Script.ofInput]
  | read prompt next ih =>
      simp only [perform]
      rw [ih _ (script.answer prompt).2, ih _ ((Script.ofInput script.input).answer prompt).2]
      rcases script with ⟨input, output, prompts⟩
      cases input with
      | nil => simp [Script.answer, Script.ofInput]
      | cons line rest => simp [Script.answer, Script.ofInput]

end Dialogue
end Blockwise
