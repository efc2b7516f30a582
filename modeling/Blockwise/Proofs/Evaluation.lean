import Blockwise.Evaluation
import Blockwise.Proofs.Dialogue

/-!
# What evaluations keep

A statement about an evaluation names what the answers to its reads may be, what holds of the
store before and after it, and what holds of its result.  These are the rules that put such
statements together along the way an evaluation is put together.
-/

namespace Blockwise
namespace Evaluation

variable {α β : Type} {Answer : Except Fault String → Prop} {Inv : Store → Prop}
  {Result : α → Prop}

/-- As long as reads are answered as `Answer` says, the evaluation leads from a store with `Inv`
to a store with `Inv` and a result as `Result` says. -/
def Keeps (Answer : Except Fault String → Prop) (Inv : Store → Prop) (Result : α → Prop)
    (m : Evaluation α) : Prop :=
  ∀ store, Inv store → (m store).Ensures Answer fun r => Result r.1 ∧ Inv r.2

theorem keeps_pure {a : α} (h : Result a) : Keeps Answer Inv Result (pure a) := by
  intro store hstore
  exact ⟨h, hstore⟩

theorem Keeps.mono {Result' : α → Prop} {m : Evaluation α} (h : Keeps Answer Inv Result m)
    (hmono : ∀ a, Result a → Result' a) : Keeps Answer Inv Result' m := by
  intro store hstore
  apply (h store hstore).mono
  intro r hr
  exact ⟨hmono r.1 hr.1, hr.2⟩

theorem Keeps.bind {Middle : β → Prop} {m : Evaluation β} {next : β → Evaluation α}
    (h : Keeps Answer Inv Middle m) (hnext : ∀ b, Middle b → Keeps Answer Inv Result (next b)) :
    Keeps Answer Inv Result (m >>= next) := by
  intro store hstore
  refine Dialogue.Ensures.bind (h store hstore) ?_
  intro r hr
  exact hnext r.1 hr.1 r.2 hr.2

theorem keeps_get : Keeps Answer Inv Inv StateT.get := by
  intro store hstore
  exact ⟨hstore, hstore⟩

theorem keeps_set {store : Store} (h : Inv store) :
    Keeps Answer Inv (fun _ => True) (StateT.set store) := by
  intro _ _
  exact ⟨trivial, h⟩

theorem keeps_say (line : String) :
    Keeps Answer Inv (fun _ => True) (StateT.lift (Dialogue.say line)) := by
  intro store hstore
  exact ⟨trivial, hstore⟩

theorem keeps_ask (prompt : String) :
    Keeps Answer Inv Answer (StateT.lift (Dialogue.ask prompt)) := by
  intro store hstore answer hanswer
  exact ⟨hanswer, hstore⟩

end Evaluation
end Blockwise
