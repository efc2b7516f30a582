import Blockwise.Proofs.Evaluation.Failures

/-!
# Where interruptions come from

An evaluation is interrupted only by a read that is called off.  No operation on values makes an
interruption out of other values, so an evaluation whose reads are all answered with a line ends
with a value, or with an error that is no interruption.
-/

namespace Blockwise

theorem Cause.isInterruption_fault :
    Cause.AllMade fun fault => fault.isInterruption = false := by
  intro cause hmade
  cases cause with
  | interrupted => exact absurd rfl hmade
  | _ => rfl

/-!
# Values

No operation makes an interruption.
-/

def Value.Undisturbed : Value → Prop
  | error fault => fault.isInterruption = false
  | _ => True

namespace Value

theorem undisturbed_eq :
    Undisturbed = FailsAs fun fault => fault.isInterruption = false := by
  funext v
  cases v <;> rfl

theorem undisturbed_toBoolean {v : Value} (h : v.Undisturbed) : v.toBoolean.Undisturbed := by
  rw [undisturbed_eq] at h ⊢
  exact (closed_failsAs Cause.isInterruption_fault).toBoolean h

end Value

/-!
# Stores

A store without errors holds no interruption.
-/

def Store.Undisturbed (store : Store) : Prop :=
  ∀ name value, store.get? name = some value → value.Undisturbed

namespace Store

theorem undisturbed_eq :
    Store.Undisturbed = Store.FailsAs fun fault => fault.isInterruption = false := by
  funext store
  simp only [Store.Undisturbed, Store.FailsAs, Value.undisturbed_eq]

theorem undisturbed_empty : Store.Undisturbed ∅ :=
  all_empty

end Store

/-!
# Evaluations

A compiled tree is not interrupted as long as its reads are answered, and interrupts no evaluation
that goes on from its store.
-/

namespace Evaluation

def Answered : Except Fault String → Prop
  | .ok _ => True
  | .error _ => False

/-- The evaluation is not interrupted, and interrupts none that goes on from its store. -/
abbrev Undisturbed {α : Type} (Result : α → Prop) (m : Evaluation α) : Prop :=
  Keeps Answered Store.Undisturbed Result m

end Evaluation

open Evaluation in
theorem Tree.undisturbed_of_ofSource {role : Role} {source : String} {tree : Tree}
    (h : ofSource role source = .ok tree) : Undisturbed Value.Undisturbed tree.evaluate := by
  rw [Undisturbed, Value.undisturbed_eq, Store.undisturbed_eq]
  exact failsAs_of_ofSource Cause.isInterruption_fault (fun _ hanswer => hanswer.elim) h

end Blockwise
