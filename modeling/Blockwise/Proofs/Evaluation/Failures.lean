import Blockwise.Proofs.Evaluation.Closure

/-!
# What an evaluation fails with

A compiled tree holds no error, and neither does a variable.  So what an evaluation fails with was
made on the way: an operation failed with a cause, or a read was answered with a fault.  No
operation fails with an interruption.  What holds of the faults of all other causes, and of the
faults that reads are answered with, holds of the fault that an evaluation ends with.
-/

namespace Blockwise

def Value.FailsAs (P : Fault → Prop) : Value → Prop
  | error fault => P fault
  | _ => True

def Cause.AllMade (P : Fault → Prop) : Prop :=
  ∀ cause : Cause, cause ≠ .interrupted → P cause.fault

def Store.FailsAs (P : Fault → Prop) (store : Store) : Prop :=
  ∀ name value, store.get? name = some value → value.FailsAs P

variable {P : Fault → Prop}

namespace Value

theorem failsAs_of_written {v : Value} (h : v.Written) : v.FailsAs P := by
  cases h <;> trivial

theorem failsAs_ofCause (hmade : Cause.AllMade P) {cause : Cause} (h : cause ≠ .interrupted) :
    (ofCause cause).FailsAs P :=
  hmade cause h

theorem closed_failsAs (hmade : Cause.AllMade P) : Closed (FailsAs P) where
  written _ := failsAs_of_written
  failure cause h := by
    apply failsAs_ofCause hmade
    intro hcause
    subst hcause
    cases h
  uncastable _ _ _ := failsAs_ofCause hmade nofun

end Value

namespace Evaluation

variable {Answer : Except Fault String → Prop}

/-- The property holds of every fault that the evaluation ends with or leaves in a variable. -/
abbrev FailsAs {α : Type} (Answer : Except Fault String → Prop) (P : Fault → Prop)
    (Result : α → Prop) (m : Evaluation α) : Prop :=
  Keeps Answer (Store.FailsAs P) Result m

theorem kinds_failsAs (hmade : Cause.AllMade P)
    (hanswer : ∀ fault, Answer (.error fault) → P fault) :
    Kinds Answer (Value.FailsAs P) (Value.FailsAs P) (Value.FailsAs P) where
  toClosed := Value.closed_failsAs hmade
  answer := hanswer
  fetched _ h := h
  stored _ h _ := h
  result _ h := h
  done := trivial

end Evaluation

open Evaluation in
theorem Tree.failsAs_of_ofSource {Answer : Except Fault String → Prop} (hmade : Cause.AllMade P)
    (hanswer : ∀ fault, Answer (.error fault) → P fault) {role : Role} {source : String}
    {tree : Tree} (h : ofSource role source = .ok tree) :
    FailsAs Answer P (Value.FailsAs P) tree.evaluate :=
  ((shaped_of_ofSource h).keeps (kinds_failsAs hmade hanswer)).mono fun _ hvalue => hvalue.1

end Blockwise
