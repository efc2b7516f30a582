import Blockwise.Proofs.Evaluation.Closure

/-!
# Type soundness of evaluations

Variables hold numbers, strings and Booleans only.  What has no value is a statement, and no
statement stands in an expression, so a compiled tree never meets the empty value: an expression
has a value or fails, and no cast fails because there is nothing to cast.  This holds whatever
reads are answered with, and also of the store that an evaluation leaves behind when it fails.
-/

namespace Blockwise

def Fault.castKey : String := "error.msg.invalid_cast"

theorem Cause.key_ne_castKey {cause : Cause} (h : cause.isPlain = true) :
    cause.key ≠ Fault.castKey := by
  intro hkey
  have hlabel : cause.label = "invalid_cast" := by
    have hsplit : "error.msg." ++ cause.label = "error.msg." ++ "invalid_cast" := hkey
    exact (String.append_right_inj _).mp hsplit
  cases cause with
  | badCast _ _ => cases h
  | _ => simp [Cause.label] at hlabel

/-!
# Values

The value of an expression is there, or it is a failure, but not one to cast.
-/

namespace Value

def Uncast (v : Value) : Prop :=
  ∀ fault, v = error fault → fault.message ≠ Fault.castKey

def Proper : Value → Prop
  | empty => False
  | error fault => fault.message ≠ Fault.castKey
  | number _ => True
  | string _ => True
  | boolean _ => True

theorem Proper.uncast {v : Value} (h : v.Proper) : v.Uncast := by
  intro fault herror
  subst herror
  exact h

theorem Proper.ne_empty {v : Value} (h : v.Proper) : v ≠ empty := by
  intro hempty
  subst hempty
  exact h

theorem Proper.written {v : Value} (h : v.Proper) (herror : v.isError = false) : v.Written := by
  cases v with
  | empty => exact h.elim
  | number x => exact Written.number x
  | string s => exact Written.string s
  | boolean b => exact Written.boolean b
  | error fault => cases herror

theorem Written.proper {v : Value} (h : v.Written) : v.Proper := by
  cases h <;> trivial

theorem uncast_empty : empty.Uncast := by
  intro fault h
  cases h

theorem closed_proper : Closed Proper where
  written _ := Written.proper
  failure _ := Cause.key_ne_castKey
  uncastable := False.elim

end Value

open Value

/-!
# Stores

A store is written if every variable holds a number, a string or a Boolean.
-/

def Store.Written (store : Store) : Prop :=
  ∀ name value, store.get? name = some value → value.Written

namespace Store

theorem written_empty : Store.Written ∅ :=
  all_empty

theorem written_insert {store : Store} (h : store.Written) (name : String) {value : Value}
    (hvalue : value.Written) : Store.Written (Dictionary.insert store name value) :=
  All.insert h name hvalue

end Store

/-!
# Evaluations

Reads are answered with a line, or called off.  What a block evaluates to is no failure to cast, and
for a decision it is a value to decide by.
-/

namespace Evaluation

/-- A read is answered with a line, or it is called off. -/
def Interruptible : Except Fault String → Prop
  | .ok _ => True
  | .error fault => fault = Cause.interrupted.fault

abbrev Sound {α : Type} (Result : α → Prop) (m : Evaluation α) : Prop :=
  Keeps Interruptible Store.Written Result m

theorem kinds_proper : Kinds Interruptible Value.Proper Value.Written Value.Uncast where
  toClosed := closed_proper
  answer fault h := by
    have hkey : Cause.interrupted.key ≠ Fault.castKey := by decide
    have hfault : fault = Cause.interrupted.fault := h
    subst hfault
    exact hkey
  fetched _ := Written.proper
  stored _ := Proper.written
  result _ := Proper.uncast
  done := uncast_empty

end Evaluation

namespace Tree

open Evaluation

/-- What a block with the role evaluates to: no failure to cast, and for a decision a value to
decide by. -/
def Outcome (role : Role) (value : Value) : Prop :=
  value.Uncast ∧ (role = .decision → value ≠ .empty)

theorem Shaped.sound {role : Role} {tree : Tree} (h : Shaped role tree) :
    Sound (Outcome role) tree.evaluate := by
  apply (h.keeps kinds_proper).mono
  intro value hvalue
  exact ⟨hvalue.1, fun hdecision => (hvalue.2 hdecision).ne_empty⟩

end Tree
end Blockwise
