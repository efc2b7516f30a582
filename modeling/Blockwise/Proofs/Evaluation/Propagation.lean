import Blockwise.Proofs.Evaluation.FirstError

/-!
# Errors pass through operations

An operation on values that is given an error has that error for its result.  Where there are
several values, it is the first error among them that counts.  The casts to the types of no value
and of errors are the exception: they put an error of their own in its place.
-/

namespace Blockwise

variable (fault : Fault)

theorem UnaryOp.apply_error (op : UnaryOp) : op.apply (.error fault) = .error fault := by
  cases op <;> rfl

namespace Value

/-- An error passes through the casts to types that a source can name.  Through another cast
passes only the error that it makes itself. -/
theorem cast_error_iff (target : ValueType) :
    (error fault).cast target = .error fault ↔
      target.isNamed = true ∨ fault = (Cause.badCast .error target).fault := by
  have hmade : ∀ cause : Cause, ofCause cause = .error fault ↔ fault = cause.fault := by
    intro cause
    rw [ofCause, error.injEq, eq_comm]
  cases target with
  | number | string | boolean => exact iff_of_true rfl (Or.inl rfl)
  | empty => exact (hmade _).trans (or_iff_right Bool.false_ne_true).symm
  | error => exact (hmade _).trans (or_iff_right Bool.false_ne_true).symm

end Value

namespace Function

variable (f : Function) (xs : List Float) (rest : List Value)

theorem numbers_error (index : Nat) :
    f.numbers index (xs.map .number ++ .error fault :: rest) = .error (.error fault) := by
  induction xs generalizing index with
  | nil => rfl
  | cons x more ih =>
      rw [List.map_cons, List.cons_append, numbers, ih (index + 1)]
      rfl

theorem invoke_error : f.invoke (xs.map .number ++ .error fault :: rest) = .error fault := by
  rw [invoke, numbers_error]

end Function

namespace Value

/-- What is an error stays the same error through unary operators, through casts to numbers,
strings and Booleans, on the left of an operator with anything on the right, on the right of one
with no error on the left, and in a call of any function on any values, if all arguments before
it are numbers.  A cast to the type of no value or of errors has an error of its own. -/
theorem errors_pass_through (fault : Fault) :
    (∀ op : UnaryOp, op.apply (.error fault) = .error fault) ∧
    ((error fault).toBoolean = .error fault ∧ (error fault).toText = .error fault ∧
      (error fault).toNumber = .error fault) ∧
    (∀ target, (error fault).cast target = .error fault ↔
      target.isNamed = true ∨ fault = (Cause.badCast .error target).fault) ∧
    (∀ (op : BinaryOp) v, op.apply (.error fault) v = .error fault ∧
      (v.isError = false → op.apply v (.error fault) = .error fault)) ∧
    ∀ (f : Function) (xs : List Float) rest,
      f.invoke (xs.map number ++ error fault :: rest) = .error fault := by
  refine ⟨?_, ?_, cast_error_iff fault, ?_, ?_⟩
  · exact fun op => op.apply_error fault
  · exact ⟨toBoolean_error fault, toText_error fault, toNumber_error fault⟩
  · exact fun op v => ⟨op.apply_error_left fault v, fun h => Frame.apply_error_right op h fault⟩
  · exact fun f xs rest => f.invoke_error fault xs rest

theorem errors_pass_through_division :
    let fault := Cause.divisionByZero.fault
    ValueType.string.isNamed = true ∧ (error fault).cast .string = .error fault ∧
    (string "a").isError = false ∧
    BinaryOp.add.apply (.string "a") (.error fault) = .error fault ∧
    Function.root.invoke [.number 2, .error fault, .error Cause.notReal.fault] =
      .error fault := by
  intro fault
  have hnamed : ValueType.string.isNamed = true := rfl
  have herror : (string "a").isError = false := rfl
  rcases errors_pass_through fault with ⟨_, _, hcast, hoperator, hcall⟩
  exact ⟨hnamed, (hcast .string).mpr (Or.inl hnamed), herror, (hoperator .add _).2 herror,
    hcall .root [2] _⟩

/-- A cast to the type of no value, or to that of errors, loses the error it is given. -/
theorem errors_lost_in_casts :
    let fault := Cause.divisionByZero.fault
    ((error fault).cast .empty = .ofCause (.badCast .error .empty) ∧
      (error fault).cast .empty ≠ .error fault) ∧
    (error fault).cast .error = .ofCause (.badCast .error .error) ∧
      (error fault).cast .error ≠ .error fault := by
  intro fault
  exact ⟨⟨rfl, by decide⟩, rfl, by decide⟩

end Value
end Blockwise
