import Blockwise.Evaluation

/-!
# Laws of the logical operators

`and` and `or` are one operation with two truth values for a parameter: one of them decides, so
that the right side is skipped.  The laws of logic are proved of this operation on evaluations,
whatever the sides write, ask for, store or fail with.
-/

namespace Blockwise

/-!
# Truth values

What a value is cast to is a Boolean or an error, and negation hands the error on.
-/

namespace Value

theorem toBoolean_cases (v : Value) :
    (∃ b, v.toBoolean = .boolean b) ∨ ∃ fault, v.toBoolean = .error fault := by
  cases v with
  | boolean b => exact Or.inl ⟨b, rfl⟩
  | number x => exact Or.inl ⟨_, rfl⟩
  | string s => exact Or.inl ⟨_, rfl⟩
  | error fault => exact Or.inr ⟨fault, rfl⟩
  | empty => exact Or.inr ⟨_, rfl⟩

theorem toBoolean_toBoolean (v : Value) : v.toBoolean.toBoolean = v.toBoolean := by
  rcases v.toBoolean_cases with ⟨b, hb⟩ | ⟨fault, hfault⟩
  · rw [hb, toBoolean]
  · rw [hfault, toBoolean]

theorem not_of_boolean {v : Value} {b : Bool} (h : v.toBoolean = .boolean b) :
    v.not = .boolean (!b) := by
  rw [not, h]

theorem not_of_error {v : Value} {fault : Fault} (h : v.toBoolean = .error fault) :
    v.not = .error fault := by
  rw [not, h]

theorem not_toBoolean (v : Value) : v.toBoolean.not = v.not := by
  rw [not, toBoolean_toBoolean, ← not]

theorem toBoolean_not (v : Value) : v.not.toBoolean = v.not := by
  rcases v.toBoolean_cases with ⟨b, hb⟩ | ⟨fault, hfault⟩
  · rw [not_of_boolean hb, toBoolean]
  · rw [not_of_error hfault, toBoolean]

end Value

/-!
# Operations on evaluations

The left side decides, leaves it to the right side, or is an error.
-/

namespace Evaluation

variable {v : Value} {fault : Fault} (decisive : Bool) (left right : Evaluation Value)

def truth (operand : Evaluation Value) : Evaluation Value :=
  operand >>= fun v => pure v.toBoolean

def negation (operand : Evaluation Value) : Evaluation Value :=
  operand >>= fun v => pure v.not

/-- What becomes of the left side: the decisive truth value is the result, after the other one
the right side is, and a value that is neither is an error. -/
def afterLeft (v : Value) : Evaluation Value :=
  match v.toBoolean with
  | .boolean b => if b = decisive then pure (.boolean b) else truth right
  | other => pure other

def shortCircuit : Evaluation Value :=
  left >>= afterLeft decisive right

theorem afterLeft_decisive (h : v.toBoolean = .boolean decisive) :
    afterLeft decisive right v = pure (.boolean decisive) := by
  rw [afterLeft, h]
  exact if_pos rfl

theorem afterLeft_open (h : v.toBoolean = .boolean (!decisive)) :
    afterLeft decisive right v = truth right := by
  rw [afterLeft, h]
  exact if_neg (by simp)

theorem afterLeft_error (h : v.toBoolean = .error fault) :
    afterLeft decisive right v = pure (.error fault) := by
  rw [afterLeft, h]

theorem decisive_cases (v : Value) :
    v.toBoolean = .boolean decisive ∨ v.toBoolean = .boolean (!decisive) ∨
      ∃ fault, v.toBoolean = .error fault := by
  rcases v.toBoolean_cases with ⟨b, hb⟩ | hfault
  · by_cases hdecisive : b = decisive
    · exact Or.inl (hdecisive ▸ hb)
    · exact Or.inr (Or.inl (Bool.eq_not.mpr hdecisive ▸ hb))
  · exact Or.inr (Or.inr hfault)

/-!
# Laws

Negation goes into the sides, and the other truth value decides.  A row of one operation may be
grouped in any way.
-/

theorem negation_truth : negation (truth right) = negation right := by
  simp only [negation, truth, bind_assoc, pure_bind, Value.not_toBoolean]

theorem truth_negation : truth (negation right) = negation right := by
  simp only [negation, truth, bind_assoc, pure_bind, Value.toBoolean_not]

theorem truth_truth : truth (truth right) = truth right := by
  simp only [truth, bind_assoc, pure_bind, Value.toBoolean_toBoolean]

theorem truth_afterLeft (v : Value) :
    truth (afterLeft decisive right v) = afterLeft decisive right v := by
  rcases decisive_cases decisive v with h | h | ⟨fault, h⟩
  · rw [afterLeft_decisive decisive right h, truth, pure_bind, Value.toBoolean]
  · rw [afterLeft_open decisive right h, truth_truth]
  · rw [afterLeft_error decisive right h, truth, pure_bind, Value.toBoolean]

theorem truth_shortCircuit :
    truth (shortCircuit decisive left right) = shortCircuit decisive left right := by
  rw [shortCircuit, truth, bind_assoc]
  exact bind_congr fun v => truth_afterLeft decisive right v

theorem negation_shortCircuit :
    negation (shortCircuit decisive left right) =
      shortCircuit (!decisive) (negation left) (negation right) := by
  simp only [shortCircuit, negation, bind_assoc, pure_bind]
  apply bind_congr
  intro v
  change negation (afterLeft decisive right v) = afterLeft (!decisive) (negation right) v.not
  rcases decisive_cases decisive v with h | h | ⟨fault, h⟩
  · have hnot : v.not.toBoolean = .boolean (!decisive) := by
      rw [Value.toBoolean_not, Value.not_of_boolean h]
    rw [afterLeft_decisive decisive right h, afterLeft_decisive (!decisive) (negation right) hnot]
    rfl
  · have hnot : v.not.toBoolean = .boolean (!!decisive) := by
      rw [Value.toBoolean_not, Value.not_of_boolean h]
    rw [afterLeft_open decisive right h, afterLeft_open (!decisive) (negation right) hnot,
      negation_truth, truth_negation]
  · have hnot : v.not.toBoolean = .error fault := by
      rw [Value.toBoolean_not, Value.not_of_error h]
    rw [afterLeft_error decisive right h, afterLeft_error (!decisive) (negation right) hnot]
    rfl

theorem shortCircuit_assoc (last : Evaluation Value) :
    shortCircuit decisive (shortCircuit decisive left right) last =
      shortCircuit decisive left (shortCircuit decisive right last) := by
  simp only [shortCircuit, bind_assoc]
  apply bind_congr
  intro v
  change shortCircuit decisive (afterLeft decisive right v) last =
    afterLeft decisive (shortCircuit decisive right last) v
  rcases decisive_cases decisive v with h | h | ⟨fault, h⟩
  · rw [afterLeft_decisive decisive right h, afterLeft_decisive decisive _ h, shortCircuit,
      pure_bind, afterLeft_decisive decisive last rfl]
  · have htruth : ∀ w : Value, afterLeft decisive last w.toBoolean = afterLeft decisive last w := by
      intro w
      rw [afterLeft, Value.toBoolean_toBoolean, ← afterLeft]
    rw [afterLeft_open decisive right h, afterLeft_open decisive _ h, truth_shortCircuit]
    simp only [shortCircuit, truth, bind_assoc, pure_bind, htruth]
  · rw [afterLeft_error decisive right h, afterLeft_error decisive _ h, shortCircuit, pure_bind,
      afterLeft_error decisive last rfl]

end Evaluation

/-!
# Trees

The trees of `not`, `and` and `or` evaluate to these operations.
-/

namespace Tree

open Evaluation

theorem evaluate_not (operand : Tree) :
    (Tree.unary .not operand).evaluate = negation operand.evaluate := by
  rw [evaluate]
  rfl

theorem evaluate_and (left right : Tree) :
    (Tree.binary .and left right).evaluate =
      shortCircuit false left.evaluate right.evaluate := by
  rw [evaluate]
  apply bind_congr
  intro v
  rcases decisive_cases false v with h | h | ⟨fault, h⟩
  · rw [afterLeft_decisive false _ h, h]
  · rw [afterLeft_open false _ h, h]
    rfl
  · rw [afterLeft_error false _ h, h]

theorem evaluate_or (left right : Tree) :
    (Tree.binary .or left right).evaluate =
      shortCircuit true left.evaluate right.evaluate := by
  rw [evaluate]
  apply bind_congr
  intro v
  rcases decisive_cases true v with h | h | ⟨fault, h⟩
  · rw [afterLeft_decisive true _ h, h]
  · rw [afterLeft_open true _ h, h]
    rfl
  · rw [afterLeft_error true _ h, h]

/-- A negation may be moved into the sides of `and` and `or`, and a row of either may be grouped
in any way.  In every store, the two trees make the same dialogue: they write the same lines, ask
with the same prompts, and whatever is answered, they end with the same value and store. -/
theorem logic_laws (a b c : Tree) (store : Store) :
    (Tree.unary .not (.binary .and a b)).evaluate store =
      (Tree.binary .or (.unary .not a) (.unary .not b)).evaluate store ∧
    (Tree.unary .not (.binary .or a b)).evaluate store =
      (Tree.binary .and (.unary .not a) (.unary .not b)).evaluate store ∧
    (Tree.binary .and (.binary .and a b) c).evaluate store =
      (Tree.binary .and a (.binary .and b c)).evaluate store ∧
    (Tree.binary .or (.binary .or a b) c).evaluate store =
      (Tree.binary .or a (.binary .or b c)).evaluate store := by
  simp only [evaluate_not, evaluate_and, evaluate_or, negation_shortCircuit, shortCircuit_assoc,
    Bool.not_false, Bool.not_true, and_self]

end Tree
end Blockwise
