import Blockwise.Evaluation
import Blockwise.Proofs.Grammar.Shapes

/-!
# Expressions do nothing but compute

Evaluating an expression asks for nothing, says nothing and leaves the store as it is.
-/

namespace Blockwise
namespace Evaluation

variable {α β : Type}

/-- The evaluation computes a result from the store and does nothing else. -/
def Quiet (m : Evaluation α) : Prop :=
  ∀ store, ∃ a, m store = .done (a, store)

theorem quiet_pure (a : α) : Quiet (pure a) :=
  fun _ => ⟨a, rfl⟩

theorem Quiet.bind {m : Evaluation β} {next : β → Evaluation α} (h : Quiet m)
    (hnext : ∀ b, Quiet (next b)) : Quiet (m >>= next) := by
  intro store
  rcases h store with ⟨b, hb⟩
  rcases hnext b store with ⟨a, ha⟩
  refine ⟨a, ?_⟩
  change (m store).bind _ = _
  rw [hb]
  exact ha

theorem quiet_get : Quiet StateT.get :=
  fun store => ⟨store, rfl⟩

theorem quiet_lookup (name : String) : Quiet (lookup name) := by
  unfold lookup
  apply quiet_get.bind
  intro store
  split
  · exact quiet_pure _
  · exact quiet_pure _

end Evaluation

namespace Tree

open Evaluation

mutual

theorem quiet_expression : (tree : Tree) → tree.Expression → Quiet tree.evaluate
  | literal value, _ => by
      rw [evaluate]
      exact quiet_pure value
  | get name, _ => by
      rw [evaluate]
      exact quiet_lookup name
  | template segments, _ => by
      rw [evaluate]
      exact quiet_get.bind fun store => quiet_pure _
  | unary op operand, h => by
      rw [evaluate]
      exact (quiet_expression operand h).bind fun value => quiet_pure _
  | binary op left right, h => by
      have hleft := quiet_expression left h.1
      have hright := quiet_expression right h.2
      cases op
      case and | or =>
        rw [evaluate]
        apply hleft.bind
        intro value
        split
        · exact hright.bind fun value => quiet_pure _
        · exact quiet_pure _
      all_goals
        simp only [evaluate]
        exact hleft.bind fun l => hright.bind fun r => quiet_pure _
  | cast operand target, h => by
      rw [evaluate]
      exact (quiet_expression operand h.1).bind fun value => quiet_pure _
  | call name args, h => by
      rw [evaluate]
      split
      · exact quiet_pure _
      · split
        · exact quiet_pure _
        · apply (quiet_args args h).bind
          intro values
          cases values with
          | error value => exact quiet_pure value
          | ok values => exact quiet_pure _
  | set _ _ _, h => h.elim
  | sequence _, h => h.elim
  | write _, h => h.elim
  | read _ _, h => h.elim

theorem quiet_args : (args : List Tree) → AllExpressions args → Quiet (evaluateArgs args)
  | [], _ => by
      rw [evaluateArgs]
      exact quiet_pure _
  | arg :: rest, h => by
      rw [evaluateArgs]
      apply (quiet_expression arg h.1).bind
      intro value
      split
      · exact quiet_pure _
      · apply (quiet_args rest h.2).bind
        intro values
        cases values with
        | error fault => exact quiet_pure _
        | ok values => exact quiet_pure _

end

end Tree
end Blockwise
