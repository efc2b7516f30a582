import Blockwise.Proofs.Evaluation
import Blockwise.Proofs.Evaluation.Causes

/-!
# Variables stay

All that an evaluation does to a store is to give variables values.  So whatever this cannot
break holds as long as the evaluation goes on, and no variable is ever lost.
-/

namespace Blockwise
namespace Evaluation

variable {Inv : Store → Prop}

def Lasting (Inv : Store → Prop) : Prop :=
  ∀ (store : Store) (name : String) (value : Value), Inv store → Inv (store.insert name value)

abbrev Steady {α : Type} (Inv : Store → Prop) (m : Evaluation α) : Prop :=
  Keeps (fun _ => True) Inv (fun _ => True) m

theorem steady_pure {α : Type} (a : α) : Steady Inv (pure a) :=
  keeps_pure trivial

theorem steady_lookup (name : String) : Steady Inv (lookup name) := by
  unfold lookup
  refine keeps_get.bind ?_
  intro store _
  split
  · exact steady_pure _
  · exact steady_pure _

theorem steady_assign (hlasting : Lasting Inv) (name : String) (declares : Bool) (value : Value) :
    Steady Inv (assign name declares value) := by
  unfold assign
  refine keeps_get.bind ?_
  intro store hstore
  rcases stored_cases store name declares value with hstored | ⟨cause, hstored, _⟩
  · rw [hstored]
    exact (keeps_set (hlasting store name value hstore)).bind fun _ _ => steady_pure _
  · rw [hstored]
    exact steady_pure _

theorem steady_writeLine (value : Value) : Steady Inv (writeLine value) := by
  unfold writeLine
  split
  · next s _ => exact (keeps_say s).bind fun _ _ => steady_pure _
  · exact steady_pure _

theorem steady_readLine (name : String) (target : ValueType) :
    Steady Inv (readLine name target) := by
  unfold readLine
  refine (keeps_ask _).bind ?_
  intro answer _
  split
  · exact steady_pure _
  · exact steady_pure _

end Evaluation

namespace Tree

open Evaluation

variable {Inv : Store → Prop}

mutual

theorem steady_evaluate (hlasting : Lasting Inv) : (tree : Tree) → Steady Inv tree.evaluate
  | literal value => by
      rw [evaluate]
      exact steady_pure value
  | get name => by
      rw [evaluate]
      exact steady_lookup name
  | template segments => by
      rw [evaluate]
      exact keeps_get.bind fun store _ => steady_pure _
  | unary op operand => by
      rw [evaluate]
      exact (steady_evaluate hlasting operand).bind fun value _ => steady_pure _
  | binary op left right => by
      have hleft := steady_evaluate hlasting left
      have hright := steady_evaluate hlasting right
      cases op
      case and | or =>
        rw [evaluate]
        refine hleft.bind ?_
        intro value _
        split
        · exact hright.bind fun _ _ => steady_pure _
        · exact steady_pure _
      all_goals
        simp only [evaluate]
        exact hleft.bind fun _ _ => hright.bind fun _ _ => steady_pure _
  | cast operand target => by
      rw [evaluate]
      exact (steady_evaluate hlasting operand).bind fun _ _ => steady_pure _
  | call name args => by
      rw [evaluate]
      split
      · exact steady_pure _
      · split
        · exact steady_pure _
        · refine (steady_evaluateArgs hlasting args).bind ?_
          intro values _
          cases values with
          | error value => exact steady_pure value
          | ok values => exact steady_pure _
  | set name value declares => by
      rw [evaluate]
      refine keeps_get.bind ?_
      intro store _
      split
      · exact steady_pure _
      · refine (steady_evaluate hlasting value).bind ?_
        intro v _
        split
        · exact steady_pure v
        · exact steady_assign hlasting name declares v
  | sequence trees => by
      rw [evaluate]
      exact steady_evaluateSequence hlasting .empty trees
  | write operand => by
      rw [evaluate]
      exact (steady_evaluate hlasting operand).bind fun value _ => steady_writeLine value
  | read name target => by
      rw [evaluate]
      exact steady_readLine name target

theorem steady_evaluateArgs (hlasting : Lasting Inv) :
    (args : List Tree) → Steady Inv (evaluateArgs args)
  | [] => by
      rw [evaluateArgs]
      exact steady_pure _
  | arg :: rest => by
      rw [evaluateArgs]
      refine (steady_evaluate hlasting arg).bind ?_
      intro value _
      split
      · exact steady_pure _
      · refine (steady_evaluateArgs hlasting rest).bind ?_
        intro values _
        cases values with
        | error fault => exact steady_pure _
        | ok values => exact steady_pure _

theorem steady_evaluateSequence (hlasting : Lasting Inv) (last : Value) :
    (trees : List Tree) → Steady Inv (evaluateSequence last trees)
  | [] => by
      rw [evaluateSequence]
      exact steady_pure last
  | tree :: rest => by
      rw [evaluateSequence]
      refine (steady_evaluate hlasting tree).bind ?_
      intro value _
      split
      · exact steady_pure value
      · exact steady_evaluateSequence hlasting value rest

end

/-- A variable that is there before an evaluation is there after it. -/
theorem names_stay (tree : Tree) (store : Store) :
    (tree.evaluate store).Ensures (fun _ => True) fun r =>
      ∀ name, store.contains name = true → r.2.contains name = true := by
  have hlasting : Lasting fun held =>
      ∀ name, store.contains name = true → held.contains name = true := by
    intro held name value hheld other hother
    rw [Dictionary.contains, Dictionary.get?_insert]
    split
    · rfl
    · exact hheld other hother
  exact (steady_evaluate hlasting tree store fun _ h => h).mono fun _ h => h.2

end Tree
end Blockwise
