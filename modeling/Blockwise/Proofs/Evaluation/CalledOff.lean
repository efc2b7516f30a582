import Blockwise.Proofs.Evaluation.Frames
import Blockwise.Proofs.Program.Exactness

/-!
# Reads that are called off

In the tree of a block, a read stands only where a variable is declared with what was read.  So a
read that is called off ends the evaluation of the block: nothing is asked, written or stored
after it, and the value of the block is the fault that the read was answered with.
-/

namespace Blockwise
namespace Dialogue

/-- A read that is called off is the last that happens. -/
def StopsShort : Dialogue (Value × Store) → Prop
  | done _ => True
  | write _ next => next.StopsShort
  | read _ next =>
      (∀ fault, ∃ store, next (.error fault) = .done (.error fault, store)) ∧
        ∀ line, (next (.ok line)).StopsShort

theorem StopsShort.bind {d : Dialogue (Value × Store)} (h : d.StopsShort)
    {next : Value × Store → Dialogue (Value × Store)}
    (herror : ∀ fault store, next (.error fault, store) = .done (.error fault, store))
    (hnext : ∀ r, (next r).StopsShort) : (d.bind next).StopsShort := by
  induction d with
  | done result => exact hnext result
  | write line rest ih => exact ih h
  | read prompt rest ih =>
      constructor
      · intro fault
        rcases h.1 fault with ⟨store, hrest⟩
        refine ⟨store, ?_⟩
        change (rest (.error fault)).bind next = _
        rw [hrest]
        exact herror fault store
      · intro line
        exact ih (.ok line) (h.2 line)

end Dialogue

namespace Tree

open Evaluation

theorem stopsShort_expression {tree : Tree} (h : tree.Expression) (store : Store) :
    (tree.evaluate store).StopsShort := by
  rcases quiet_expression tree h store with ⟨value, hvalue⟩
  rw [hvalue]
  trivial

theorem stopsShort_write {tree : Tree} (h : tree.Expression) (store : Store) :
    ((Tree.write tree).evaluate store).StopsShort := by
  rcases quiet_expression tree h store with ⟨value, hvalue⟩
  rw [evaluate_write hvalue]
  rcases toText_cases value with ⟨line, hline⟩ | herror
  · rw [writeLine_of_line hline]
    trivial
  · rw [writeLine_of_error herror]
    trivial

theorem stopsShort_question (name : String) (target : ValueType) (store : Store) :
    ((Tree.set name (.read name target) true).evaluate store).StopsShort := by
  cases hcontains : store.contains name with
  | true =>
      rw [evaluate_set, checkTarget_of_defined hcontains]
      trivial
  | false =>
      rw [evaluate_question hcontains]
      constructor
      · intro fault
        exact ⟨store, rfl⟩
      · intro line
        dsimp only
        split <;> trivial

theorem Statement.stopsShort {tree : Tree} (h : tree.Statement) (store : Store) :
    (tree.evaluate store).StopsShort := by
  cases h with
  | @assign name value declares hvalue =>
      rcases assign_step hvalue name declares store with
        ⟨_, _, _, _, hdone⟩ | ⟨_, _, _, hdone⟩
      · rw [hdone]
        trivial
      · rw [hdone]
        trivial
  | read _ => exact stopsShort_question _ _ store

theorem stopsShort_sequence {trees : List Tree} (h : ∀ tree ∈ trees, tree.Statement)
    (last : Value) (store : Store) : (evaluateSequence last trees store).StopsShort := by
  induction trees generalizing last store with
  | nil =>
      rw [evaluateSequence]
      trivial
  | cons tree rest ih =>
      rw [evaluateSequence_cons]
      apply (h tree List.mem_cons_self).stopsShort store |>.bind
      · intro fault store
        rfl
      · rintro ⟨value, store⟩
        dsimp only
        split
        · trivial
        · exact ih (fun tree htree => h tree (List.mem_cons_of_mem _ htree)) value store

theorem Shaped.stopsShort {role : Role} {tree : Tree} (h : Shaped role tree) (store : Store) :
    (tree.evaluate store).StopsShort := by
  cases h with
  | statements _ hstatements =>
      rw [evaluate]
      exact stopsShort_sequence hstatements .empty store
  | output hexpression => exact stopsShort_write hexpression store
  | decision hexpression => exact stopsShort_expression hexpression store

end Tree

theorem Program.stopsShort_of_get? {chart : Chart} {program : Program}
    (hbuild : Program.build chart = .ok program) {id : BlockId} {step : Step}
    (h : program.get? id = some step) (store : Store) :
    (step.tree.evaluate store).StopsShort := by
  rcases Program.block_of_get? hbuild h with ⟨b, _, _, _, hcompile, _⟩
  exact (Tree.shaped_of_ofSource hcompile).stopsShort store

end Blockwise
