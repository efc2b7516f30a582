import Blockwise.Proofs.Evaluation.Effects

/-!
# Where an evaluation stands

While a part of a tree is evaluated, each node around the part waits for its value.  The node is
then a frame: it holds what has been evaluated of it and what has not, and says what becomes of
the value.  An evaluation starts at the root, goes down into the first part of a node, and goes on
to the next part when one has its value.
-/

namespace Blockwise

open Evaluation

/-- A node that waits for the value of one of its parts. -/
inductive Frame where
  | unary (op : UnaryOp)
  | left (op : BinaryOp) (right : Tree)
  | right (op : BinaryOp) (left : Value)
  | cast (target : ValueType)
  | arg (f : Function) (earlier : List Value) (later : List Tree)
  | assigned (name : String) (declares : Bool)
  | item (later : List Tree)
  | line

namespace Frame

def invoke (f : Function) (earlier : List Value) : Except Value (List Value) → Evaluation Value
  | .error value => return value
  | .ok values => return f.invoke (earlier ++ values)

def resume : Frame → Value → Evaluation Value
  | unary op, value => return op.apply value
  | left .and tree, value =>
      match value.toBoolean with
      | .boolean true => do return (← tree.evaluate).toBoolean
      | other => return other
  | left .or tree, value =>
      match value.toBoolean with
      | .boolean false => do return (← tree.evaluate).toBoolean
      | other => return other
  | left op tree, value => do return op.apply value (← tree.evaluate)
  | right .and _, value => return value.toBoolean
  | right .or _, value => return value.toBoolean
  | right op first, value => return op.apply first value
  | cast target, value => return value.cast target
  | arg f earlier later, value =>
      if value.isError then return value
      else Tree.evaluateArgs later >>= invoke f (earlier ++ [value])
  | assigned name declares, value =>
      if value.isError then return value else assign name declares value
  | item later, value =>
      if value.isError then return value else Tree.evaluateSequence value later
  | line, value => writeLine value

def next? : Frame → Value → Option (Frame × Tree)
  | left .and tree, value =>
      if value.toBoolean = .boolean true then some (right .and value, tree) else none
  | left .or tree, value =>
      if value.toBoolean = .boolean false then some (right .or value, tree) else none
  | left op tree, value => some (right op value, tree)
  | arg f earlier (tree :: later), value =>
      if value.isError then none else some (arg f (earlier ++ [value]) later, tree)
  | item (tree :: later), value => if value.isError then none else some (item later, tree)
  | _, _ => none

/-- What becomes of a value that the nodes wait for, the innermost first. -/
def resumeAll : List Frame → Value → Evaluation Value
  | [], value => return value
  | frame :: frames, value => frame.resume value >>= resumeAll frames

end Frame

namespace Tree

def first? (store : Store) : Tree → Option (Frame × Tree)
  | unary op operand => some (.unary op, operand)
  | binary op left right => some (.left op right, left)
  | cast operand target => some (.cast target, operand)
  | call name (arg :: later) =>
      match Function.ofName? name with
      | none => none
      | some f =>
          match f.checkCount (arg :: later).length with
          | .error _ => none
          | .ok _ => some (.arg f [] later, arg)
  | set name value declares =>
      match checkTarget store name declares with
      | .error _ => none
      | .ok _ => some (.assigned name declares, value)
  | sequence (tree :: later) => some (.item later, tree)
  | write operand => some (.line, operand)
  | _ => none

/-- After the exchanges, the evaluation of the tree has come to the evaluation of a part in a
store, and these nodes wait for its value. -/
inductive Reaches (tree : Tree) (store : Store) :
    List Dialogue.Exchange → Tree → Store → List Frame → Prop where
  | root : Reaches tree store [] tree store []
  | down {exchanges : List Dialogue.Exchange} {node part : Tree} {store' : Store}
      {frames : List Frame} {frame : Frame} :
      Reaches tree store exchanges node store' frames →
      node.first? store' = some (frame, part) →
      Reaches tree store exchanges part store' (frame :: frames)
  | along {exchanges exchanges' : List Dialogue.Exchange} {part part' : Tree}
      {store' store'' : Store} {frames : List Frame} {frame frame' : Frame} {value : Value} :
      Reaches tree store exchanges part store' (frame :: frames) →
      (part.evaluate store').After exchanges' (.done (value, store'')) →
      frame.next? value = some (frame', part') →
      Reaches tree store (exchanges ++ exchanges') part' store'' (frame' :: frames)

variable {store store' : Store} {tree part : Tree} {frame : Frame} {frames : List Frame}
  {exchanges : List Dialogue.Exchange}

/-!
# The evaluation goes through its parts

When the evaluation has come to a part, what is left of it is that of the part, and what becomes of
the part's value.
-/

theorem evaluateArgs_cons (f : Function) (earlier : List Value) (arg : Tree) (later : List Tree) :
    evaluateArgs (arg :: later) >>= Frame.invoke f earlier =
      arg.evaluate >>= (Frame.arg f earlier later).resume := by
  rw [evaluateArgs, bind_assoc]
  congr 1
  funext value
  change _ = if value.isError then pure value
    else evaluateArgs later >>= Frame.invoke f (earlier ++ [value])
  split
  · rfl
  · rw [bind_assoc]
    refine bind_congr ?_
    intro values
    cases values with
    | error fault => rfl
    | ok values => simp [Frame.invoke]

theorem evaluateSequence_item (last : Value) (tree : Tree) (later : List Tree) :
    evaluateSequence last (tree :: later) = tree.evaluate >>= (Frame.item later).resume := by
  rw [evaluateSequence]
  rfl

theorem evaluate_call_of_checkCount {name : String} {f : Function} {args : List Tree}
    (hname : Function.ofName? name = some f) (hcount : f.checkCount args.length = .ok ()) :
    (call name args).evaluate = evaluateArgs args >>= Frame.invoke f [] := by
  rw [evaluate, hname]
  simp only [hcount]
  congr 1

theorem evaluate_set_of_checkTarget {name : String} {value : Tree} {declares : Bool}
    (h : checkTarget store name declares = .ok ()) :
    (set name value declares).evaluate store =
      (value.evaluate >>= (Frame.assigned name declares).resume) store := by
  rw [evaluate]
  change (match checkTarget store name declares with
    | .error cause => (pure (.ofCause cause) : Evaluation Value)
    | .ok _ => _) store = _
  rw [h]
  rfl

theorem evaluate_of_first? (h : tree.first? store = some (frame, part)) :
    tree.evaluate store = (part.evaluate >>= frame.resume) store := by
  cases tree with
  | unary op operand =>
      cases h
      rw [evaluate]
      rfl
  | binary op left right =>
      cases h
      cases op
      case and | or =>
        rw [evaluate]
        rfl
      all_goals
        simp only [evaluate]
        rfl
  | cast operand target =>
      cases h
      rw [evaluate]
      rfl
  | call name args =>
      cases args with
      | nil => cases h
      | cons arg later =>
          simp only [first?] at h
          split at h
          · cases h
          · next f hname =>
              split at h
              · cases h
              · next hcount =>
                  cases h
                  rw [evaluate_call_of_checkCount hname hcount, evaluateArgs_cons]
  | set name value declares =>
      simp only [first?] at h
      split at h
      · cases h
      · next hcheck =>
          cases h
          exact evaluate_set_of_checkTarget hcheck
  | sequence trees =>
      cases trees with
      | nil => cases h
      | cons item later =>
          cases h
          rw [evaluate, evaluateSequence_item]
  | write operand =>
      cases h
      rw [evaluate]
      rfl
  | literal _ | get _ | template _ | read _ _ => cases h

theorem resume_of_next? {frame' : Frame} {value : Value}
    (h : frame.next? value = some (frame', part)) :
    frame.resume value = part.evaluate >>= frame'.resume := by
  cases frame with
  | left op tree =>
      cases op
      case and | or =>
        simp only [Frame.next?] at h
        split at h
        · next hdecided =>
            cases h
            simp only [Frame.resume, hdecided]
            rfl
        · cases h
      all_goals
        cases h
        rfl
  | arg f earlier later =>
      cases later with
      | nil => cases h
      | cons tree later =>
          simp only [Frame.next?] at h
          split at h
          · cases h
          · next hvalue =>
              cases h
              rw [← evaluateArgs_cons]
              simp only [Frame.resume, hvalue]
              rfl
  | item later =>
      cases later with
      | nil => cases h
      | cons tree later =>
          simp only [Frame.next?] at h
          split at h
          · cases h
          · next hvalue =>
              cases h
              rw [← evaluateSequence_item value]
              simp only [Frame.resume, hvalue]
              rfl
  | unary _ | right _ _ | cast _ | assigned _ _ | line => cases h

theorem Reaches.after (h : tree.Reaches store exchanges part store' frames) :
    (tree.evaluate store).After exchanges ((part.evaluate >>= Frame.resumeAll frames) store') := by
  induction h with
  | root =>
      have hroot : tree.evaluate >>= Frame.resumeAll [] = tree.evaluate := bind_pure _
      rw [hroot]
      exact Dialogue.After.refl
  | @down _ node part store' frames frame _ hfirst ih =>
      have hnode : (node.evaluate >>= Frame.resumeAll frames) store' =
          ((part.evaluate >>= frame.resume) >>= Frame.resumeAll frames) store' := by
        change (node.evaluate store').bind _ = ((part.evaluate >>= frame.resume) store').bind _
        rw [evaluate_of_first? hfirst]
      rw [hnode, bind_assoc] at ih
      exact ih
  | @along _ _ part part' store' store'' frames frame frame' value _ hpart hnext ih =>
      have hresume : Frame.resumeAll (frame :: frames) value =
          part'.evaluate >>= Frame.resumeAll (frame' :: frames) := by
        change frame.resume value >>= _ = _
        rw [resume_of_next? hnext, bind_assoc]
        rfl
      rw [← hresume]
      exact ih.trans (hpart.bind fun r => Frame.resumeAll (frame :: frames) r.1 r.2)

/-!
# Nothing else is evaluated

A node without a part to evaluate has its value at once, unless it reads a line for it.  One whose
parts have their values is done, unless it writes the last of them as a line.
-/

end Tree

namespace Evaluation

theorem assign_ends (name : String) (declares : Bool) (value : Value) (store : Store) :
    ∃ result, assign name declares value store = .done result := by
  by_cases hready : store.contains name = !declares
  · exact ⟨_, assign_of_ready hready value⟩
  · have hstored : ∃ cause, (if declares then Store.declare store name value
        else Store.assign store name value) = .error cause := by
      cases declares <;> simp_all [Store.declare, Store.assign]
    rcases hstored with ⟨cause, hstored⟩
    refine ⟨(.ofCause cause, store), ?_⟩
    simp only [assign, bind, StateT.bind, get, getThe, MonadStateOf.get, StateT.get, pure,
      Dialogue.bind, hstored]
    rfl

end Evaluation

namespace Tree

variable {store : Store} {tree : Tree} {frame : Frame}

theorem evaluate_of_first?_eq_none (h : tree.first? store = none) :
    (∃ value, tree.Yields store value) ∨ ∃ name target, tree = read name target := by
  unfold Yields
  cases tree with
  | literal value =>
      rw [evaluate]
      exact Or.inl ⟨value, rfl⟩
  | get name =>
      rw [evaluate]
      exact Or.inl (quiet_lookup name store)
  | template segments =>
      rw [evaluate]
      exact Or.inl ⟨_, rfl⟩
  | call name args =>
      rw [evaluate]
      cases hname : Function.ofName? name with
      | none => exact Or.inl ⟨_, rfl⟩
      | some f =>
          dsimp only
          cases hcount : f.checkCount args.length with
          | error cause => exact Or.inl ⟨_, rfl⟩
          | ok u =>
              cases args with
              | nil =>
                  rw [evaluateArgs]
                  exact Or.inl ⟨_, rfl⟩
              | cons arg later =>
                  rw [first?, hname] at h
                  simp only [hcount] at h
                  cases h
  | set name value declares =>
      rw [evaluate_set]
      cases hcheck : checkTarget store name declares with
      | error cause => exact Or.inl ⟨_, rfl⟩
      | ok u =>
          rw [first?, hcheck] at h
          cases h
  | sequence trees =>
      cases trees with
      | nil =>
          rw [evaluate, evaluateSequence]
          exact Or.inl ⟨_, rfl⟩
      | cons item later => cases h
  | read name target => exact Or.inr ⟨name, target, rfl⟩
  | unary _ _ | binary _ _ _ | cast _ _ | write _ => cases h

theorem resume_of_next?_eq_none {value : Value} (h : frame.next? value = none) (store : Store) :
    (∃ result, frame.resume value store = .done result) ∨
      ∃ line, frame = .line ∧ value.toText = .string line := by
  have hpure : ∀ value' : Value, ∃ result,
      (pure value' : Evaluation Value) store = .done result := fun value' => ⟨_, rfl⟩
  cases frame with
  | left op tree =>
      left
      cases op
      case and | or =>
        simp only [Frame.next?] at h
        simp only [Frame.resume]
        split at h
        · cases h
        · next hopen =>
            generalize value.toBoolean = decided at hopen ⊢
            cases decided with
            | boolean b => cases b <;> first | exact absurd rfl hopen | exact hpure _
            | _ => exact hpure _
      all_goals cases h
  | right op first => cases op <;> exact Or.inl (hpure _)
  | arg f earlier later =>
      left
      simp only [Frame.resume]
      split
      · exact hpure _
      · next hvalue =>
          cases later with
          | nil =>
              rw [evaluateArgs]
              exact hpure _
          | cons tree later =>
              rw [Frame.next?, if_neg hvalue] at h
              cases h
  | assigned name declares =>
      left
      simp only [Frame.resume]
      split
      · exact hpure _
      · exact assign_ends name declares value store
  | item later =>
      left
      simp only [Frame.resume]
      split
      · exact hpure _
      · next hvalue =>
          cases later with
          | nil =>
              rw [evaluateSequence]
              exact hpure _
          | cons tree later =>
              rw [Frame.next?, if_neg hvalue] at h
              cases h
  | line =>
      rcases toText_cases value with ⟨line, hline⟩ | herror
      · exact Or.inr ⟨line, rfl, hline⟩
      · exact Or.inl ⟨_, writeLine_of_error herror⟩
  | unary op | cast target => exact Or.inl (hpure _)

end Tree
end Blockwise
