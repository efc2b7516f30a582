import Blockwise.Proofs.Evaluation.Frames

/-!
# The first error ends an evaluation

A node that waits for the value of a part and gets an error hands it on at once.  Two kinds of
nodes do not: an operator other than `and` and `or` evaluates its right side also after an error
on its left, and a cast to a type that no value can be cast to has an error of its own.
-/

namespace Blockwise
namespace Frame

variable {store : Store} {frame : Frame} {frames : List Frame}

/-- There is nothing between an error and the end of the node: what is left to evaluate on the
right does nothing but compute, there is no earlier error on the left, and the cast is to a type
that there are casts to. -/
def HandsOn (store : Store) : Frame → Prop
  | left .and _ | left .or _ | right .and _ | right .or _ => True
  | left _ tree => ∃ value, tree.Yields store value
  | right _ first => first.isError = false
  | cast target => target.isNamed = true
  | _ => True

theorem apply_error_right (op : BinaryOp) {first : Value} (h : first.isError = false)
    (fault : Fault) : op.apply first (.error fault) = .error fault := by
  cases first with
  | error _ => cases h
  | _ => rfl

theorem resume_error (h : frame.HandsOn store) (fault : Fault) :
    frame.resume (.error fault) store = .done (.error fault, store) := by
  cases frame with
  | left op tree =>
      cases op
      case and | or => rfl
      all_goals
        rcases h with ⟨second, hsecond⟩
        change (tree.evaluate store).bind _ = _
        rw [hsecond]
        change Dialogue.done (BinaryOp.apply _ (.error fault) second, store) = _
        rw [BinaryOp.apply_error_left]
  | right op first =>
      cases op
      case and | or => rfl
      all_goals
        simp only [resume, apply_error_right _ h]
        rfl
  | cast target => cases target <;> first | rfl | cases h
  | unary op => cases op <;> rfl
  | arg _ _ _ | assigned _ _ | item _ | line => rfl

theorem exists_yields_of_bind {tree : Tree} {f : Value → Value} {result : Value}
    (h : ((tree.evaluate store).bind fun r => .done (f r.1, r.2)) = .done (result, store)) :
    ∃ value, tree.Yields store value := by
  unfold Tree.Yields
  cases htree : tree.evaluate store with
  | done r =>
      rcases r with ⟨value, after⟩
      rw [htree] at h
      cases h
      exact ⟨value, rfl⟩
  | write line next =>
      rw [htree] at h
      cases h
  | read prompt next =>
      rw [htree] at h
      cases h

theorem handsOn_iff :
    frame.HandsOn store ↔
      ∀ fault, frame.resume (.error fault) store = .done (.error fault, store) := by
  refine ⟨fun h => resume_error h, ?_⟩
  intro h
  cases frame with
  | left op tree =>
      cases op
      case and | or => trivial
      all_goals exact exists_yields_of_bind (h Cause.interrupted.fault)
  | right op first =>
      cases op
      case and | or => trivial
      all_goals
        cases first with
        | error earlier =>
            -- whichever of two faults comes, it is the earlier one that is handed on
            have hsame : ∀ fault, earlier = fault := by
              intro fault
              cases h fault
              rfl
            cases (hsame Cause.interrupted.fault).symm.trans (hsame Cause.notReal.fault)
        | _ => rfl
  | cast target =>
      cases target
      case empty | error => cases h Cause.interrupted.fault
      all_goals rfl
  | _ => trivial

theorem resumeAll_error (h : ∀ frame ∈ frames, frame.HandsOn store) (fault : Fault) :
    resumeAll frames (.error fault) store = .done (.error fault, store) := by
  induction frames with
  | nil => rfl
  | cons frame frames ih =>
      change (frame.resume (.error fault) store).bind _ = _
      rw [resume_error (h frame List.mem_cons_self)]
      exact ih fun other hother => h other (List.mem_cons_of_mem _ hother)

end Frame

namespace Tree

open Dialogue (Exchange)

/-- An error of a part that the evaluation has come to is the last that happens, and it is the
value of the whole tree, as long as the nodes around the part hand it on.  These are all nodes
but those that have something in the way of an error. -/
theorem first_error_ends {tree part : Tree} {store store' store'' : Store} {frames : List Frame}
    {before since : List Exchange} {fault : Fault}
    (hreaches : tree.Reaches store before part store' frames)
    (hpart : (part.evaluate store').After since (.done (.error fault, store''))) :
    ((∀ frame ∈ frames, frame.HandsOn store'') →
      (tree.evaluate store).After (before ++ since) (.done (.error fault, store''))) ∧
    ∀ frame : Frame, frame.HandsOn store'' ↔
      ∀ other, frame.resume (.error other) store'' = .done (.error other, store'') := by
  refine ⟨?_, fun frame => Frame.handsOn_iff⟩
  intro hframes
  have hends := hpart.bind fun r => Frame.resumeAll frames r.1 r.2
  change Dialogue.After _ since (Frame.resumeAll frames (.error fault) store'') at hends
  rw [Frame.resumeAll_error hframes] at hends
  exact hreaches.after.trans hends

def declaredSum : Tree :=
  .sequence
    [.set "n" (.binary .add (.literal (.number 1)) (.read "m" .number)) true,
      .write (.literal (.string "never"))]

theorem first_error_ends_declaredSum :
    let frames : List Frame :=
      [.right .add (.number 1), .assigned "n" true, .item [.write (.literal (.string "never"))]]
    let since : List Exchange := [.asked "m (Number)" (.ok "one")]
    declaredSum.Reaches ∅ [] (.read "m" .number) ∅ frames ∧
      ((Tree.read "m" .number).evaluate ∅).After since (.done (.ofCause (.badNumber "one"), ∅)) ∧
      (∀ frame ∈ frames, frame.HandsOn ∅) ∧
      (declaredSum.evaluate ∅).After since (.done (.ofCause (.badNumber "one"), ∅)) := by
  intro frames since
  have hreaches : declaredSum.Reaches ∅ [] (.read "m" .number) ∅ frames := by
    have hleft : (Tree.evaluate (.literal (.number 1)) ∅).After [] (.done (.number 1, ∅)) := by
      rw [evaluate]
      exact Dialogue.After.refl
    exact (((Reaches.root.down rfl).down rfl).down rfl).along hleft rfl
  have hpart : ((Tree.read "m" .number).evaluate ∅).After since
      (.done (.ofCause (.badNumber "one"), ∅)) := by
    have hline : Evaluation.ofLine .number "one" = .ofCause (.badNumber "one") := rfl
    rw [evaluate, ← hline]
    exact Dialogue.After.asked Dialogue.After.refl
  have hframes : ∀ frame ∈ frames, frame.HandsOn ∅ := by
    intro frame hframe
    simp only [frames, List.mem_cons, List.not_mem_nil, or_false] at hframe
    rcases hframe with rfl | rfl | rfl
    · rfl
    · trivial
    · trivial
  exact ⟨hreaches, hpart, hframes,
    (first_error_ends hreaches hpart).1 hframes⟩

def lateWrite : Tree :=
  .binary .add (.get "x") (.write (.literal (.string "late")))

def lostCast : Tree :=
  .cast (.get "x") .empty

/-- An error on the left of an operator is not the last that happens, and a cast can put another
error in the place of the first. -/
theorem first_error_goes_on :
    let missing : Value := .ofCause (.notDefined "x")
    (Tree.get "x").evaluate ∅ = .done (missing, ∅) ∧
    (lateWrite.Reaches ∅ [] (.get "x") ∅ [.left .add (.write (.literal (.string "late")))] ∧
      lateWrite.evaluate ∅ = .write "late" (.done (missing, ∅)) ∧
      ¬(lateWrite.evaluate ∅).After [] (.done (missing, ∅))) ∧
    lostCast.Reaches ∅ [] (.get "x") ∅ [.cast .empty] ∧
      lostCast.evaluate ∅ = .done (.invalidCast .error .empty, ∅) ∧
      ¬(lostCast.evaluate ∅).After [] (.done (missing, ∅)) := by
  intro missing
  have hget : (Tree.get "x").evaluate ∅ = .done (missing, ∅) := by
    rw [evaluate]
    rfl
  have hwrite : lateWrite.evaluate ∅ = .write "late" (.done (missing, ∅)) := by
    simp only [lateWrite, evaluate]
    rfl
  have hcast : lostCast.evaluate ∅ = .done (.invalidCast .error .empty, ∅) := by
    rw [lostCast, evaluate, evaluate]
    rfl
  refine ⟨hget, ⟨Reaches.root.down rfl, hwrite, ?_⟩, Reaches.root.down rfl, hcast, ?_⟩
  · rw [hwrite]
    intro h
    cases h
  · have hdiffer : missing ≠ .invalidCast .error .empty := by decide
    rw [hcast]
    clear_value missing
    intro h
    cases h
    exact hdiffer rfl

end Tree
end Blockwise
