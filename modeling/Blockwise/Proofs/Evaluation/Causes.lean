import Blockwise.Evaluation

/-!
# What operations fail with

Two causes have a place of their own: a cast that cannot be made needs a value that is empty or a
type that no source can name, and an interruption needs a read that is called off.  Every other
operation on values, variables and arguments fails with one of the remaining causes.
-/

namespace Blockwise

/-- The cause is neither a cast that cannot be made nor an interruption. -/
def Cause.isPlain : Cause → Bool
  | badCast _ _ | interrupted => false
  | _ => true

def Plain {α : Type} : Except Cause α → Prop
  | .error cause => cause.isPlain = true
  | .ok _ => True

theorem Plain.cause {α : Type} {result : Except Cause α} {cause : Cause} (h : Plain result)
    (hresult : result = .error cause) : cause.isPlain = true := by
  subst hresult
  exact h

namespace Arithmetic

theorem plain_divide (a b : Float) : Plain (divide a b) := by
  unfold divide
  split
  · rfl
  · trivial

theorem plain_floorMod (a b : Float) : Plain (floorMod a b) := by
  unfold floorMod
  split
  · rfl
  · trivial

theorem plain_power (a b : Float) : Plain (power a b) := by
  unfold power
  split
  · rfl
  · dsimp only
    split
    · rfl
    · trivial

end Arithmetic

/-!
# Functions

A body fails with a plain cause, if it does, and so does the check of how many arguments there are.
-/

namespace Function

def Body.Plain : Body → Prop
  | one f => ∀ x, Blockwise.Plain (f x)
  | two f => ∀ x y, Blockwise.Plain (f x y)
  | oneOrTwo f => ∀ x y, Blockwise.Plain (f x y)
  | oneOrMore f => ∀ x rest, Blockwise.Plain (f x rest)

theorem Body.Plain.run? {b : Body} (h : b.Plain) {xs : List Float} {result : Except Cause Float}
    (hrun : b.run? xs = some result) : Blockwise.Plain result := by
  unfold Body.run? at hrun
  split at hrun
  all_goals
    first
      | cases hrun; exact h _
      | cases hrun; exact h _ _
      | cases hrun

theorem plain_arcBody (self : Function) (f : Float → Float) (x : Float) :
    Blockwise.Plain (arcBody self f x) := by
  unfold arcBody
  split
  · trivial
  · rfl

theorem plain_roundBody (x : Float) (places : Option Float) :
    Blockwise.Plain (roundBody x places) := by
  unfold roundBody
  split
  · trivial
  · split
    · trivial
    · rfl

theorem plain_logBody (x : Float) (base : Option Float) : Blockwise.Plain (logBody x base) := by
  unfold logBody
  split
  · rfl
  · split
    · trivial
    · split
      · rfl
      · trivial

theorem plain_sqrtBody (x : Float) : Blockwise.Plain (sqrtBody x) := by
  unfold sqrtBody
  split
  · rfl
  · trivial

theorem plain_rootBody (x n : Float) : Blockwise.Plain (rootBody x n) := by
  unfold rootBody
  split
  · rfl
  · split
    · trivial
    · split
      · trivial
      · rfl

theorem plain_body (f : Function) : f.body.Plain := by
  cases f with
  | mod => exact Arithmetic.plain_floorMod
  | arcsin => exact plain_arcBody .arcsin Float.asin
  | arccos => exact plain_arcBody .arccos Float.acos
  | round => exact plain_roundBody
  | log => exact plain_logBody
  | sqrt => exact plain_sqrtBody
  | root => exact plain_rootBody
  | max | min => exact fun _ _ => trivial
  | _ => exact fun _ => trivial

theorem plain_checkCount (f : Function) (received : Nat) :
    Blockwise.Plain (f.checkCount received) := by
  unfold checkCount
  split
  · split
    · trivial
    · rfl
  · split
    · trivial
    · rfl
  · split
    · rfl
    · split
      · rfl
      · trivial

end Function

/-!
# Variables

Declaring and assigning differ in what they ask of the name, not in what they store.
-/

theorem Store.plain_fetch (store : Store) (name : String) : Plain (store.fetch name) := by
  unfold fetch
  split
  · trivial
  · rfl

namespace Evaluation

theorem plain_checkTarget (store : Store) (name : String) (declares : Bool) :
    Plain (checkTarget store name declares) := by
  unfold checkTarget
  split
  · rfl
  · split
    · rfl
    · trivial

theorem stored_cases (store : Store) (name : String) (declares : Bool) (value : Value) :
    (if declares then store.declare name value else store.assign name value) =
        .ok (Dictionary.insert store name value) ∨
      ∃ cause, (if declares then store.declare name value else store.assign name value) =
        .error cause ∧ cause.isPlain = true := by
  cases declares <;> by_cases hcontains : Dictionary.contains store name <;>
    simp [Store.declare, Store.assign, hcontains, Cause.isPlain]

end Evaluation
end Blockwise
