import Blockwise.Proofs.Evaluation.Closure
import Blockwise.Proofs.Trial

/-!
# Tables of functions

A function is looked up by its name.  It says how many arguments it takes, and its body looks for
them by their places, without asking once more how many there are.  What is said and what is
looked for are written down apart, and nothing but the table makes them fit.
-/

namespace Blockwise

structure Builtin where
  function : Function
  arity : Arity
  body : List Float → Except Crash (Except Cause Float)

namespace Arity

def check (f : Function) (arity : Arity) (received : Nat) : Except Cause Unit :=
  match arity with
  | exactly count => if received = count then .ok () else .error (.wrongCount f count received)
  | atLeast least => if least ≤ received then .ok () else .error (.tooFew f least received)
  | between least most =>
      if received < least then .error (.tooFew f least received)
      else if most < received then .error (.tooMany f most received)
      else .ok ()

theorem admits_of_check {f : Function} {arity : Arity} {received : Nat} {u : Unit}
    (h : arity.check f received = .ok u) : arity.admits received = true := by
  unfold check at h
  unfold admits
  split at h <;> grind

end Arity

namespace Builtin

/-- The same function with a body that crashes on a number of arguments that is not admitted. -/
def guarded (b : Builtin) : Builtin where
  function := b.function
  arity := b.arity
  body := fun xs => if b.arity.admits xs.length then b.body xs else .error .unreachable

@[simp] theorem function_guarded (b : Builtin) : b.guarded.function = b.function := rfl

@[simp] theorem arity_guarded (b : Builtin) : b.guarded.arity = b.arity := rfl

/-- The body does not crash on a number of arguments that is admitted. -/
def Sound (b : Builtin) : Prop :=
  ∀ xs, b.arity.admits xs.length = true → ∃ result, b.body xs = .ok result

def invoke (b : Builtin) (args : List Value) : Except Crash Value :=
  match b.function.numbers 1 args with
  | .error v => .ok v
  | .ok xs => (b.body xs).map BinaryOp.ofResult

def find? (table : List Builtin) (name : String) : Option Builtin :=
  table.find? fun b => b.function.name = name

variable {b : Builtin} {args : List Value} {count : Nat} {u : Unit}

theorem admits_of_numbers (hcheck : b.arity.check b.function count = .ok u)
    (hcount : args.length = count) {xs : List Float}
    (hnumbers : b.function.numbers 1 args = .ok xs) : b.arity.admits xs.length = true := by
  rw [Function.length_numbers hnumbers, hcount]
  exact Arity.admits_of_check hcheck

/-- A body is only run on as many numbers as are admitted. -/
theorem invoke_guarded (hcheck : b.arity.check b.function count = .ok u)
    (hcount : args.length = count) : b.guarded.invoke args = b.invoke args := by
  unfold invoke
  cases hnumbers : b.function.numbers 1 args with
  | error v => simp [guarded, hnumbers]
  | ok xs => simp [guarded, hnumbers, admits_of_numbers hcheck hcount hnumbers]

theorem Sound.invoke (h : b.Sound) (hcheck : b.arity.check b.function count = .ok u)
    (hcount : args.length = count) : ∃ value, b.invoke args = .ok value := by
  unfold Builtin.invoke
  split
  · exact ⟨_, rfl⟩
  · next xs hnumbers =>
      rcases h xs (admits_of_numbers hcheck hcount hnumbers) with ⟨result, hresult⟩
      rw [hresult]
      exact ⟨_, rfl⟩

theorem find?_guarded (table : List Builtin) (name : String) :
    find? (table.map guarded) name = (find? table name).map guarded := by
  rw [find?, List.find?_map]
  rfl

/-!
# The functions of the language

A body finds its numbers by their places.  What the table says of the number of arguments is what
the bodies are made for.
-/

def number (xs : List Float) (index : Nat) : Except Crash Float :=
  match xs[index]? with
  | some x => .ok x
  | none => .error (.outOfRange index xs.length)

def onFirst (f : Float → Except Cause Float) (xs : List Float) :
    Except Crash (Except Cause Float) := do
  let x ← number xs 0
  return f x

def onFirstTwo (f : Float → Float → Except Cause Float) (xs : List Float) :
    Except Crash (Except Cause Float) := do
  let x ← number xs 0
  let y ← number xs 1
  return f x y

def onFirstAndMore (f : Float → Option Float → Except Cause Float) (xs : List Float) :
    Except Crash (Except Cause Float) := do
  let x ← number xs 0
  return f x xs[1]?

def onAll (f : List Float → Float) (xs : List Float) : Except Crash (Except Cause Float) :=
  .ok (.ok (f xs))

def ofFunction : Function → Builtin
  | .mod => ⟨.mod, .exactly 2, onFirstTwo Arithmetic.floorMod⟩
  | .sin => ⟨.sin, .exactly 1, onFirst fun x => .ok x.sin⟩
  | .cos => ⟨.cos, .exactly 1, onFirst fun x => .ok x.cos⟩
  | .tan => ⟨.tan, .exactly 1, onFirst fun x => .ok x.tan⟩
  | .arcsin => ⟨.arcsin, .exactly 1, onFirst (Function.arcBody .arcsin Float.asin)⟩
  | .arccos => ⟨.arccos, .exactly 1, onFirst (Function.arcBody .arccos Float.acos)⟩
  | .arctan => ⟨.arctan, .exactly 1, onFirst fun x => .ok x.atan⟩
  | .floor => ⟨.floor, .exactly 1, onFirst fun x => .ok x.floor⟩
  | .ceil => ⟨.ceil, .exactly 1, onFirst fun x => .ok x.ceil⟩
  | .round => ⟨.round, .between 1 2, onFirstAndMore Function.roundBody⟩
  | .log => ⟨.log, .between 1 2, onFirstAndMore Function.logBody⟩
  | .sign => ⟨.sign, .exactly 1, onFirst fun x => .ok (Function.signBody x)⟩
  | .sqrt => ⟨.sqrt, .exactly 1, onFirst Function.sqrtBody⟩
  | .root => ⟨.root, .exactly 2, onFirstTwo Function.rootBody⟩
  | .max =>
      ⟨.max, .atLeast 1, onAll fun xs => xs.foldl Function.larger Function.negativeInfinity⟩
  | .min =>
      ⟨.min, .atLeast 1, onAll fun xs => xs.foldl Function.smaller Function.positiveInfinity⟩
  | .abs => ⟨.abs, .exactly 1, onFirst fun x => .ok x.abs⟩

def standard : List Builtin :=
  Function.all.map ofFunction

/-- The bodies agree on the argument counts that the second one admits, and there is no crash. -/
def Fits (body : List Float → Except Crash (Except Cause Float)) (b : Function.Body) : Prop :=
  ∀ xs, b.arity.admits xs.length = true →
    ∃ result, body xs = .ok result ∧ b.run? xs = some result

theorem fits_onFirst (f : Float → Except Cause Float) : Fits (onFirst f) (.one f) := by
  intro xs hxs
  match xs, hxs with
  | [x], _ => exact ⟨f x, rfl, rfl⟩

theorem fits_onFirstTwo (f : Float → Float → Except Cause Float) :
    Fits (onFirstTwo f) (.two f) := by
  intro xs hxs
  match xs, hxs with
  | [x, y], _ => exact ⟨f x y, rfl, rfl⟩

theorem fits_onFirstAndMore (f : Float → Option Float → Except Cause Float) :
    Fits (onFirstAndMore f) (.oneOrTwo f) := by
  intro xs hxs
  match xs, hxs with
  | [x], _ => exact ⟨f x none, rfl, rfl⟩
  | [x, y], _ => exact ⟨f x (some y), rfl, rfl⟩

theorem fits_onAll (f : List Float → Float) :
    Fits (onAll f) (.oneOrMore fun x rest => .ok (f (x :: rest))) := by
  intro xs hxs
  match xs, hxs with
  | x :: rest, _ => exact ⟨.ok (f (x :: rest)), rfl, rfl⟩

theorem fits_ofFunction (f : Function) : Fits (ofFunction f).body f.body := by
  cases f with
  | mod => exact fits_onFirstTwo _
  | root => exact fits_onFirstTwo _
  | round => exact fits_onFirstAndMore _
  | log => exact fits_onFirstAndMore _
  | max => exact fits_onAll _
  | min => exact fits_onAll _
  | _ => exact fits_onFirst _

theorem arity_ofFunction (f : Function) : (ofFunction f).arity = f.body.arity := by
  cases f <;> rfl

theorem function_ofFunction (f : Function) : (ofFunction f).function = f := by
  cases f <;> rfl

theorem sound_standard : ∀ b ∈ standard, b.Sound := by
  intro b hb xs hxs
  rcases List.mem_map.mp hb with ⟨f, _, rfl⟩
  rw [arity_ofFunction] at hxs
  rcases fits_ofFunction f xs hxs with ⟨result, hresult, _⟩
  exact ⟨result, hresult⟩

/-!
# The table against the functions

With the arguments that are admitted, the entry of a function does what the function does.
-/

theorem find?_standard (name : String) :
    find? standard name = (Function.ofName? name).map ofFunction := by
  rw [find?, standard, List.find?_map, Function.ofName?]
  have hname : (fun b : Builtin => decide (b.function.name = name)) ∘ ofFunction =
      fun f => decide (f.name = name) := by
    funext f
    rw [Function.comp_apply, function_ofFunction]
  rw [hname]

theorem check_ofFunction (f : Function) (count : Nat) :
    (ofFunction f).arity.check (ofFunction f).function count = f.checkCount count := by
  rw [arity_ofFunction, function_ofFunction]
  rfl

theorem invoke_ofFunction {f : Function} (hcheck : f.checkCount count = .ok u)
    (hcount : args.length = count) : (ofFunction f).invoke args = .ok (f.invoke args) := by
  rw [← check_ofFunction] at hcheck
  unfold invoke Function.invoke
  rw [function_ofFunction]
  cases hnumbers : f.numbers 1 args with
  | error v => rfl
  | ok xs =>
      have hadmits : (ofFunction f).arity.admits xs.length = true := by
        apply admits_of_numbers hcheck hcount
        rw [function_ofFunction, hnumbers]
      rw [arity_ofFunction] at hadmits
      rcases fits_ofFunction f xs hadmits with ⟨result, hbody, hrun⟩
      dsimp only
      rw [hbody, hrun]
      rfl

end Builtin
end Blockwise
