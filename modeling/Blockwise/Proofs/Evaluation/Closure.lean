import Blockwise.Proofs.Evaluation
import Blockwise.Proofs.Evaluation.Causes
import Blockwise.Proofs.Grammar.Shapes

/-!
# Properties of values that evaluations keep

What an evaluation computes with comes from few places: from the literals of its tree, from the
variables, from the answers to its reads, and from operations that fail.  A property of values
that holds in each of these places holds of everything a compiled tree evaluates to, and of the
store it leaves behind.  Which operations there are matters here only, and not for each property
anew.
-/

namespace Blockwise
namespace Value

/-- The property holds of what can be written down, and of what operations fail with.  A failure
to cast belongs to the latter only if the property holds of the empty value. -/
structure Closed (V : Value → Prop) : Prop where
  written : ∀ v : Value, v.Written → V v
  failure : ∀ cause : Cause, cause.isPlain = true → V (ofCause cause)
  uncastable : V empty → ∀ source target, V (invalidCast source target)

namespace Closed

variable {V : Value → Prop} (hV : Closed V) {v : Value}

include hV

theorem number (x : Float) : V (.number x) :=
  hV.written _ (.number x)

theorem string (s : String) : V (.string s) :=
  hV.written _ (.string s)

theorem boolean (b : Bool) : V (.boolean b) :=
  hV.written _ (.boolean b)

/-!
# Casts

A value is cast to a number, a string or a Boolean, or the cast fails.
-/

theorem toBoolean (h : V v) : V v.toBoolean := by
  cases v with
  | error fault => exact h
  | empty => exact hV.uncastable h _ _
  | number x | string s | boolean b => exact hV.boolean _

theorem toText (h : V v) : V v.toText := by
  cases v with
  | error fault => exact h
  | empty => exact hV.uncastable h _ _
  | number x | string s | boolean b => exact hV.string _

theorem toNumber (h : V v) : V v.toNumber := by
  cases v with
  | error fault => exact h
  | empty => exact hV.uncastable h _ _
  | number x | boolean b => exact hV.number _
  | string s =>
      rw [Value.toNumber]
      split
      · exact hV.number _
      · exact hV.failure _ rfl

theorem cast (h : V v) {target : ValueType} (htarget : target.isNamed = true) :
    V (v.cast target) := by
  cases target with
  | boolean => exact hV.toBoolean h
  | string => exact hV.toText h
  | number => exact hV.toNumber h
  | empty | error => cases htarget

/-!
# Operators

What an operator makes of values is a number, a string or a Boolean again, or it fails.
-/

theorem unary (op : UnaryOp) (h : V v) : V (op.apply v) := by
  cases op with
  | negate | affirm =>
      cases v with
      | number x => exact hV.number _
      | error fault => exact h
      | empty | string s | boolean b => exact hV.failure _ rfl
  | not =>
      have hboolean := hV.toBoolean h
      rw [UnaryOp.apply, Value.not]
      split
      · exact hV.boolean _
      · exact hboolean

theorem ofResult {result : Except Cause Float} (h : Plain result) :
    V (BinaryOp.ofResult result) := by
  cases result with
  | ok x => exact hV.number x
  | error cause => exact hV.failure cause h

theorem undefined (op : BinaryOp) (left right : Value) : V (op.undefined left right) :=
  hV.failure _ rfl

theorem onNumbers (op : BinaryOp) (a b : Float) : V (op.onNumbers a b) := by
  cases op with
  | add | sub | mul => exact hV.number _
  | div => exact hV.ofResult (Arithmetic.plain_divide a b)
  | mod => exact hV.ofResult (Arithmetic.plain_floorMod a b)
  | pow => exact hV.ofResult (Arithmetic.plain_power a b)
  | and | or => exact hV.undefined _ _ _
  | eq | ne | gt | lt | ge | le => exact hV.boolean _

theorem onStrings (op : BinaryOp) (a b : String) : V (op.onStrings a b) := by
  cases op with
  | add => exact hV.string _
  | sub | mul | div | mod | pow | and | or => exact hV.undefined _ _ _
  | eq | ne | gt | lt | ge | le => exact hV.boolean _

theorem onBooleans (op : BinaryOp) (a b : Bool) : V (op.onBooleans a b) := by
  cases op with
  | eq | ne => exact hV.boolean _
  | _ => exact hV.undefined _ _ _

theorem onMixed (op : BinaryOp) (left right : Value) : V (op.onMixed left right) := by
  unfold BinaryOp.onMixed
  split
  · exact hV.boolean _
  · exact hV.boolean _
  · exact hV.string _
  · exact hV.string _
  · exact hV.undefined _ _ _

theorem binary (op : BinaryOp) {left right : Value} (hleft : V left) (hright : V right) :
    V (op.apply left right) := by
  unfold BinaryOp.apply
  split
  · exact hleft
  · exact hright
  · exact hV.undefined _ _ _
  · exact hV.undefined _ _ _
  · exact hV.onNumbers op _ _
  · exact hV.onStrings op _ _
  · exact hV.onBooleans op _ _
  · exact hV.onMixed op _ _

end Closed
end Value

/-!
# Functions

A function that is given as many arguments as it takes has a value or fails.
-/

namespace Function

theorem admits_of_checkCount {f : Function} {received : Nat} {u : Unit}
    (h : f.checkCount received = .ok u) : f.body.arity.admits received = true := by
  unfold checkCount at h
  cases harity : f.body.arity with
  | exactly count =>
      rw [harity] at h
      dsimp only at h
      split at h
      · next hcount => simp [Arity.admits, hcount]
      · cases h
  | atLeast least =>
      rw [harity] at h
      dsimp only at h
      split at h
      · next hleast => simp [Arity.admits, hleast]
      · cases h
  | between least most =>
      rw [harity] at h
      dsimp only at h
      split at h
      · cases h
      · split at h
        · cases h
        · simp only [Arity.admits, Bool.and_eq_true, decide_eq_true_eq]
          omega

theorem length_numbers {f : Function} {index : Nat} {args : List Value} {xs : List Float}
    (h : f.numbers index args = .ok xs) : xs.length = args.length := by
  induction args generalizing index xs with
  | nil =>
      cases h
      rfl
  | cons arg rest ih =>
      cases arg with
      | number x =>
          rw [numbers] at h
          cases hrest : f.numbers (index + 1) rest with
          | error v =>
              rw [hrest] at h
              cases h
          | ok ys =>
              rw [hrest] at h
              cases h
              simp [ih hrest]
      | empty | string s | boolean b | error fault => cases h

end Function

namespace Value.Closed

variable {V : Value → Prop} (hV : Closed V) {args : List Value}

include hV

theorem numbers (f : Function) {index : Nat} {v : Value} (hargs : ∀ arg ∈ args, V arg)
    (h : f.numbers index args = .error v) : V v := by
  induction args generalizing index with
  | nil => cases h
  | cons arg rest ih =>
      have harg : V arg := hargs arg List.mem_cons_self
      cases arg with
      | number x =>
          rw [Function.numbers] at h
          cases hrest : f.numbers (index + 1) rest with
          | ok xs =>
              rw [hrest] at h
              cases h
          | error w =>
              rw [hrest] at h
              cases h
              exact ih (fun a ha => hargs a (List.mem_cons_of_mem _ ha)) hrest
      | error fault =>
          cases h
          exact harg
      | empty | string s | boolean b =>
          cases h
          exact hV.failure _ rfl

theorem invoke (f : Function) {u : Unit} (hcount : f.checkCount args.length = .ok u)
    (hargs : ∀ arg ∈ args, V arg) : V (f.invoke args) := by
  unfold Function.invoke
  split
  · next v hnumbers => exact hV.numbers f hargs hnumbers
  · next xs hnumbers =>
      have hsome : (f.body.run? xs).isSome = true := by
        rw [Function.Body.isSome_run?, Function.length_numbers hnumbers]
        exact Function.admits_of_checkCount hcount
      split
      · next result hrun => exact hV.ofResult ((Function.plain_body f).run? hrun)
      · next hnone =>
          rw [hnone] at hsome
          cases hsome

end Value.Closed

/-!
# Stores

The property holds of every variable, and goes on to do so when one is given a value that has it.
-/

def Store.All (S : Value → Prop) (store : Store) : Prop :=
  ∀ name value, store.get? name = some value → S value

namespace Store

variable {S : Value → Prop} {store : Store}

theorem all_empty : Store.All S ∅ := by
  intro name value h
  cases h

theorem All.insert (h : store.All S) (name : String) {value : Value} (hvalue : S value) :
    Store.All S (Dictionary.insert store name value) := by
  intro other found hfound
  rw [Dictionary.get?_insert] at hfound
  split at hfound
  · cases hfound
    exact hvalue
  · exact h other found hfound

theorem All.fetch (h : store.All S) {name : String} {value : Value}
    (hfetch : store.fetch name = .ok value) : S value := by
  unfold Store.fetch at hfetch
  split at hfetch
  · next found hget =>
      cases hfetch
      exact h name value hget
  · cases hfetch

end Store

/-!
# Evaluations

Expressions, variables and statements may each have a property of their own.  A read gives its line
to a variable.
-/

namespace Evaluation

/-- What holds of the values of expressions, `V`, what holds of variables, `S`, and what holds of
the values that statements end with, `R`, as long as reads are answered as `Answer` says. -/
structure Kinds (Answer : Except Fault String → Prop) (V S R : Value → Prop) : Prop
    extends Value.Closed V where
  answer : ∀ fault, Answer (.error fault) → V (.error fault)
  fetched : ∀ v, S v → V v
  stored : ∀ v, V v → v.isError = false → S v
  result : ∀ v, V v → R v
  done : R .empty

namespace Kinds

variable {Answer : Except Fault String → Prop} {V S R : Value → Prop}
  (hkinds : Kinds Answer V S R)

include hkinds

theorem lookup (name : String) : Keeps Answer (Store.All S) V (lookup name) := by
  unfold Evaluation.lookup
  apply keeps_get.bind
  intro store hstore
  split
  · next value hfetch => exact keeps_pure (hkinds.fetched value (hstore.fetch hfetch))
  · next cause hfetch =>
      exact keeps_pure (hkinds.failure cause ((Store.plain_fetch store name).cause hfetch))

theorem fillTemplate {store : Store} (hstore : store.All S) (filled : String)
    (segments : List Segment) : V (fillTemplate store filled segments) := by
  fun_induction Evaluation.fillTemplate store filled segments with
  | case1 filled => exact hkinds.string filled
  | case2 filled s rest ih => exact ih
  | case3 filled name rest cause hfetch =>
      exact hkinds.failure cause ((store.plain_fetch name).cause hfetch)
  | case4 filled name rest value hfetch s htext ih => exact ih
  | case5 filled name rest value hfetch htext =>
      exact hkinds.toText (hkinds.fetched value (hstore.fetch hfetch))

theorem ofLine {target : ValueType} (htarget : target.isNamed = true) (line : String) :
    V (ofLine target line) := by
  unfold Evaluation.ofLine
  split
  · split
    · exact hkinds.boolean true
    · split
      · exact hkinds.boolean false
      · exact hkinds.failure _ rfl
  · exact hkinds.cast (hkinds.string line) htarget

theorem readLine (name : String) {target : ValueType} (htarget : target.isNamed = true) :
    Keeps Answer (Store.All S) V (readLine name target) := by
  unfold Evaluation.readLine
  apply (keeps_ask _).bind
  intro answer hanswer
  cases answer with
  | ok line => exact keeps_pure (hkinds.ofLine htarget line)
  | error fault => exact keeps_pure (hkinds.answer fault hanswer)

theorem assign (name : String) (declares : Bool) {value : Value} (hvalue : S value) :
    Keeps Answer (Store.All S) R (assign name declares value) := by
  unfold Evaluation.assign
  apply keeps_get.bind
  intro store hstore
  rcases stored_cases store name declares value with hstored | ⟨cause, hstored, hcause⟩
  · rw [hstored]
    exact (keeps_set (hstore.insert name hvalue)).bind fun _ _ => keeps_pure hkinds.done
  · rw [hstored]
    exact keeps_pure (hkinds.result _ (hkinds.failure cause hcause))

theorem writeLine {value : Value} (hvalue : V value) :
    Keeps Answer (Store.All S) R (writeLine value) := by
  have htext := hkinds.toText hvalue
  unfold Evaluation.writeLine
  split
  · next s _ => exact (keeps_say s).bind fun _ _ => keeps_pure hkinds.done
  · exact keeps_pure (hkinds.result _ htext)

end Kinds
end Evaluation

/-!
# Compiled trees

A compiled tree has the shape of its role, and the shape says which of its parts are expressions.
-/

namespace Tree

open Evaluation

variable {Answer : Except Fault String → Prop} {V S R : Value → Prop}

def ArgsAre (V : Value → Prop) (args : List Tree) : Except Value (List Value) → Prop
  | .error value => V value
  | .ok values => values.length = args.length ∧ ∀ value ∈ values, V value

mutual

theorem Expression.keeps (hkinds : Kinds Answer V S R) :
    (tree : Tree) → tree.Expression → Keeps Answer (Store.All S) V tree.evaluate
  | literal value, h => by
      rw [evaluate]
      exact keeps_pure (hkinds.written value h)
  | get name, _ => by
      rw [evaluate]
      exact hkinds.lookup name
  | template segments, _ => by
      rw [evaluate]
      exact keeps_get.bind fun store hstore =>
        keeps_pure (hkinds.fillTemplate hstore "" segments)
  | unary op operand, h => by
      rw [evaluate]
      exact (Expression.keeps hkinds operand h).bind fun value hvalue =>
        keeps_pure (hkinds.unary op hvalue)
  | binary op left right, h => by
      have hleft := Expression.keeps hkinds left h.1
      have hright := Expression.keeps hkinds right h.2
      cases op
      case and | or =>
        rw [evaluate]
        apply hleft.bind
        intro value hvalue
        have hboolean := hkinds.toBoolean hvalue
        split
        · exact hright.bind fun value hvalue => keeps_pure (hkinds.toBoolean hvalue)
        · exact keeps_pure hboolean
      all_goals
        simp only [evaluate]
        exact hleft.bind fun l hl => hright.bind fun r hr =>
          keeps_pure (hkinds.binary _ hl hr)
  | cast operand target, h => by
      rw [evaluate]
      exact (Expression.keeps hkinds operand h.1).bind fun value hvalue =>
        keeps_pure (hkinds.cast hvalue h.2)
  | call name args, h => by
      rw [evaluate]
      split
      · exact keeps_pure (hkinds.failure _ rfl)
      · next f _ =>
          split
          · next cause hcount =>
              have hplain := (f.plain_checkCount args.length).cause hcount
              exact keeps_pure (hkinds.failure cause hplain)
          · next u hcount =>
              apply (AllExpressions.keeps hkinds args h).bind
              intro values hvalues
              cases values with
              | error value => exact keeps_pure hvalues
              | ok values =>
                  rw [← hvalues.1] at hcount
                  exact keeps_pure (hkinds.invoke f hcount hvalues.2)
  | set _ _ _, h => h.elim
  | sequence _, h => h.elim
  | write _, h => h.elim
  | read _ _, h => h.elim

theorem AllExpressions.keeps (hkinds : Kinds Answer V S R) :
    (args : List Tree) → AllExpressions args →
      Keeps Answer (Store.All S) (ArgsAre V args) (evaluateArgs args)
  | [], _ => by
      rw [evaluateArgs]
      exact keeps_pure ⟨rfl, fun value hvalue => absurd hvalue List.not_mem_nil⟩
  | arg :: rest, h => by
      rw [evaluateArgs]
      apply (Expression.keeps hkinds arg h.1).bind
      intro value hvalue
      split
      · exact keeps_pure hvalue
      · apply (AllExpressions.keeps hkinds rest h.2).bind
        intro values hvalues
        cases values with
        | error fault => exact keeps_pure hvalues
        | ok values =>
            apply keeps_pure
            constructor
            · simp [hvalues.1]
            · intro v hv
              rcases List.mem_cons.mp hv with rfl | hv
              · exact hvalue
              · exact hvalues.2 v hv

end

theorem keeps_set (hkinds : Kinds Answer V S R) {value : Tree}
    (h : Keeps Answer (Store.All S) V value.evaluate) (name : String) (declares : Bool) :
    Keeps Answer (Store.All S) R (set name value declares).evaluate := by
  rw [evaluate]
  apply keeps_get.bind
  intro store hstore
  split
  · next cause hcheck =>
      have hplain := (plain_checkTarget store name declares).cause hcheck
      exact keeps_pure (hkinds.result _ (hkinds.failure cause hplain))
  · apply h.bind
    intro v hv
    split
    · exact keeps_pure (hkinds.result v hv)
    · next herror =>
        exact hkinds.assign name declares (hkinds.stored v hv (Bool.eq_false_iff.mpr herror))

theorem Statement.keeps (hkinds : Kinds Answer V S R) {tree : Tree} (h : tree.Statement) :
    Keeps Answer (Store.All S) R tree.evaluate := by
  cases h with
  | @assign name value declares hvalue =>
      exact Tree.keeps_set hkinds (Expression.keeps hkinds value hvalue) name declares
  | @read name target htarget =>
      apply Tree.keeps_set hkinds
      rw [evaluate]
      exact hkinds.readLine name htarget

theorem keeps_sequence (hkinds : Kinds Answer V S R) {last : Value} (hlast : R last)
    {trees : List Tree} (h : ∀ tree ∈ trees, tree.Statement) :
    Keeps Answer (Store.All S) R (evaluateSequence last trees) := by
  induction trees generalizing last with
  | nil =>
      rw [evaluateSequence]
      exact keeps_pure hlast
  | cons tree rest ih =>
      rw [evaluateSequence]
      apply ((h tree List.mem_cons_self).keeps hkinds).bind
      intro value hvalue
      split
      · exact keeps_pure hvalue
      · exact ih hvalue fun other hother => h other (List.mem_cons_of_mem _ hother)

theorem Shaped.keeps (hkinds : Kinds Answer V S R) {role : Role} {tree : Tree}
    (h : Shaped role tree) :
    Keeps Answer (Store.All S) (fun value => R value ∧ (role = .decision → V value))
      tree.evaluate := by
  have hother : role ≠ .decision → ∀ value, R value → R value ∧ (role = .decision → V value) := by
    intro hrole value hvalue
    exact ⟨hvalue, fun hdecision => absurd hdecision hrole⟩
  cases h with
  | statements hrole htrees =>
      rw [evaluate]
      exact (keeps_sequence hkinds hkinds.done htrees).mono (hother hrole)
  | output hexpression =>
      have hwrite := (Expression.keeps hkinds _ hexpression).bind fun value hvalue =>
        hkinds.writeLine hvalue
      rw [evaluate]
      exact hwrite.mono (hother (by decide))
  | decision hexpression =>
      apply (Expression.keeps hkinds _ hexpression).mono
      intro value hvalue
      exact ⟨hkinds.result value hvalue, fun _ => hvalue⟩

end Tree
end Blockwise
