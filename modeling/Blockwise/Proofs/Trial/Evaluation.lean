import Blockwise.Proofs.Trial.Functions
import Blockwise.Proofs.Trial.Operators

/-!
# Evaluation by tables

A tree is evaluated with the implementations of a table of operators and the bodies of a table of
functions, any of which may crash.  The tables may be any tables: what an implementation or a body
is called on is settled by the evaluation, and not by what stands in the tables.
-/

namespace Blockwise

structure Tables where
  operators : Registry
  functions : List Builtin

namespace Tables

/-- The same tables, where everything crashes that is called on what it is not made for. -/
def guarded (T : Tables) : Tables where
  operators := T.operators.guarded
  functions := T.functions.map Builtin.guarded

/-- Nothing crashes that is called on what it is made for. -/
structure Sound (T : Tables) : Prop where
  operators : T.operators.Sound
  functions : ∀ b ∈ T.functions, b.Sound

def standard : Tables where
  operators := .standard
  functions := Builtin.standard

theorem apply_guarded (T : Tables) (op : BinaryOp) (left right : Value) :
    T.guarded.operators.apply op left right = T.operators.apply op left right :=
  T.operators.apply_guarded op left right

theorem find?_guarded (T : Tables) (name : String) :
    Builtin.find? T.guarded.functions name = (Builtin.find? T.functions name).map .guarded :=
  Builtin.find?_guarded T.functions name

theorem find?_standard (name : String) :
    Builtin.find? Tables.standard.functions name = (Function.ofName? name).map .ofFunction :=
  Builtin.find?_standard name

theorem apply_standard (op : BinaryOp) (left right : Value) :
    Tables.standard.operators.apply op left right = .ok (op.apply left right) :=
  Registry.apply_standard op left right

theorem sound_standard : standard.Sound where
  operators := Registry.sound_standard
  functions := Builtin.sound_standard

end Tables

namespace Tree

open Evaluation Trial

def finishCall (b : Builtin) : Except Value (List Value) → Trial Value
  | .error value => return value
  | .ok values => ofResult (b.invoke values)

mutual

/-- The value of a tree, if nothing crashes. -/
def attempt (T : Tables) : Tree → Trial Value
  | literal value => return value
  | get name => ofEvaluation (lookup name)
  | template segments => do
      let store ← StateT.get
      return fillTemplate store "" segments
  | unary op operand => do
      let value ← operand.attempt T
      return op.apply value
  | binary .and left right => do
      match (← left.attempt T).toBoolean with
      | .boolean true => return (← right.attempt T).toBoolean
      | other => return other
  | binary .or left right => do
      match (← left.attempt T).toBoolean with
      | .boolean false => return (← right.attempt T).toBoolean
      | other => return other
  | binary op left right => do
      let l ← left.attempt T
      let r ← right.attempt T
      ofResult (T.operators.apply op l r)
  | cast operand target => do
      let value ← operand.attempt T
      return value.cast target
  | call name args =>
      match Builtin.find? T.functions name with
      | none => return .ofCause (.unknownFunction name)
      | some b =>
          match b.arity.check b.function args.length with
          | .error cause => return .ofCause cause
          | .ok _ => attemptArgs T args >>= finishCall b
  | set name value declares => do
      let store ← StateT.get
      match checkTarget store name declares with
      | .error cause => return .ofCause cause
      | .ok _ => do
          let v ← value.attempt T
          if v.isError then return v else ofEvaluation (assign name declares v)
  | sequence trees => attemptSequence T .empty trees
  | write operand => do
      let value ← operand.attempt T
      ofEvaluation (writeLine value)
  | read name target => ofEvaluation (readLine name target)

def attemptArgs (T : Tables) : List Tree → Trial (Except Value (List Value))
  | [] => return .ok []
  | arg :: rest => do
      let value ← arg.attempt T
      if value.isError then return .error value
      else
        match ← attemptArgs T rest with
        | .ok values => return .ok (value :: values)
        | .error fault => return .error fault

def attemptSequence (T : Tables) (last : Value) : List Tree → Trial Value
  | [] => return last
  | tree :: rest => do
      let value ← tree.attempt T
      if value.isError then return value else attemptSequence T value rest

end

/-!
# How attempts end

Only tables that are not sound let an attempt end with a crash.  However the reads are answered, the
arguments of a call have as many values as there are arguments.
-/

variable {T : Tables}

theorem not_sound_of_apply {op : BinaryOp} {left right : Value} {crash : Crash}
    (hcrash : T.operators.apply op left right = .error crash) : ¬ T.Sound := by
  intro hsound
  rcases hsound.operators.apply op left right with ⟨value, hvalue⟩
  cases hcrash.symm.trans hvalue

theorem not_sound_of_invoke {name : String} {b : Builtin}
    (hb : Builtin.find? T.functions name = some b) {count : Nat} {u : Unit}
    (hcheck : b.arity.check b.function count = .ok u) {values : List Value}
    (hcount : values.length = count) {crash : Crash}
    (hcrash : b.invoke values = .error crash) : ¬ T.Sound := by
  intro hsound
  rcases (hsound.functions b (List.mem_of_find?_eq_some hb)).invoke hcheck hcount with
    ⟨value, hvalue⟩
  cases hcrash.symm.trans hvalue

def Complete (args : List Tree) : Except Value (List Value) → Prop
  | .ok values => values.length = args.length
  | .error _ => True

mutual

theorem ends_attempt (T : Tables) :
    (tree : Tree) → Ends (fun _ => ¬ T.Sound) (fun _ => True) (tree.attempt T)
  | literal value => by
      rw [attempt]
      exact ends_pure trivial
  | get name => by
      rw [attempt]
      exact ends_ofEvaluation _
  | template segments => by
      rw [attempt]
      exact ends_get.bind fun _ _ => ends_pure trivial
  | unary op operand => by
      rw [attempt]
      exact (ends_attempt T operand).bind fun _ _ => ends_pure trivial
  | binary op left right => by
      have hleft := ends_attempt T left
      have hright := ends_attempt T right
      cases op
      case and | or =>
        rw [attempt]
        refine hleft.bind ?_
        intro value _
        split
        · exact hright.bind fun _ _ => ends_pure trivial
        · exact ends_pure trivial
      all_goals
        simp only [attempt]
        refine hleft.bind fun _ _ => hright.bind fun _ _ => ?_
        exact ends_ofResult (fun _ _ => trivial) fun _ hcrash => not_sound_of_apply hcrash
  | cast operand target => by
      rw [attempt]
      exact (ends_attempt T operand).bind fun _ _ => ends_pure trivial
  | call name args => by
      rw [attempt]
      split
      · exact ends_pure trivial
      · next b hb =>
          split
          · exact ends_pure trivial
          · next hcheck =>
              refine (ends_attemptArgs T args).bind ?_
              intro values hvalues
              cases values with
              | error value => exact ends_pure trivial
              | ok values =>
                  exact ends_ofResult (fun _ _ => trivial) fun _ hcrash =>
                    not_sound_of_invoke hb hcheck hvalues hcrash
  | set name value declares => by
      rw [attempt]
      refine ends_get.bind ?_
      intro store _
      split
      · exact ends_pure trivial
      · refine (ends_attempt T value).bind ?_
        intro v _
        split
        · exact ends_pure trivial
        · exact ends_ofEvaluation _
  | sequence trees => by
      rw [attempt]
      exact ends_attemptSequence T .empty trees
  | write operand => by
      rw [attempt]
      exact (ends_attempt T operand).bind fun _ _ => ends_ofEvaluation _
  | read name target => by
      rw [attempt]
      exact ends_ofEvaluation _

theorem ends_attemptArgs (T : Tables) :
    (args : List Tree) → Ends (fun _ => ¬ T.Sound) (Complete args) (attemptArgs T args)
  | [] => by
      rw [attemptArgs]
      exact ends_pure rfl
  | arg :: rest => by
      rw [attemptArgs]
      refine (ends_attempt T arg).bind ?_
      intro value _
      split
      · exact ends_pure trivial
      · refine (ends_attemptArgs T rest).bind ?_
        intro values hvalues
        cases values with
        | error fault => exact ends_pure trivial
        | ok values => exact ends_pure (congrArg (· + 1) hvalues)

theorem ends_attemptSequence (T : Tables) (last : Value) :
    (trees : List Tree) →
      Ends (fun _ => ¬ T.Sound) (fun _ => True) (attemptSequence T last trees)
  | [] => by
      rw [attemptSequence]
      exact ends_pure trivial
  | tree :: rest => by
      rw [attemptSequence]
      refine (ends_attempt T tree).bind ?_
      intro value _
      split
      · exact ends_pure trivial
      · exact ends_attemptSequence T value rest

end

/-!
# What is called on what

The guarded tables crash on whatever is called on something else than it is made for.  An attempt by
them is the attempt by the tables themselves, so nothing is.
-/

theorem finishCall_guarded {b : Builtin} {args : List Tree} {u : Unit}
    (hcheck : b.arity.check b.function args.length = .ok u) {values : Except Value (List Value)}
    (hvalues : Complete args values) : finishCall b.guarded values = finishCall b values := by
  cases values with
  | error value => rfl
  | ok values => rw [finishCall, finishCall, Builtin.invoke_guarded hcheck hvalues]

theorem finishCall_ofFunction {f : Function} {args : List Tree} {u : Unit}
    (hcheck : f.checkCount args.length = .ok u) {values : Except Value (List Value)}
    (hvalues : Complete args values) :
    finishCall (.ofFunction f) values = ofEvaluation (match values with
      | .error value => return value
      | .ok values => return f.invoke values) := by
  cases values with
  | error value => rfl
  | ok values =>
      rw [finishCall, Builtin.invoke_ofFunction hcheck hvalues]
      rfl

mutual

theorem attempt_guarded (T : Tables) : (tree : Tree) → tree.attempt T.guarded = tree.attempt T
  | literal value => by rw [attempt, attempt]
  | get name => by rw [attempt, attempt]
  | template segments => by rw [attempt, attempt]
  | unary op operand => by rw [attempt, attempt, attempt_guarded T operand]
  | binary op left right => by
      cases op
      case and | or =>
        rw [attempt, attempt, attempt_guarded T left, attempt_guarded T right]
      all_goals
        simp only [attempt, attempt_guarded T left, attempt_guarded T right, Tables.apply_guarded]
  | cast operand target => by rw [attempt, attempt, attempt_guarded T operand]
  | call name args => by
      rw [attempt, attempt, Tables.find?_guarded]
      cases Builtin.find? T.functions name with
      | none => rfl
      | some b =>
          simp only [Option.map_some, Builtin.arity_guarded, Builtin.function_guarded]
          cases hcheck : b.arity.check b.function args.length with
          | error cause => rfl
          | ok u =>
              dsimp only
              rw [attemptArgs_guarded T args]
              exact (ends_attemptArgs T args).bind_congr fun _ => finishCall_guarded hcheck
  | set name value declares => by rw [attempt, attempt, attempt_guarded T value]
  | sequence trees => by rw [attempt, attempt, attemptSequence_guarded T .empty trees]
  | write operand => by rw [attempt, attempt, attempt_guarded T operand]
  | read name target => by rw [attempt, attempt]

theorem attemptArgs_guarded (T : Tables) :
    (args : List Tree) → attemptArgs T.guarded args = attemptArgs T args
  | [] => by rw [attemptArgs, attemptArgs]
  | arg :: rest => by
      rw [attemptArgs, attemptArgs, attempt_guarded T arg, attemptArgs_guarded T rest]

theorem attemptSequence_guarded (T : Tables) (last : Value) :
    (trees : List Tree) → attemptSequence T.guarded last trees = attemptSequence T last trees
  | [] => by rw [attemptSequence, attemptSequence]
  | tree :: rest => by
      rw [attemptSequence, attemptSequence, attempt_guarded T tree]
      simp only [attemptSequence_guarded T _ rest]

end

mutual

theorem attempt_standard : (tree : Tree) → tree.attempt .standard = ofEvaluation tree.evaluate
  | literal value => by
      rw [attempt, evaluate]
      rfl
  | get name => by rw [attempt, evaluate]
  | template segments => by
      rw [attempt, evaluate, ofEvaluation_bind]
      rfl
  | unary op operand => by
      rw [attempt, evaluate, ofEvaluation_bind, attempt_standard operand]
      rfl
  | binary op left right => by
      have hleft := attempt_standard left
      have hright := attempt_standard right
      cases op
      case and =>
        rw [attempt, evaluate, ofEvaluation_bind, hleft, hright]
        refine congrArg _ (funext fun value => ?_)
        match value.toBoolean with
        | .boolean true =>
            exact (ofEvaluation_bind right.evaluate fun second => pure second.toBoolean).symm
        | .boolean false | .empty | .number _ | .string _ | .error _ => rfl
      case or =>
        rw [attempt, evaluate, ofEvaluation_bind, hleft, hright]
        refine congrArg _ (funext fun value => ?_)
        match value.toBoolean with
        | .boolean false =>
            exact (ofEvaluation_bind right.evaluate fun second => pure second.toBoolean).symm
        | .boolean true | .empty | .number _ | .string _ | .error _ => rfl
      all_goals
        simp only [attempt, evaluate, ofEvaluation_bind, hleft, hright, Tables.apply_standard]
        rfl
  | cast operand target => by
      rw [attempt, evaluate, ofEvaluation_bind, attempt_standard operand]
      rfl
  | call name args => by
      rw [attempt, evaluate, Tables.find?_standard]
      cases Function.ofName? name with
      | none => rfl
      | some f =>
          simp only [Option.map_some, Builtin.check_ofFunction]
          cases hcheck : f.checkCount args.length with
          | error cause => rfl
          | ok u =>
              dsimp only
              rw [ofEvaluation_bind, ← attemptArgs_standard args]
              exact (ends_attemptArgs _ args).bind_congr fun _ => finishCall_ofFunction hcheck
  | set name value declares => by
      rw [attempt, evaluate, ofEvaluation_bind, attempt_standard value]
      refine congrArg _ (funext fun store => ?_)
      cases checkTarget store name declares with
      | error cause => rfl
      | ok u =>
          dsimp only
          rw [ofEvaluation_bind]
          refine congrArg _ (funext fun v => ?_)
          split <;> rfl
  | sequence trees => by rw [attempt, evaluate, attemptSequence_standard .empty trees]
  | write operand => by rw [attempt, evaluate, ofEvaluation_bind, attempt_standard operand]
  | read name target => by rw [attempt, evaluate]

theorem attemptArgs_standard :
    (args : List Tree) → attemptArgs .standard args = ofEvaluation (evaluateArgs args)
  | [] => by
      rw [attemptArgs, evaluateArgs]
      rfl
  | arg :: rest => by
      rw [attemptArgs, evaluateArgs, ofEvaluation_bind, attempt_standard arg,
        attemptArgs_standard rest]
      refine congrArg _ (funext fun value => ?_)
      split
      · rfl
      · rw [ofEvaluation_bind]
        refine congrArg _ (funext fun values => ?_)
        cases values <;> rfl

theorem attemptSequence_standard (last : Value) :
    (trees : List Tree) →
      attemptSequence .standard last trees = ofEvaluation (evaluateSequence last trees)
  | [] => by
      rw [attemptSequence, evaluateSequence]
      rfl
  | tree :: rest => by
      rw [attemptSequence, evaluateSequence, ofEvaluation_bind, attempt_standard tree]
      refine congrArg _ (funext fun value => ?_)
      split
      · rfl
      · exact attemptSequence_standard value rest

end

end Tree
end Blockwise
