import Blockwise.Dialogue
import Blockwise.Function.Body
import Blockwise.Store
import Blockwise.Tree.Parser

/-!
# Evaluation

A tree is evaluated in a store, by a dialogue that ends with a value and the new store.  Failures
are error values.  Both operands of an operator are evaluated, except that `and` and `or` skip
the right one when the left one decides.
-/

namespace Blockwise

abbrev Evaluation := StateT Store Dialogue

namespace Evaluation

def lookup (name : String) : Evaluation Value := do
  let store ← get
  match Store.fetch store name with
  | .ok value => return value
  | .error cause => return .ofCause cause

/-- The text of a template: its texts, and the texts of its variables.  The first variable that
has no text ends it. -/
def fillTemplate (store : Store) (filled : String) : List Segment → Value
  | [] => .string filled
  | .text s :: rest => fillTemplate store (filled ++ s) rest
  | .var name :: rest =>
      match Store.fetch store name with
      | .error cause => .ofCause cause
      | .ok value =>
          match value.toText with
          | .string s => fillTemplate store (filled ++ s) rest
          | other => other

def prompt (name : String) (target : ValueType) : String :=
  name ++ " (" ++ target.name ++ ")"

/-- A line of input as a value of the type.  A Boolean must be spelled out. -/
def ofLine (target : ValueType) (line : String) : Value :=
  match target with
  | .boolean =>
      if Text.trim line = "true" then .boolean true
      else if Text.trim line = "false" then .boolean false
      else .ofCause (.badBoolean line)
  | other => (Value.string line).cast other

def checkTarget (store : Store) (name : String) (declares : Bool) : Except Cause Unit :=
  if declares && store.contains name then .error (.alreadyDefined name)
  else if !declares && !store.contains name then .error (.notDefined name)
  else .ok ()

def assign (name : String) (declares : Bool) (value : Value) : Evaluation Value := do
  let store ← get
  let stored :=
    if declares then Store.declare store name value else Store.assign store name value
  match stored with
  | .ok store' =>
      set store'
      return .empty
  | .error cause => return .ofCause cause

def writeLine (value : Value) : Evaluation Value :=
  match value.toText with
  | .string s => do
      StateT.lift (Dialogue.say s)
      return .empty
  | other => return other

def readLine (name : String) (target : ValueType) : Evaluation Value := do
  let answer ← StateT.lift (Dialogue.ask (prompt name target))
  match answer with
  | .ok line => return ofLine target line
  | .error fault => return .error fault

end Evaluation

namespace Tree

open Evaluation

mutual

def evaluate : Tree → Evaluation Value
  | literal value => return value
  | get name => lookup name
  | template segments => do
      let store ← StateT.get
      return fillTemplate store "" segments
  | unary op operand => do
      let value ← operand.evaluate
      return op.apply value
  | binary .and left right => do
      match (← left.evaluate).toBoolean with
      | .boolean true => return (← right.evaluate).toBoolean
      | other => return other
  | binary .or left right => do
      match (← left.evaluate).toBoolean with
      | .boolean false => return (← right.evaluate).toBoolean
      | other => return other
  | binary op left right => do
      let l ← left.evaluate
      let r ← right.evaluate
      return op.apply l r
  | cast operand target => do
      let value ← operand.evaluate
      return value.cast target
  | call name args =>
      match Function.ofName? name with
      | none => return .ofCause (.unknownFunction name)
      | some f =>
          match f.checkCount args.length with
          | .error cause => return .ofCause cause
          | .ok _ => do
              match ← evaluateArgs args with
              | .error value => return value
              | .ok values => return f.invoke values
  | set name value declares => do
      let store ← StateT.get
      match checkTarget store name declares with
      | .error cause => return .ofCause cause
      | .ok _ => do
          let v ← value.evaluate
          if v.isError then return v else assign name declares v
  | sequence trees => evaluateSequence .empty trees
  | write operand => do
      let value ← operand.evaluate
      writeLine value
  | read name target => readLine name target

/-- The values of the arguments of a call, or the first error among them, after which no
argument is evaluated. -/
def evaluateArgs : List Tree → Evaluation (Except Value (List Value))
  | [] => return .ok []
  | arg :: rest => do
      let value ← arg.evaluate
      if value.isError then return .error value
      else
        match ← evaluateArgs rest with
        | .ok values => return .ok (value :: values)
        | .error fault => return .error fault

/-- Evaluates the trees in order up to the first error; the value is that of the last one
evaluated, `last` if there is none. -/
def evaluateSequence (last : Value) : List Tree → Evaluation Value
  | [] => return last
  | tree :: rest => do
      let value ← tree.evaluate
      if value.isError then return value else evaluateSequence value rest

end

def evaluateSource (role : Role) (source : String) : Evaluation Value :=
  match Tree.ofSource role source with
  | .ok tree => tree.evaluate
  | .error cause => return .ofCause cause

end Tree

end Blockwise
