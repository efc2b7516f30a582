import Blockwise.Value

/-!
# Stores

The variables of a run.  There is one scope: a name is declared once and keeps existing.
-/

namespace Blockwise

abbrev Store := Dictionary Value

namespace Store

def declare (store : Store) (name : String) (value : Value) : Except Cause Store :=
  if store.contains name then .error (.alreadyDefined name)
  else .ok (store.insert name value)

def assign (store : Store) (name : String) (value : Value) : Except Cause Store :=
  if store.contains name then .ok (store.insert name value)
  else .error (.notDefined name)

def fetch (store : Store) (name : String) : Except Cause Value :=
  match store.get? name with
  | some value => .ok value
  | none => .error (.notDefined name)

end Store

end Blockwise
