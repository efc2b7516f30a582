import Blockwise.Proofs.Trial

/-!
# Tables of operators

An operator is looked up by itself and by the types of its operands, and what is found there
works for operands of these types only.  It is called without asking once more what the operands
are, and is not called on any others.
-/

namespace Blockwise

abbrev Implementation := Value → Value → Except Crash (Except Cause Value)

namespace Implementation

/-- What the implementation does with operands of the two types; it crashes on any others. -/
def guarded (f : Implementation) (left right : ValueType) : Implementation :=
  fun l r => if l.type = left ∧ r.type = right then f l r else .error .unreachable

def Serves (f : Implementation) (left right : ValueType) : Prop :=
  ∀ l r : Value, l.type = left → r.type = right → ∃ result, f l r = .ok result

end Implementation

structure OperatorKey where
  op : BinaryOp
  left : ValueType
  right : ValueType
  deriving DecidableEq

structure Registry where
  entries : List (OperatorKey × Implementation)

namespace Registry

def find? (r : Registry) (key : OperatorKey) : Option Implementation :=
  r.entries.lookup key

def valueOf : Except Cause Value → Value
  | .ok value => value
  | .error cause => .ofCause cause

def isEquality (op : BinaryOp) : Bool :=
  op = .eq || op = .ne

/-- Applies an operator by the table.  Values of different types are never equal, whatever the
table says. -/
def apply (r : Registry) (op : BinaryOp) (left right : Value) : Except Crash Value :=
  if left.isError then .ok left
  else if right.isError then .ok right
  else if isEquality op && (left.type = .empty || right.type = .empty) then
    .ok (op.undefined left right)
  else if isEquality op && left.type ≠ right.type then .ok (.boolean (op = .ne))
  else
    match r.find? ⟨op, left.type, right.type⟩ with
    | some f => (f left right).map valueOf
    | none => .ok (op.undefined left right)

/-!
# Calls of implementations

An implementation is only called on operands of the types that it is registered for, so it makes no
difference if it crashes on all others.
-/

def guarded (r : Registry) : Registry :=
  ⟨r.entries.map fun entry => (entry.1, entry.2.guarded entry.1.left entry.1.right)⟩

/-- Every implementation serves the types that it is found by. -/
def Sound (r : Registry) : Prop :=
  ∀ key f, r.find? key = some f → f.Serves key.left key.right

variable {r : Registry}

theorem find?_guarded (r : Registry) (key : OperatorKey) :
    r.guarded.find? key = (r.find? key).map fun f => f.guarded key.left key.right := by
  rcases r with ⟨entries⟩
  unfold find? guarded
  induction entries with
  | nil => rfl
  | cons entry rest ih =>
      rw [List.map_cons, List.lookup_cons, List.lookup_cons, ih]
      cases hkey : key == entry.1 with
      | false => rfl
      | true =>
          rw [eq_of_beq hkey]
          rfl

theorem apply_guarded (r : Registry) (op : BinaryOp) (left right : Value) :
    r.guarded.apply op left right = r.apply op left right := by
  unfold apply
  rw [find?_guarded]
  cases r.find? ⟨op, left.type, right.type⟩ with
  | none => rfl
  | some f => simp [Implementation.guarded]

theorem Sound.apply (h : r.Sound) (op : BinaryOp) (left right : Value) :
    ∃ value, r.apply op left right = .ok value := by
  unfold Registry.apply
  split
  · exact ⟨_, rfl⟩
  · split
    · exact ⟨_, rfl⟩
    · split
      · exact ⟨_, rfl⟩
      · split
        · exact ⟨_, rfl⟩
        · split
          · next f hf =>
              rcases h _ f hf left right rfl rfl with ⟨result, hresult⟩
              rw [hresult]
              exact ⟨_, rfl⟩
          · exact ⟨_, rfl⟩

/-!
# The operators of the language

Arithmetic and order work for numbers, joining for a string with what may be joined to it, and every
type has its own equality.
-/

def numbers : Value → Value → Except Crash (Float × Float)
  | .number a, .number b => .ok (a, b)
  | _, _ => .error .unreachable

def strings : Value → Value → Except Crash (String × String)
  | .string a, .string b => .ok (a, b)
  | _, _ => .error .unreachable

def onNumbers (f : Float → Float → Except Cause Value) : Implementation :=
  fun l r => (numbers l r).map fun p => f p.1 p.2

def onStrings (f : String → String → Value) : Implementation :=
  fun l r => (strings l r).map fun p => .ok (f p.1 p.2)

def same : Value → Value → Bool
  | .empty, .empty => true
  | .number a, .number b => a == b
  | .string a, .string b => a == b
  | .boolean a, .boolean b => a == b
  | .error a, .error b => a = b
  | _, _ => false

def onValues (f : Value → Value → Value) : Implementation :=
  fun l r => .ok (.ok (f l r))

def numeric : List (BinaryOp × (Float → Float → Except Cause Value)) :=
  [(.add, fun a b => .ok (.number (a + b))),
    (.sub, fun a b => .ok (.number (a - b))),
    (.mul, fun a b => .ok (.number (a * b))),
    (.div, fun a b => (Arithmetic.divide a b).map .number),
    (.mod, fun a b => (Arithmetic.floorMod a b).map .number),
    (.pow, fun a b => (Arithmetic.power a b).map .number),
    (.eq, fun a b => .ok (.boolean (a == b))),
    (.ne, fun a b => .ok (.boolean (a != b))),
    (.gt, fun a b => .ok (.boolean (a > b))),
    (.lt, fun a b => .ok (.boolean (a < b))),
    (.ge, fun a b => .ok (.boolean (a ≥ b))),
    (.le, fun a b => .ok (.boolean (a ≤ b)))]

def textual : List (BinaryOp × (String → String → Value)) :=
  [(.add, fun a b => .string (a ++ b)),
    (.eq, fun a b => .boolean (a == b)),
    (.ne, fun a b => .boolean (a != b)),
    (.gt, fun a b => .boolean (a > b)),
    (.lt, fun a b => .boolean (a < b)),
    (.ge, fun a b => .boolean (a ≥ b)),
    (.le, fun a b => .boolean (a ≤ b))]

def logical : List (BinaryOp × (Value → Value → Value)) :=
  [(.eq, fun l r => .boolean (same l r)), (.ne, fun l r => .boolean (!same l r))]

def join (left right : Value) : Value :=
  .string (left.text ++ right.text)

def joined : List ValueType := [.number, .boolean]

def standard : Registry where
  entries :=
    numeric.map (fun e => (⟨e.1, .number, .number⟩, onNumbers e.2)) ++
    textual.map (fun e => (⟨e.1, .string, .string⟩, onStrings e.2)) ++
    logical.map (fun e => (⟨e.1, .boolean, .boolean⟩, onValues e.2)) ++
    joined.map (fun other => (⟨.add, .string, other⟩, onValues join)) ++
    joined.map (fun other => (⟨.add, other, .string⟩, onValues join))

theorem serves_onNumbers (f : Float → Float → Except Cause Value) :
    (onNumbers f).Serves .number .number := by
  intro l r hl hr
  cases l <;> cases hl
  cases r <;> cases hr
  exact ⟨_, rfl⟩

theorem serves_onStrings (f : String → String → Value) :
    (onStrings f).Serves .string .string := by
  intro l r hl hr
  cases l <;> cases hl
  cases r <;> cases hr
  exact ⟨_, rfl⟩

theorem serves_onValues (f : Value → Value → Value) (left right : ValueType) :
    (onValues f).Serves left right :=
  fun _ _ _ _ => ⟨_, rfl⟩

theorem sound_of_entries (h : ∀ entry ∈ r.entries, entry.2.Serves entry.1.left entry.1.right) :
    r.Sound := by
  intro key f hf
  rcases List.lookup_eq_some_iff.mp hf with ⟨before, after, hentries, _⟩
  exact h (key, f) (by simp [hentries])

theorem sound_standard : standard.Sound := by
  apply sound_of_entries
  simp only [standard, List.forall_mem_append, List.forall_mem_map]
  refine ⟨⟨⟨⟨?_, ?_⟩, ?_⟩, ?_⟩, ?_⟩
  · exact fun entry _ => serves_onNumbers entry.2
  · exact fun entry _ => serves_onStrings entry.2
  · exact fun entry _ => serves_onValues entry.2 _ _
  · exact fun other _ => serves_onValues join _ other
  · exact fun other _ => serves_onValues join other _

/-!
# The table against the operators

What the table does with two values is what the operator does with them.
-/

theorem valueOf_map (result : Except Cause Float) :
    valueOf (result.map .number) = BinaryOp.ofResult result := by
  cases result <;> rfl

theorem apply_numbers (op : BinaryOp) (a b : Float) :
    standard.apply op (.number a) (.number b) = .ok (op.onNumbers a b) := by
  cases op
  case div | mod | pow => exact congrArg Except.ok (valueOf_map _)
  all_goals rfl

theorem apply_strings (op : BinaryOp) (a b : String) :
    standard.apply op (.string a) (.string b) = .ok (op.onStrings a b) := by
  cases op <;> rfl

theorem apply_booleans (op : BinaryOp) (a b : Bool) :
    standard.apply op (.boolean a) (.boolean b) = .ok (op.onBooleans a b) := by
  cases op <;> rfl

theorem apply_standard (op : BinaryOp) (left right : Value) :
    standard.apply op left right = .ok (op.apply left right) := by
  cases left with
  | error fault => cases op <;> rfl
  | empty => cases right <;> cases op <;> rfl
  | number a =>
    cases right with
    | number b => exact apply_numbers op a b
    | empty | string s | boolean b | error fault => cases op <;> rfl
  | string a =>
    cases right with
    | string b => exact apply_strings op a b
    | empty | number x | boolean b | error fault => cases op <;> rfl
  | boolean a =>
    cases right with
    | boolean b => exact apply_booleans op a b
    | empty | number x | string s | error fault => cases op <;> rfl

end Registry
end Blockwise
