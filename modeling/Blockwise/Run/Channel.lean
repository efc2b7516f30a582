/-!
# Channels

A channel delivers what is sent on it in order, each message once.
-/

namespace Blockwise

structure Channel (α : Type) where
  queued : Array α

namespace Channel

variable {α : Type}

def empty : Channel α := ⟨#[]⟩

def toList (c : Channel α) : List α :=
  c.queued.toList

def isEmpty (c : Channel α) : Bool :=
  c.queued.isEmpty

def size (c : Channel α) : Nat :=
  c.queued.size

def send (c : Channel α) (message : α) : Channel α :=
  ⟨c.queued.push message⟩

def receive? (c : Channel α) : Option (α × Channel α) :=
  match c.queued[0]? with
  | some message => some (message, ⟨c.queued.extract 1 c.queued.size⟩)
  | none => none

/-- The most messages that are taken at once. -/
def batch : Nat := 50

/-- Takes the oldest messages, a batch at most. -/
def drain (c : Channel α) : List α × Channel α :=
  ((c.queued.extract 0 batch).toList, ⟨c.queued.extract batch c.queued.size⟩)

@[simp] theorem toList_empty : (empty : Channel α).toList = [] := rfl

@[simp] theorem toList_send (c : Channel α) (message : α) :
    (c.send message).toList = c.toList ++ [message] := by
  simp [send, toList]

theorem toList_of_receive? {c rest : Channel α} {message : α}
    (h : c.receive? = some (message, rest)) : c.toList = message :: rest.toList := by
  rcases c with ⟨⟨queued⟩⟩
  cases queued with
  | nil => simp [receive?] at h
  | cons first others =>
      simp only [receive?, List.getElem?_toArray, List.getElem?_cons_zero, Option.some.injEq,
        Prod.mk.injEq] at h
      rcases h with ⟨rfl, rfl⟩
      simp [toList]

theorem drain_append (c : Channel α) : c.drain.1 ++ c.drain.2.toList = c.toList := by
  have rest : (c.queued.toList.drop batch).take (c.queued.size - batch)
      = c.queued.toList.drop batch := List.take_of_length_le (by simp)
  simp [drain, toList, rest]

end Channel

end Blockwise
