/-!
# Dictionaries

Variables, error arguments and message templates are all looked up by name.  A dictionary
keeps one entry per name, in the order of the names, so that the listing is canonical:
dictionaries that answer every lookup alike are equal.
-/

namespace Blockwise

def Ordered {α : Type} (entries : List (String × α)) : Prop :=
  entries.Pairwise (fun a b => a.1 < b.1)

structure Dictionary (α : Type) where
  entries : List (String × α)
  ordered : Ordered entries
  deriving DecidableEq

namespace Dictionary

variable {α : Type}

def empty : Dictionary α where
  entries := []
  ordered := List.Pairwise.nil

instance : EmptyCollection (Dictionary α) := ⟨empty⟩

instance : Inhabited (Dictionary α) := ⟨empty⟩

/-- Puts an entry where its name belongs, in place of an entry of the same name. -/
def place (name : String) (value : α) : List (String × α) → List (String × α)
  | [] => [(name, value)]
  | entry :: rest =>
      if name < entry.1 then (name, value) :: entry :: rest
      else if name = entry.1 then (name, value) :: rest
      else entry :: place name value rest

theorem mem_place {name : String} {value : α} {entry : String × α}
    {entries : List (String × α)} (h : entry ∈ place name value entries) :
    entry = (name, value) ∨ entry ∈ entries := by
  induction entries with
  | nil => simpa [place] using h
  | cons first rest ih =>
      unfold place at h
      split at h
      · simpa using h
      · split at h
        · cases List.mem_cons.mp h with
          | inl here => exact Or.inl here
          | inr there => exact Or.inr (List.mem_cons_of_mem _ there)
        · cases List.mem_cons.mp h with
          | inl here => exact Or.inr (here ▸ List.mem_cons_self)
          | inr there =>
              cases ih there with
              | inl new => exact Or.inl new
              | inr old => exact Or.inr (List.mem_cons_of_mem _ old)

theorem ordered_place (name : String) (value : α) {entries : List (String × α)}
    (h : Ordered entries) : Ordered (place name value entries) := by
  induction entries with
  | nil => exact List.pairwise_singleton _ _
  | cons first rest ih =>
      have later : ∀ entry ∈ rest, first.1 < entry.1 :=
        fun _ member => List.rel_of_pairwise_cons h member
      have tail : Ordered rest := List.Pairwise.of_cons h
      unfold place
      split
      · next before =>
          refine List.Pairwise.cons ?_ h
          intro entry member
          cases List.mem_cons.mp member with
          | inl here => exact here ▸ before
          | inr there => exact String.lt_trans before (later _ there)
      · next notBefore =>
          split
          · next same =>
              refine List.Pairwise.cons ?_ tail
              intro entry member
              exact same ▸ later entry member
          · next differs =>
              refine List.Pairwise.cons ?_ (ih tail)
              intro entry member
              cases mem_place member with
              | inl new =>
                  subst new
                  refine String.not_le.mp (fun le => differs ?_)
                  exact String.le_antisymm le (String.not_lt.mp notBefore)
              | inr old => exact later entry old

def insert (d : Dictionary α) (name : String) (value : α) : Dictionary α where
  entries := place name value d.entries
  ordered := ordered_place name value d.ordered

def find? (name : String) : List (String × α) → Option α
  | [] => none
  | entry :: rest => if name = entry.1 then some entry.2 else find? name rest

def get? (d : Dictionary α) (name : String) : Option α :=
  find? name d.entries

def contains (d : Dictionary α) (name : String) : Bool :=
  (d.get? name).isSome

def size (d : Dictionary α) : Nat :=
  d.entries.length

def isEmpty (d : Dictionary α) : Bool :=
  d.entries.isEmpty

def names (d : Dictionary α) : List String :=
  d.entries.map Prod.fst

/-- Inserts the pairs from left to right, so the last value given to a name stays. -/
def insertAll (d : Dictionary α) (pairs : List (String × α)) : Dictionary α :=
  pairs.foldl (fun d pair => d.insert pair.1 pair.2) d

def ofList (pairs : List (String × α)) : Dictionary α :=
  insertAll ∅ pairs

/-!
# Lookup after insertion

A name is looked up as it was inserted last.
-/

@[simp] theorem get?_empty (name : String) : (∅ : Dictionary α).get? name = none := rfl

theorem find?_place_self (name : String) (value : α) (entries : List (String × α)) :
    find? name (place name value entries) = some value := by
  induction entries with
  | nil => simp [place, find?]
  | cons first rest ih =>
      unfold place
      split
      · simp [find?]
      · split
        · simp [find?]
        · next differs => simp [find?, differs, ih]

theorem find?_place_of_ne {name other : String} (h : other ≠ name) (value : α)
    (entries : List (String × α)) :
    find? other (place name value entries) = find? other entries := by
  induction entries with
  | nil => simp [place, find?, h]
  | cons first rest ih =>
      unfold place
      split
      · simp [find?, h]
      · split
        · next same => simp [find?, h, ← same]
        · simp [find?, ih]

theorem get?_insert (d : Dictionary α) (name other : String) (value : α) :
    (d.insert name value).get? other = if other = name then some value else d.get? other := by
  by_cases h : other = name
  · subst h
    simp [get?, insert, find?_place_self]
  · simp [get?, insert, find?_place_of_ne h, h]

theorem find?_of_mem {name : String} {value : α} {entries : List (String × α)}
    (hordered : Ordered entries) (h : (name, value) ∈ entries) :
    find? name entries = some value := by
  induction entries with
  | nil => cases h
  | cons first rest ih =>
      unfold find?
      cases List.mem_cons.mp h with
      | inl here =>
          subst here
          simp
      | inr there =>
          have later : first.1 < name := List.rel_of_pairwise_cons hordered there
          rw [if_neg (String.ne_of_lt later).symm]
          exact ih (List.Pairwise.of_cons hordered) there

theorem get?_of_mem {d : Dictionary α} {name : String} {value : α}
    (h : (name, value) ∈ d.entries) : d.get? name = some value :=
  find?_of_mem d.ordered h

end Dictionary

end Blockwise
