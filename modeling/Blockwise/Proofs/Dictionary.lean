import Blockwise.Dictionary
import Mathlib.Data.List.Nodup

/-!
# Dictionaries and their listings

A dictionary is what it answers to lookups.  So it is put together again from its entries in any
order, whatever the names that it has were given before.
-/

namespace Blockwise
namespace Dictionary

variable {α : Type} {d d' : Dictionary α} {name : String} {value : α}
  {pairs listing : List (String × α)}

theorem mem_of_find? {entries : List (String × α)} (h : find? name entries = some value) :
    (name, value) ∈ entries := by
  induction entries with
  | nil => cases h
  | cons first rest ih =>
      unfold find? at h
      split at h
      · next hname =>
          cases h
          rw [hname]
          exact List.mem_cons_self
      · exact List.mem_cons_of_mem _ (ih h)

theorem mem_entries_iff : (name, value) ∈ d.entries ↔ d.get? name = some value :=
  ⟨get?_of_mem, mem_of_find?⟩

theorem nodup_names (d : Dictionary α) : (d.entries.map Prod.fst).Nodup := by
  unfold List.Nodup
  rw [List.pairwise_map]
  exact d.ordered.imp fun hlt => String.ne_of_lt hlt

theorem ext_get? (h : ∀ name, d.get? name = d'.get? name) : d = d' := by
  have hmem : ∀ entry, entry ∈ d.entries ↔ entry ∈ d'.entries := by
    intro entry
    rcases entry with ⟨name, value⟩
    rw [mem_entries_iff, mem_entries_iff, h]
  have hperm : d.entries.Perm d'.entries :=
    (List.perm_ext_iff_of_nodup d.nodup_names.of_map d'.nodup_names.of_map).mpr hmem
  have hentries : d.entries = d'.entries := by
    refine hperm.eq_of_pairwise ?_ d.ordered d'.ordered
    intro a b _ _ hab hba
    exact absurd (String.lt_trans hab hba) (String.lt_irrefl a.1)
  cases d
  cases d'
  cases hentries
  rfl

theorem contains_insert (d : Dictionary α) (name other : String) (value : α) :
    (d.insert name value).contains other = (decide (other = name) || d.contains other) := by
  rw [contains, get?_insert]
  split <;> simp_all [contains]

/-!
# Inserting many

A later value overwrites an earlier one, and names that are not inserted stay as they are.
-/

@[simp] theorem insertAll_nil (d : Dictionary α) : d.insertAll [] = d := rfl

theorem insertAll_cons (d : Dictionary α) (pair : String × α) :
    d.insertAll (pair :: pairs) = (d.insert pair.1 pair.2).insertAll pairs := rfl

theorem insertAll_append (d : Dictionary α) (pairs pairs' : List (String × α)) :
    d.insertAll (pairs ++ pairs') = (d.insertAll pairs).insertAll pairs' :=
  List.foldl_append

theorem get?_insertAll_of_not_mem (d : Dictionary α) (h : name ∉ pairs.map Prod.fst) :
    (d.insertAll pairs).get? name = d.get? name := by
  induction pairs generalizing d with
  | nil => rfl
  | cons pair rest ih =>
      rw [List.map_cons, List.mem_cons, not_or] at h
      rw [insertAll_cons, ih _ h.2, get?_insert, if_neg h.1]

theorem get?_insertAll_of_mem (d : Dictionary α) (hnodup : (pairs.map Prod.fst).Nodup)
    (h : (name, value) ∈ pairs) : (d.insertAll pairs).get? name = some value := by
  induction pairs generalizing d with
  | nil => cases h
  | cons pair rest ih =>
      rw [List.map_cons, List.nodup_cons] at hnodup
      rw [insertAll_cons]
      rcases List.mem_cons.mp h with hhere | hrest
      · rw [← hhere] at hnodup ⊢
        rw [get?_insertAll_of_not_mem _ hnodup.1, get?_insert, if_pos rfl]
      · exact ih _ hnodup.2 hrest

theorem contains_insertAll (d : Dictionary α) :
    (d.insertAll pairs).contains name = true ↔
      d.contains name = true ∨ name ∈ pairs.map Prod.fst := by
  induction pairs generalizing d with
  | nil => simp
  | cons pair rest ih =>
      rw [insertAll_cons, ih, contains_insert, Bool.or_eq_true, decide_eq_true_eq, List.map_cons,
        List.mem_cons, or_assoc, or_left_comm]

theorem contains_ofList : (ofList pairs).contains name = true ↔ name ∈ pairs.map Prod.fst := by
  rw [ofList, contains_insertAll]
  simp [contains]

/-- All entries of a dictionary, in any order, overwrite one with no other names. -/
theorem insertAll_listing (hlisting : listing.Perm d'.entries)
    (hnames : ∀ name, d.contains name = true → d'.contains name = true) :
    d.insertAll listing = d' := by
  apply ext_get?
  intro name
  have hmem : ∀ value, (name, value) ∈ listing ↔ d'.get? name = some value := by
    intro value
    rw [hlisting.mem_iff, mem_entries_iff]
  cases hfound : d'.get? name with
  | some value =>
      have hnodup : (listing.map Prod.fst).Nodup :=
        (hlisting.map Prod.fst).nodup_iff.mpr d'.nodup_names
      exact get?_insertAll_of_mem d hnodup ((hmem value).mpr hfound)
  | none =>
      have hnone : d.get? name = none := by
        rw [← Option.not_isSome_iff_eq_none]
        intro hbefore
        have hafter := hnames name hbefore
        rw [contains, hfound] at hafter
        cases hafter
      rw [get?_insertAll_of_not_mem d, hnone]
      intro hlisted
      rcases List.mem_map.mp hlisted with ⟨⟨_, value⟩, hentry, rfl⟩
      cases hfound.symm.trans ((hmem value).mp hentry)

end Dictionary
end Blockwise
