import Blockwise.Proofs.Evaluation.Effects
import Blockwise.Proofs.Evaluation.Soundness

/-!
# Templates are sums of texts

A template fills its variables in, one segment after the other, and a sum of strings adds them up
with an operator.  As long as variables hold numbers, strings and Booleans, the two build the
same text, and the first variable that does not exist ends both with the same error.
-/

namespace Blockwise

namespace Segment

def tree : Segment → Tree
  | text s => .literal (.string s)
  | var name => .get name

def value (store : Store) : Segment → Value
  | text s => .string s
  | var name =>
      match store.fetch name with
      | .ok v => v
      | .error cause => .ofCause cause

def shown? (store : Store) : Segment → Option String
  | text s => some s
  | var name => (store.get? name).map Value.text

end Segment

/-- The sum of the segments from left to right, from a string without characters on. -/
def Tree.concatenation (segments : List Segment) : Tree :=
  segments.foldl (fun sum segment => .binary .add sum segment.tree) (.literal (.string ""))

/-- The value is what all segments show one after the other, or else the error that the first
variable that shows nothing does not exist. -/
def Shows (store : Store) (segments : List Segment) (value : Value) : Prop :=
  (∃ texts, segments.mapM (Segment.shown? store) = some texts ∧
    value = .string (String.join texts)) ∨
  ∃ earlier name later texts, segments = earlier ++ .var name :: later ∧
    earlier.mapM (Segment.shown? store) = some texts ∧ store.get? name = none ∧
    value = .ofCause (.notDefined name)

/-!
# Texts of values

A number, a string and a Boolean have the same text in a template as in a sum with a string on
either side.
-/

namespace Value

variable {v : Value}

theorem Written.toText (h : v.Written) : v.toText = .string v.text := by
  cases h <;> rfl

theorem Written.add_right (h : v.Written) (s : String) :
    BinaryOp.add.apply (.string s) v = .string (s ++ v.text) := by
  cases h <;> rfl

theorem Written.add_left (h : v.Written) (s : String) :
    BinaryOp.add.apply v (.string s) = .string (v.text ++ s) := by
  cases h <;> rfl

end Value

/-!
# Sums

A sum of segments has the value that the operator gives, segment by segment.
-/

namespace Tree

variable {store : Store} {left right : Tree} {l r : Value}

theorem Yields.unique (h : left.Yields store l) (h' : left.Yields store r) : l = r := by
  rw [Yields, h] at h'
  cases h'
  rfl

theorem yields_literal (v : Value) : (Tree.literal v).Yields store v := by
  rw [Yields, evaluate]
  rfl

theorem yields_get (name : String) :
    (Tree.get name).Yields store ((Segment.var name).value store) := by
  rw [Yields, evaluate, Evaluation.lookup]
  change (match store.fetch name with
    | .ok value => (pure value : Evaluation Value)
    | .error cause => pure (.ofCause cause)) store = _
  rw [Segment.value]
  cases store.fetch name <;> rfl

theorem yields_bound {name : String} {v : Value} (h : store.get? name = some v) :
    (Tree.get name).Yields store v := by
  have hyields : (Tree.get name).Yields store _ := yields_get name
  rwa [Segment.value, Store.fetch, h] at hyields

theorem yields_template (segments : List Segment) :
    (Tree.template segments).Yields store (Evaluation.fillTemplate store "" segments) := by
  rw [Yields, evaluate]
  rfl

theorem yields_tree (segment : Segment) : segment.tree.Yields store (segment.value store) := by
  cases segment with
  | text s => exact yields_literal (.string s)
  | var name => exact yields_get name

theorem Yields.add (hleft : left.Yields store l) (hright : right.Yields store r) :
    (Tree.binary .add left right).Yields store (BinaryOp.add.apply l r) := by
  rw [Yields, evaluate]
  · change (left.evaluate store).bind _ = _
    rw [hleft]
    change (right.evaluate store).bind _ = _
    rw [hright]
    rfl
  · nofun
  · nofun

theorem Yields.cast (h : left.Yields store l) (target : ValueType) :
    (Tree.cast left target).Yields store (l.cast target) := by
  rw [Yields, evaluate]
  change (left.evaluate store).bind _ = _
  rw [h]
  rfl

theorem Yields.foldl_add (h : left.Yields store l) (segments : List Segment) :
    (segments.foldl (fun sum segment => .binary .add sum segment.tree) left).Yields store
      (segments.foldl (fun sum segment => BinaryOp.add.apply sum (segment.value store)) l) := by
  induction segments generalizing left l with
  | nil => exact h
  | cons segment rest ih => exact ih (h.add (yields_tree segment))

end Tree

theorem BinaryOp.foldl_add_error (store : Store) (segments : List Segment) (fault : Fault) :
    segments.foldl (fun sum segment => BinaryOp.add.apply sum (segment.value store))
      (.error fault) = .error fault := by
  induction segments with
  | nil => rfl
  | cons segment rest ih => rw [List.foldl_cons, BinaryOp.apply_error_left, ih]

/-!
# Templates

Filling a template and adding its segments up are the same, also from the middle on.
-/

namespace Evaluation

variable {store : Store}

theorem fillTemplate_eq_foldl (h : store.Written) (filled : String) (segments : List Segment) :
    fillTemplate store filled segments =
      segments.foldl (fun sum segment => BinaryOp.add.apply sum (segment.value store))
        (.string filled) := by
  induction segments generalizing filled with
  | nil => rfl
  | cons segment rest ih =>
      cases segment with
      | text s => exact ih (filled ++ s)
      | var name =>
          rw [fillTemplate, List.foldl_cons, Segment.value, Store.fetch]
          cases hget : store.get? name with
          | none => exact (BinaryOp.foldl_add_error store rest _).symm
          | some v =>
              have hv := h name v hget
              simp only [hv.toText, hv.add_right]
              exact ih (filled ++ v.text)

theorem mapM_shown?_concat {earlier : List Segment} {texts : List String} {segment : Segment}
    {s : String} (hearlier : earlier.mapM (Segment.shown? store) = some texts)
    (hs : segment.shown? store = some s) :
    (earlier ++ [segment]).mapM (Segment.shown? store) = some (texts ++ [s]) := by
  rw [List.mapM_append, hearlier, List.mapM_cons, hs]
  rfl

theorem shows_fillTemplate (h : store.Written) {earlier : List Segment} {texts : List String}
    (hearlier : earlier.mapM (Segment.shown? store) = some texts) (segments : List Segment) :
    Shows store (earlier ++ segments) (fillTemplate store (String.join texts) segments) := by
  induction segments generalizing earlier texts with
  | nil =>
      rw [List.append_nil]
      exact Or.inl ⟨texts, hearlier, rfl⟩
  | cons segment rest ih =>
      have hnext : ∀ s, segment.shown? store = some s →
          Shows store (earlier ++ segment :: rest)
            (fillTemplate store (String.join texts ++ s) rest) := by
        intro s hs
        have hshows := ih (mapM_shown?_concat hearlier hs)
        rw [List.append_assoc, List.singleton_append, String.join_append, String.join_cons,
          String.join_nil, String.append_empty] at hshows
        exact hshows
      cases segment with
      | text s => exact hnext s rfl
      | var name =>
          rw [fillTemplate, Store.fetch]
          cases hget : store.get? name with
          | none => exact Or.inr ⟨earlier, name, rest, texts, rfl, hearlier, hget, rfl⟩
          | some v =>
              simp only [(h name v hget).toText]
              exact hnext v.text (by rw [Segment.shown?, hget, Option.map_some])

end Evaluation

namespace Tree

variable {store : Store}

/-- A template and the sum of its segments have the same value, whatever the segments are: the
texts of all of them one after the other, or the error that the first variable that is missing
does not exist.  Neither does anything but compute the value.  So a value is written in the same
way where it is inserted, where it is added to a string and where it is cast to one. -/
theorem interpolation_is_concatenation (h : store.Written) (segments : List Segment) :
    (∃ value, (template segments).Yields store value ∧
      (concatenation segments).Yields store value ∧ Shows store segments value) ∧
    ∀ name v, store.get? name = some v →
      (template [.var name]).Yields store (.string v.text) ∧
      (cast (get name) .string).Yields store (.string v.text) ∧
      ∀ s, (binary .add (literal (.string s)) (get name)).Yields store (.string (s ++ v.text)) ∧
        (binary .add (get name) (literal (.string s))).Yields store (.string (v.text ++ s)) := by
  constructor
  · refine ⟨Evaluation.fillTemplate store "" segments, yields_template segments, ?_, ?_⟩
    · rw [Evaluation.fillTemplate_eq_foldl h]
      exact (yields_literal (.string "")).foldl_add segments
    · have hnothing : [].mapM (Segment.shown? store) = some [] := rfl
      exact Evaluation.shows_fillTemplate h hnothing segments
  · intro name v hget
    have hv : v.Written := h name v hget
    have hname : (get name).Yields store v := yields_bound hget
    refine ⟨?_, ?_, ?_⟩
    · have hfilled : (template [.var name]).Yields store _ := yields_template [.var name]
      rw [Evaluation.fillTemplate_eq_foldl h, List.foldl_cons, Segment.value, Store.fetch, hget,
        List.foldl_nil] at hfilled
      rwa [hv.add_right, String.empty_append] at hfilled
    · have hcast := hname.cast .string
      rwa [Value.cast, hv.toText] at hcast
    · intro s
      have hright := (yields_literal (.string s)).add hname
      have hleft := hname.add (yields_literal (.string s))
      rw [hv.add_right] at hright
      rw [hv.add_left] at hleft
      exact ⟨hright, hleft⟩

theorem interpolation_is_concatenation_mixed :
    let store : Store := Dictionary.ofList [("x", .number 1.5), ("yes", .boolean true)]
    let segments : List Segment := [.var "x", .text "$ ", .var "yes"]
    let missing : Value := .ofCause (.notDefined "z")
    store.Written ∧ store.get? "x" = some (.number 1.5) ∧
      ((template segments).Yields store (.string "1.5$ true") ∧
        (concatenation segments).Yields store (.string "1.5$ true")) ∧
      ((template (segments ++ [.var "z"])).Yields store missing ∧
        (concatenation (segments ++ [.var "z"])).Yields store missing) ∧
      (cast (get "x") .string).Yields store (.string "1.5") := by
  intro store segments missing
  have hwritten : store.Written :=
    Store.written_insert (Store.written_insert Store.written_empty "x" (.number 1.5)) "yes"
      (.boolean true)
  have hget : store.get? "x" = some (.number 1.5) := rfl
  have htext : Number.text 1.5 = "1.5" := by decide +kernel
  have hfull : (template segments).Yields store (.string "1.5$ true") := by
    have hfilled : (template segments).Yields store
        (.string ("" ++ Number.text 1.5 ++ "$ " ++ "true")) := yields_template segments
    rwa [htext] at hfilled
  have hmissing : (template (segments ++ [.var "z"])).Yields store missing :=
    yields_template (segments ++ [.var "z"])
  rcases interpolation_is_concatenation hwritten segments with ⟨⟨full, htemplate, hsum, _⟩, hx⟩
  rcases interpolation_is_concatenation hwritten (segments ++ [.var "z"]) with
    ⟨⟨failed, htemplate', hsum', _⟩, _⟩
  have hcast := (hx "x" (.number 1.5) hget).2.1
  rw [Value.text, htext] at hcast
  exact ⟨hwritten, hget, ⟨hfull, hfull.unique htemplate ▸ hsum⟩,
    ⟨hmissing, hmissing.unique htemplate' ▸ hsum'⟩, hcast⟩

end Tree

end Blockwise
