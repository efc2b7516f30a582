import Blockwise.Proofs.Dialogue
import Blockwise.Proofs.Dictionary
import Blockwise.Proofs.Evaluation.Purity

/-!
# What each block may touch

A decision touches nothing, and an output block writes at most one line.  The blocks that give
values to variables go through their items from left to right and stop at the first that fails;
only an input block uses the script for this, and it takes one line for each of its variables.
-/

namespace Blockwise

/-- The tree has the value in the store, and evaluating it does nothing else. -/
def Tree.Yields (tree : Tree) (store : Store) (value : Value) : Prop :=
  tree.evaluate store = .done (value, store)

namespace Store

structure Extends (store store' : Store) (names : List String) : Prop where
  kept : ∀ name value, store.get? name = some value → store'.get? name = some value
  listed : ∀ name, store.contains name = false → store'.contains name = true → name ∈ names

structure Updates (store store' : Store) (names : List String) : Prop where
  same : ∀ name, store'.contains name = store.contains name
  listed : ∀ name, store'.get? name ≠ store.get? name → name ∈ names

end Store

namespace Evaluation

/-!
# Assignments

The items of a block of assignments go into the store one after the other, each with the value that
its expression has at this point.  An item is refused if its variable exists or is missing, or if
its expression has an error.
-/

def assignments (declares : Bool) (items : List (String × Tree)) : Tree :=
  .sequence (items.map fun item => .set item.1 item.2 declares)

inductive Assigned (declares : Bool) : Store → List (String × Tree) → Store → Prop where
  | nil {store : Store} : Assigned declares store [] store
  | cons {store store' : Store} {name : String} {e : Tree} {value : Value}
      {rest : List (String × Tree)} :
      store.contains name = !declares → e.Yields store value → value.isError = false →
      Assigned declares (store.insert name value) rest store' →
      Assigned declares store ((name, e) :: rest) store'

inductive Refused (declares : Bool) (store : Store) : String × Tree → Value → Prop where
  | defined {name : String} {e : Tree} :
      declares = true → store.contains name = true →
      Refused declares store (name, e) (.ofCause (.alreadyDefined name))
  | missing {name : String} {e : Tree} :
      declares = false → store.contains name = false →
      Refused declares store (name, e) (.ofCause (.notDefined name))
  | value {name : String} {e : Tree} {value : Value} :
      store.contains name = !declares → e.Yields store value → value.isError = true →
      Refused declares store (name, e) value

/-- All assignments succeed and the value is empty, or those before one that fails do, and the
value is its error. -/
def CarriedOut (declares : Bool) (items : List (String × Tree)) (store : Store) (value : Value)
    (store' : Store) : Prop :=
  (Assigned declares store items store' ∧ value = .empty) ∨
    ∃ before item after, items = before ++ item :: after ∧
      Assigned declares store before store' ∧ Refused declares store' item value

/-!
# Questions

The questions of a block are answered one after the other, each by a line that converts to the type
of its variable.  A question halts if its variable exists, if its line does not convert, or if there
is no line.
-/

def questions (items : List (String × ValueType)) : Tree :=
  .sequence (items.map fun item => .set item.1 (.read item.1 item.2) true)

def prompts (items : List (String × ValueType)) : List String :=
  items.map fun item => prompt item.1 item.2

inductive Received :
    Store → List String → List (String × ValueType) → Store → List String → Prop where
  | nil {store : Store} {lines : List String} : Received store lines [] store lines
  | cons {store store' : Store} {line : String} {lines lines' : List String} {name : String}
      {target : ValueType} {rest : List (String × ValueType)} :
      store.contains name = false → (ofLine target line).isError = false →
      Received (store.insert name (ofLine target line)) lines rest store' lines' →
      Received store (line :: lines) ((name, target) :: rest) store' lines'

inductive Halted (store : Store) :
    List String → String × ValueType → Value → List String → List String → Prop where
  | defined {lines : List String} {name : String} {target : ValueType} :
      store.contains name = true →
      Halted store lines (name, target) (.ofCause (.alreadyDefined name)) [] lines
  | unconverted {line : String} {lines : List String} {name : String} {target : ValueType} :
      store.contains name = false → (ofLine target line).isError = true →
      Halted store (line :: lines) (name, target) (ofLine target line) [prompt name target] lines
  | exhausted {name : String} {target : ValueType} :
      store.contains name = false →
      Halted store [] (name, target) (.error Cause.interrupted.fault) [prompt name target] []

/-- All questions are answered and the value is empty, or those before one that fails are, and
the value is its error.  Nothing is written. -/
def Asked (items : List (String × ValueType)) (store : Store) (script : Script) (value : Value)
    (store' : Store) (script' : Script) : Prop :=
  script'.output = script.output ∧
    ((Received store script.input items store' script'.input ∧ value = .empty ∧
        script'.prompts.toList = script.prompts.toList ++ prompts items) ∨
      ∃ before item after lines asked, items = before ++ item :: after ∧
        Received store script.input before store' lines ∧
        Halted store' lines item value asked script'.input ∧
        script'.prompts.toList = script.prompts.toList ++ prompts before ++ asked)

/-!
# Blocks

A role says which of this a block does.  The blocks that hold no source never get as far as this.
-/

/-- What a block of the role does to the store and the script, and the value that it ends with.
The blocks that hold no source never get as far as this. -/
def Effects (role : Role) (tree : Tree) (store : Store) (script : Script) (value : Value)
    (store' : Store) (script' : Script) : Prop :=
  match role with
  | .start | .finish => False
  | .decision => tree.Yields store value ∧ store' = store ∧ script' = script
  | .output =>
      store' = store ∧ ∃ e v, tree = .write e ∧ e.Yields store v ∧
        ((∃ line, v.toText = .string line ∧ value = .empty ∧ script' = script.record line) ∨
          (value = v.toText ∧ value.isError = true ∧ script' = script))
  | .declaration =>
      script' = script ∧ ∃ items, tree = assignments true items ∧
        CarriedOut true items store value store' ∧ store.Extends store' (items.map Prod.fst)
  | .assignment =>
      script' = script ∧ ∃ items, tree = assignments false items ∧
        CarriedOut false items store value store' ∧ store.Updates store' (items.map Prod.fst)
  | .input => ∃ items, tree = questions items ∧ Asked items store script value store' script'

/-!
# Giving a value to a variable

What a name lacks is found before the value is evaluated, and once more when it is stored.
-/

variable {declares : Bool} {name : String} {store store' : Store}

theorem evaluate_set (name : String) (tree : Tree) (declares : Bool) (store : Store) :
    (Tree.set name tree declares).evaluate store =
      match checkTarget store name declares with
      | .error cause => .done (.ofCause cause, store)
      | .ok _ => (tree.evaluate store).bind fun r =>
          if r.1.isError then .done r else assign name declares r.1 r.2 := by
  rw [Tree.evaluate]
  change (match checkTarget store name declares with
    | .error cause => (pure (.ofCause cause) : Evaluation Value)
    | .ok _ => _) store = _
  cases checkTarget store name declares with
  | error cause => rfl
  | ok u =>
      change (tree.evaluate store).bind _ = _
      congr 1
      funext r
      rcases r with ⟨value, after⟩
      dsimp only
      cases value.isError with
      | true => rfl
      | false => rfl

theorem checkTarget_of_ready (h : store.contains name = !declares) :
    checkTarget store name declares = .ok () := by
  unfold checkTarget
  cases declares <;> simp_all

theorem checkTarget_of_defined (h : store.contains name = true) :
    checkTarget store name true = .error (.alreadyDefined name) := by
  simp [checkTarget, h]

theorem checkTarget_of_missing (h : store.contains name = false) :
    checkTarget store name false = .error (.notDefined name) := by
  simp [checkTarget, h]

theorem assign_of_ready (h : store.contains name = !declares) (value : Value) :
    assign name declares value store = .done (.empty, store.insert name value) := by
  have hstored : (if declares then Store.declare store name value
      else Store.assign store name value) = .ok (store.insert name value) := by
    cases declares <;> simp_all [Store.declare, Store.assign]
  simp only [assign, bind, StateT.bind, get, getThe, MonadStateOf.get, StateT.get, pure,
    Dialogue.bind, hstored]
  rfl

/-!
# Running assignments

One assignment is carried out, or it is refused and nothing changes.
-/

theorem assign_step {e : Tree} (he : e.Expression) (name : String) (declares : Bool)
    (store : Store) :
    (∃ value, store.contains name = !declares ∧ e.Yields store value ∧ value.isError = false ∧
      (Tree.set name e declares).evaluate store = .done (.empty, store.insert name value)) ∨
    ∃ value, Refused declares store (name, e) value ∧ value.isError = true ∧
      (Tree.set name e declares).evaluate store = .done (value, store) := by
  rw [evaluate_set]
  -- the variable is checked first, so a refused target leaves its expression alone
  by_cases hready : store.contains name = !declares
  · rw [checkTarget_of_ready hready]
    rcases Tree.quiet_expression e he store with ⟨value, hvalue⟩
    simp only [hvalue, Dialogue.bind]
    cases herror : value.isError with
    | true => exact Or.inr ⟨value, Refused.value hready hvalue herror, herror, by simp⟩
    | false => exact Or.inl ⟨value, hready, hvalue, herror, by simp [assign_of_ready hready]⟩
  · right
    cases declares with
    | true =>
        have hdefined : store.contains name = true := by simpa using hready
        rw [checkTarget_of_defined hdefined]
        exact ⟨_, Refused.defined rfl hdefined, rfl, rfl⟩
    | false =>
        have hmissing : store.contains name = false := by simpa using hready
        rw [checkTarget_of_missing hmissing]
        exact ⟨_, Refused.missing rfl hmissing, rfl, rfl⟩

theorem evaluateSequence_cons (last : Value) (tree : Tree) (rest : List Tree) (store : Store) :
    Tree.evaluateSequence last (tree :: rest) store =
      (tree.evaluate store).bind fun r =>
        if r.1.isError then .done r else Tree.evaluateSequence r.1 rest r.2 := by
  rw [Tree.evaluateSequence]
  change (tree.evaluate store).bind _ = _
  congr 1
  funext r
  rcases r with ⟨value, after⟩
  dsimp only
  cases value.isError with
  | true => rfl
  | false => rfl

theorem CarriedOut.cons {e : Tree} {value result : Value} {rest : List (String × Tree)}
    (hready : store.contains name = !declares) (hvalue : e.Yields store value)
    (herror : value.isError = false)
    (h : CarriedOut declares rest (store.insert name value) result store') :
    CarriedOut declares ((name, e) :: rest) store result store' := by
  rcases h with ⟨hall, hempty⟩ | ⟨before, item, after, rfl, hbefore, hrefused⟩
  · exact Or.inl ⟨Assigned.cons hready hvalue herror hall, hempty⟩
  · exact Or.inr ⟨(name, e) :: before, item, after, rfl,
      Assigned.cons hready hvalue herror hbefore, hrefused⟩

theorem evaluate_assignments {items : List (String × Tree)}
    (hitems : ∀ item ∈ items, item.2.Expression) (declares : Bool) (store : Store) :
    ∃ value store', (assignments declares items).evaluate store = .done (value, store') ∧
      CarriedOut declares items store value store' := by
  rw [assignments, Tree.evaluate]
  induction items generalizing store with
  | nil => exact ⟨.empty, store, rfl, Or.inl ⟨Assigned.nil, rfl⟩⟩
  | cons item rest ih =>
      rcases item with ⟨name, e⟩
      have hrest := fun item hitem => hitems item (List.mem_cons_of_mem _ hitem)
      rw [List.map_cons, evaluateSequence_cons]
      rcases assign_step (hitems (name, e) List.mem_cons_self) name declares store with
        ⟨value, hready, hvalue, herror, hstep⟩ | ⟨value, hrefused, herror, hstep⟩
      · rw [hstep]
        rcases ih hrest (store.insert name value) with ⟨result, store', hrun, hcarried⟩
        exact ⟨result, store', hrun, hcarried.cons hready hvalue herror⟩
      · rw [hstep]
        exact ⟨value, store, by simp [Dialogue.bind, herror],
          Or.inr ⟨[], (name, e), rest, rfl, Assigned.nil, hrefused⟩⟩

theorem CarriedOut.assigned {items : List (String × Tree)} {value : Value}
    (h : CarriedOut declares items store value store') :
    ∃ done, Assigned declares store done store' ∧
      ∀ name ∈ done.map Prod.fst, name ∈ items.map Prod.fst := by
  rcases h with ⟨hall, _⟩ | ⟨before, item, after, rfl, hbefore, _⟩
  · exact ⟨items, hall, fun _ hname => hname⟩
  · refine ⟨before, hbefore, ?_⟩
    intro name hname
    rw [List.map_append]
    exact List.mem_append_left _ hname

theorem Assigned.extends {items : List (String × Tree)} (h : Assigned true store items store') :
    store.Extends store' (items.map Prod.fst) := by
  induction h with
  | nil =>
      constructor
      · exact fun _ _ hget => hget
      · intro name hbefore hafter
        rw [hbefore] at hafter
        cases hafter
  | @cons store store' name e value rest hready _ _ _ ih =>
      constructor
      · intro other v hget
        have hother : other ≠ name := by
          rintro rfl
          simp [Dictionary.contains, hget] at hready
        apply ih.kept
        rw [Dictionary.get?_insert, if_neg hother]
        exact hget
      · intro other hbefore hafter
        by_cases hother : other = name
        · rw [hother]
          exact List.mem_cons_self
        · apply List.mem_cons_of_mem
          apply ih.listed other _ hafter
          simp [Dictionary.contains_insert, hother, hbefore]

theorem Assigned.updates {items : List (String × Tree)} (h : Assigned false store items store') :
    store.Updates store' (items.map Prod.fst) := by
  induction h with
  | nil => exact ⟨fun _ => rfl, fun _ hne => absurd rfl hne⟩
  | @cons store store' name e value rest hready _ _ _ ih =>
      constructor
      · intro other
        rw [ih.same, Dictionary.contains_insert]
        by_cases hother : other = name
        · simp [hother, hready]
        · simp [hother]
      · intro other hne
        by_cases hother : other = name
        · rw [hother]
          exact List.mem_cons_self
        · apply List.mem_cons_of_mem
          apply ih.listed
          rw [Dictionary.get?_insert, if_neg hother]
          exact hne

theorem CarriedOut.extends {items : List (String × Tree)} {value : Value}
    (h : CarriedOut true items store value store') :
    store.Extends store' (items.map Prod.fst) := by
  rcases h.assigned with ⟨done, hdone, hnames⟩
  exact ⟨hdone.extends.kept, fun name hbefore hafter =>
    hnames name (hdone.extends.listed name hbefore hafter)⟩

theorem CarriedOut.updates {items : List (String × Tree)} {value : Value}
    (h : CarriedOut false items store value store') :
    store.Updates store' (items.map Prod.fst) := by
  rcases h.assigned with ⟨done, hdone, hnames⟩
  exact ⟨hdone.updates.same, fun name hne => hnames name (hdone.updates.listed name hne)⟩

/-!
# Running questions

One question is answered by a line that converts, or it fails and the store stays.
-/

theorem evaluate_question (h : store.contains name = false) (target : ValueType) :
    (Tree.set name (.read name target) true).evaluate store =
      .read (prompt name target) fun answer =>
        match answer with
        | .ok line =>
            if (ofLine target line).isError then .done (ofLine target line, store)
            else .done (.empty, store.insert name (ofLine target line))
        | .error fault => .done (.error fault, store) := by
  rw [evaluate_set, checkTarget_of_ready (by simpa using h), Tree.evaluate]
  change Dialogue.read (prompt name target) _ = _
  congr 1
  funext answer
  cases answer with
  | error fault => rfl
  | ok line =>
      change (if (ofLine target line).isError then .done (ofLine target line, store)
        else assign name true (ofLine target line) store) = _
      rw [assign_of_ready (by simpa using h)]

theorem question_step (name : String) (target : ValueType) (store : Store) (script : Script) :
    (∃ line lines, script.input = line :: lines ∧ store.contains name = false ∧
      (ofLine target line).isError = false ∧
      ((Tree.set name (.read name target) true).evaluate store).perform script =
        ((.empty, store.insert name (ofLine target line)),
          ⟨lines, script.output, script.prompts.push (prompt name target)⟩)) ∨
    ∃ value lines asked, Halted store script.input (name, target) value asked lines ∧
      value.isError = true ∧
      ((Tree.set name (.read name target) true).evaluate store).perform script =
        ((value, store), ⟨lines, script.output, script.prompts ++ asked.toArray⟩) := by
  rcases script with ⟨input, output, given⟩
  cases hcontains : store.contains name with
  | true =>
      rw [evaluate_set, checkTarget_of_defined hcontains]
      exact Or.inr ⟨_, _, _, Halted.defined hcontains, rfl, by simp [Dialogue.perform]⟩
  | false =>
      rw [evaluate_question hcontains]
      cases input with
      | nil =>
          exact Or.inr ⟨_, _, _, Halted.exhausted hcontains, rfl,
            by simp [Dialogue.perform, Script.answer]⟩
      | cons line lines =>
          cases herror : (ofLine target line).isError with
          | true =>
              exact Or.inr ⟨_, _, _, Halted.unconverted hcontains herror, herror,
                by simp [Dialogue.perform, Script.answer, herror]⟩
          | false =>
              exact Or.inl ⟨line, lines, rfl, rfl, herror,
                by simp [Dialogue.perform, Script.answer, herror]⟩

theorem Asked.cons {target : ValueType} {rest : List (String × ValueType)} {line : String}
    {lines : List String} {script script' : Script} {value : Value}
    (hinput : script.input = line :: lines) (hfresh : store.contains name = false)
    (hline : (ofLine target line).isError = false)
    (h : Asked rest (store.insert name (ofLine target line))
      ⟨lines, script.output, script.prompts.push (prompt name target)⟩ value store' script') :
    Asked ((name, target) :: rest) store script value store' script' := by
  unfold Asked at h ⊢
  rw [hinput]
  rcases h with ⟨houtput, ⟨hall, hempty, hprompts⟩ |
    ⟨before, item, after, left, asked, rfl, hbefore, hhalted, hprompts⟩⟩
  · refine ⟨houtput, Or.inl ⟨Received.cons hfresh hline hall, hempty, ?_⟩⟩
    simpa [prompts] using hprompts
  · refine ⟨houtput, Or.inr ⟨(name, target) :: before, item, after, left, asked, rfl,
      Received.cons hfresh hline hbefore, hhalted, ?_⟩⟩
    simpa [prompts] using hprompts

theorem perform_questions (items : List (String × ValueType)) (store : Store) (script : Script) :
    ∃ value store' script',
      ((questions items).evaluate store).perform script = ((value, store'), script') ∧
      Asked items store script value store' script' := by
  rw [questions, Tree.evaluate]
  -- each answer changes the store and the script that the rest of the questions start from
  induction items generalizing store script with
  | nil =>
      exact ⟨.empty, store, script, rfl, rfl, Or.inl ⟨Received.nil, rfl, by simp [prompts]⟩⟩
  | cons item rest ih =>
      rcases item with ⟨name, target⟩
      rw [List.map_cons, evaluateSequence_cons, Dialogue.perform_bind]
      rcases question_step name target store script with
        ⟨line, lines, hinput, hfresh, hline, hstep⟩ | ⟨value, lines, asked, hhalted, herror, hstep⟩
      · rw [hstep]
        rcases ih (store.insert name (ofLine target line))
          ⟨lines, script.output, script.prompts.push (prompt name target)⟩ with
          ⟨value, store', script', hrun, hasked⟩
        exact ⟨value, store', script', hrun, hasked.cons hinput hfresh hline⟩
      · rw [hstep]
        refine ⟨value, store, ⟨lines, script.output, script.prompts ++ asked.toArray⟩, ?_, rfl,
          Or.inr ⟨[], (name, target), rest, script.input, asked, rfl, Received.nil, hhalted, ?_⟩⟩
        · simp [herror, Dialogue.perform]
        · simp [prompts]

/-!
# Writing

A line is written where its expression has a value.
-/

theorem toText_cases (value : Value) :
    (∃ line, value.toText = .string line) ∨ value.toText.isError = true := by
  cases value with
  | empty => exact Or.inr rfl
  | number x => exact Or.inl ⟨_, rfl⟩
  | string s => exact Or.inl ⟨s, rfl⟩
  | boolean b => exact Or.inl ⟨_, rfl⟩
  | error fault => exact Or.inr rfl

theorem evaluate_write {e : Tree} {value : Value} (h : e.Yields store value) :
    (Tree.write e).evaluate store = writeLine value store := by
  rw [Tree.evaluate]
  change (e.evaluate store).bind _ = _
  rw [h]
  rfl

theorem writeLine_of_line {value : Value} {line : String} (h : value.toText = .string line) :
    writeLine value store = .write line (.done (.empty, store)) := by
  unfold writeLine
  rw [h]
  rfl

theorem writeLine_of_error {value : Value} (h : value.toText.isError = true) :
    writeLine value store = .done (value.toText, store) := by
  unfold writeLine
  generalize value.toText = text at h ⊢
  cases text with
  | string line => cases h
  | _ => rfl

end Evaluation

/-!
# Compiled blocks

A compiled tree is made from the items of its block in the grammar, which settle what it does.
-/

namespace Grammar

open Blockwise.Evaluation

theorem Listed.exists_items {α : Type} {item : List Token → Tree → Prop} {P : α → Prop}
    {f : α → Tree} {tokens : List Token} {trees : List Tree} (h : Listed item tokens trees)
    (hitem : ∀ tokens tree, item tokens tree → (∀ token ∈ tokens, token.Named) →
      ∃ x, P x ∧ f x = tree)
    (hnamed : ∀ token ∈ tokens, token.Named) :
    ∃ xs : List α, (∀ x ∈ xs, P x) ∧ xs.map f = trees := by
  rcases h with ⟨items, -, hitems, rfl, rfl⟩
  have hsome : ∀ i ∈ items, ∃ x, P x ∧ f x = i.2 := by
    intro i hi
    apply hitem i.1 i.2 (hitems i hi)
    intro token htoken
    exact hnamed token (mem_separated (List.mem_map_of_mem hi) htoken)
  clear hitems hnamed
  induction items with
  | nil => exact ⟨[], by simp, rfl⟩
  | cons first rest ih =>
      rcases hsome first List.mem_cons_self with ⟨x, hx, hfirst⟩
      rcases ih fun i hi => hsome i (List.mem_cons_of_mem _ hi) with ⟨xs, hxs, hrest⟩
      refine ⟨x :: xs, List.forall_mem_cons.mpr ⟨hx, hxs⟩, ?_⟩
      rw [List.map_cons, List.map_cons, hfirst, hrest]

theorem Listed.questions {tokens : List Token} {trees : List Tree}
    (h : Listed Reading tokens trees) (hnamed : ∀ token ∈ tokens, token.Named) :
    ∃ items, Tree.sequence trees = questions items := by
  have hitem : ∀ tokens tree, Reading tokens tree → (∀ token ∈ tokens, token.Named) →
      ∃ item : String × ValueType, True ∧ Tree.set item.1 (.read item.1 item.2) true = tree := by
    intro tokens tree hreading _
    cases hreading with
    | @read s target => exact ⟨(s, target), trivial, rfl⟩
  rcases h.exists_items hitem hnamed with ⟨items, _, htrees⟩
  exact ⟨items, by rw [Evaluation.questions, htrees]⟩

theorem Listed.assignments {declares : Bool} {tokens : List Token} {trees : List Tree}
    (h : Listed (Assignment declares) tokens trees) (hnamed : ∀ token ∈ tokens, token.Named) :
    ∃ items, (∀ item ∈ items, item.2.Expression) ∧
      Tree.sequence trees = assignments declares items := by
  have hitem : ∀ tokens tree, Assignment declares tokens tree →
      (∀ token ∈ tokens, token.Named) →
      ∃ item : String × Tree, item.2.Expression ∧ Tree.set item.1 item.2 declares = tree := by
    intro tokens tree hassignment hnamed
    cases hassignment with
    | @assign s tokens tree hvalue =>
        refine ⟨(s, tree), hvalue.expression ?_, rfl⟩
        intro token htoken
        exact hnamed token (List.mem_cons_of_mem _ (List.mem_cons_of_mem _ htoken))
  rcases h.exists_items hitem hnamed with ⟨items, hitems, htrees⟩
  exact ⟨items, hitems, by rw [Evaluation.assignments, htrees]⟩

end Grammar

namespace Evaluation

open Grammar (BlockDerives)

theorem effects_of_derives {role : Role} {tokens : List Token} {tree : Tree}
    (h : BlockDerives role tokens tree) (hnamed : ∀ token ∈ tokens, token.Named) (store : Store)
    (script : Script) :
    ∃ value store' script',
      (tree.evaluate store).perform script = ((value, store'), script') ∧
      Effects role tree store script value store' script' := by
  cases h with
  | input hlisted =>
      have hrest := fun token htoken => hnamed token (List.mem_cons_of_mem _ htoken)
      rcases hlisted.questions hrest with ⟨items, htree⟩
      rw [htree]
      rcases perform_questions items store script with ⟨value, store', script', hrun, hasked⟩
      exact ⟨value, store', script', hrun, items, rfl, hasked⟩
  | @output tokens e hvalue =>
      rcases Tree.quiet_expression e (hvalue.expression hnamed) store with ⟨v, hv⟩
      rw [evaluate_write hv]
      rcases toText_cases v with ⟨line, hline⟩ | herror
      · rw [writeLine_of_line hline]
        exact ⟨_, store, _, rfl, rfl, e, v, rfl, hv, Or.inl ⟨line, hline, rfl, rfl⟩⟩
      · rw [writeLine_of_error herror]
        exact ⟨_, store, _, rfl, rfl, e, v, rfl, hv, Or.inr ⟨rfl, herror, rfl⟩⟩
  | decision hvalue =>
      rcases Tree.quiet_expression _ (hvalue.expression hnamed) store with ⟨v, hv⟩
      rw [hv]
      exact ⟨v, store, script, rfl, hv, rfl, rfl⟩
  | declaration hlisted =>
      rcases hlisted.assignments hnamed with ⟨items, hitems, htree⟩
      rw [htree]
      rcases evaluate_assignments hitems true store with ⟨value, store', hrun, hcarried⟩
      rw [hrun]
      exact ⟨value, store', script, rfl, rfl, items, rfl, hcarried, hcarried.extends⟩
  | assignment hlisted =>
      rcases hlisted.assignments hnamed with ⟨items, hitems, htree⟩
      rw [htree]
      rcases evaluate_assignments hitems false store with ⟨value, store', hrun, hcarried⟩
      rw [hrun]
      exact ⟨value, store', script, rfl, rfl, items, rfl, hcarried, hcarried.updates⟩

/-- A source that does not compile evaluates to its error and touches nothing.  Any other touches
what the effects of its role let it touch. -/
theorem evaluateSource_effects (role : Role) (source : String) (store : Store) (script : Script) :
    ∃ value store' script',
      (Tree.evaluateSource role source store).perform script = ((value, store'), script') ∧
      (∀ cause, Tree.ofSource role source = .error cause →
        value = .ofCause cause ∧ store' = store ∧ script' = script) ∧
      ∀ tree, Tree.ofSource role source = .ok tree →
        Effects role tree store script value store' script' := by
  unfold Tree.evaluateSource
  cases hsource : Tree.ofSource role source with
  | error cause =>
      refine ⟨.ofCause cause, store, script, rfl, ?_, ?_⟩
      · intro other hother
        cases hother
        exact ⟨rfl, rfl, rfl⟩
      · intro tree htree
        cases htree
  | ok tree =>
      rcases Tree.named_of_ofSource hsource with ⟨tokens, hderives, hnamed⟩
      rcases effects_of_derives hderives hnamed store script with
        ⟨value, store', script', hrun, heffects⟩
      refine ⟨value, store', script', hrun, ?_, ?_⟩
      · intro cause hcause
        cases hcause
      · intro other hother
        cases hother
        exact heffects

end Evaluation
end Blockwise
