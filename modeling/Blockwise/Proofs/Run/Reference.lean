import Blockwise.Evaluation
import Blockwise.Program
import Blockwise.Proofs.Dialogue

/-!
# The sequential run of a program

A program carried out block by block with a script, by itself and with nobody watching: what it
shows, and how it ends.  It shows the blocks that it enters, the value and the variables that each
leaves, the lines that are written, and that there is nothing left to carry out.  A run need not
end, so it is followed for a number of blocks.
-/

namespace Blockwise

inductive Observation where
  | entered (block : BlockId)
  | wrote (line : String)
  | left (value : Value) (store : Store)

namespace Observation

def line? : Observation → Option String
  | wrote line => some line
  | _ => none

end Observation

inductive Ending where
  | finished
  | failed (fault : Fault)
  deriving DecidableEq

/-- What has been seen of a run, and how it ended, if it has. -/
structure Account where
  shown : List Observation
  ending : Option Ending

namespace Account

def after (shown : List Observation) (account : Account) : Account where
  shown := shown ++ account.shown
  ending := account.ending

@[simp] theorem after_nil (account : Account) : account.after [] = account := rfl

theorem after_after (shown shown' : List Observation) (account : Account) :
    (account.after shown').after shown = account.after (shown ++ shown') := by
  simp [after]

end Account

namespace Program

def choose (value : Value) : Successor → Except Fault BlockId
  | .next target => .ok target
  | .branch onTrue onFalse =>
      match value.toBoolean with
      | .boolean b => .ok (if b then onTrue else onFalse)
      | .error fault => .error fault
      | other => .error (Cause.badCast other.type .boolean).fault

structure Position where
  current : BlockId
  store : Store
  script : Script

def depart (go : Position → Account) (step : Step) (value : Value) (store : Store)
    (script : Script) : Account :=
  match choose value step.successor with
  | .ok target => go ⟨target, store, script⟩
  | .error fault => ⟨[], some (.failed fault)⟩

def said (before after : Script) : List String :=
  after.output.toList.drop before.output.size

def conclude (go : Position → Account) (step : Step) (lines : List String) (script : Script) :
    Value × Store → Account
  | (.error fault, _) => ⟨lines.map .wrote, some (.failed fault)⟩
  | (value, store) =>
      (depart go step value store script).after (lines.map .wrote ++ [.left value store])

/-- Holds what is left of a block's evaluation with the script, and goes on from there. -/
def attend (go : Position → Account) (step : Step) (talk : Dialogue (Value × Store))
    (script : Script) : Account :=
  let outcome := talk.perform script
  conclude go step (said script outcome.2) outcome.2 outcome.1

def follow (program : Program) : (blocks : Nat) → Position → Account
  | 0, _ => ⟨[], none⟩
  | blocks + 1, position =>
      match program.get? position.current with
      | none => ⟨[], some .finished⟩
      | some step =>
          (attend (program.follow blocks) step (step.tree.evaluate position.store)
            position.script).after [.entered position.current]

/-- The sequential run with the lines as its input, followed for a number of blocks. -/
def reference (program : Program) (lines : List String) (blocks : Nat) : Account :=
  program.follow blocks ⟨program.entry, ∅, .ofInput lines⟩

/-!
# Only the lines of the script matter

What a script has written so far does not matter for how a run goes on, so it can be taken off and
put back.
-/

variable {go : Position → Account}

def Blind (go : Position → Account) : Prop :=
  ∀ current store script, go ⟨current, store, script⟩ =
    go ⟨current, store, .ofInput script.input⟩

theorem depart_script (hgo : Blind go) (step : Step) (value : Value) (store : Store)
    (script : Script) :
    depart go step value store script = depart go step value store (.ofInput script.input) := by
  unfold depart
  cases choose value step.successor with
  | ok target => exact hgo target store script
  | error fault => rfl

theorem conclude_script (hgo : Blind go) (step : Step) (lines : List String) (script : Script)
    (result : Value × Store) :
    conclude go step lines script result =
      conclude go step lines (.ofInput script.input) result := by
  rcases result with ⟨value, store⟩
  cases value <;> simp only [conclude, depart_script hgo step _ store script]

theorem conclude_cons (step : Step) (line : String) (lines : List String) (script : Script)
    (result : Value × Store) :
    conclude go step (line :: lines) script result =
      (conclude go step lines script result).after [.wrote line] := by
  rcases result with ⟨value, store⟩
  cases value <;> simp [conclude, Account.after]

theorem attend_eq (hgo : Blind go) (step : Step) (talk : Dialogue (Value × Store))
    (script : Script) :
    attend go step talk script =
      conclude go step (talk.perform (.ofInput script.input)).2.output.toList
        (.ofInput (talk.perform (.ofInput script.input)).2.input)
        (talk.perform (.ofInput script.input)).1 := by
  rw [attend, Dialogue.perform_eq talk script, conclude_script hgo]
  simp [said]

theorem attend_script (hgo : Blind go) (step : Step) (talk : Dialogue (Value × Store))
    (script : Script) :
    attend go step talk script = attend go step talk (.ofInput script.input) := by
  rw [attend_eq hgo, attend_eq hgo]
  rfl

theorem blind_follow (program : Program) (blocks : Nat) : Blind (program.follow blocks) := by
  induction blocks with
  | zero =>
      intro current store script
      rfl
  | succ blocks ih =>
      intro current store script
      cases hget : program.get? current with
      | none => simp only [follow, hget]
      | some step => simp only [follow, hget, attend_script ih step _ script]

/-!
# Holding a dialogue one exchange at a time

An exchange uses up one line of the script, or adds one to what is written.
-/

theorem attend_done (go : Position → Account) (step : Step) (result : Value × Store)
    (script : Script) :
    attend go step (.done result) script = conclude go step [] script result := by
  have hsaid : said script script = [] := List.drop_eq_nil_of_le (by simp)
  simp only [attend, Dialogue.perform, hsaid]

theorem attend_write (hgo : Blind go) (step : Step) (line : String)
    (next : Dialogue (Value × Store)) (input : List String) :
    attend go step (.write line next) (.ofInput input) =
      (attend go step next (.ofInput input)).after [.wrote line] := by
  rw [attend_eq hgo, attend_eq hgo, ← conclude_cons, Dialogue.perform, Dialogue.perform_eq]
  simp [Script.record, Script.ofInput]

def answerFrom : List String → Except Fault String
  | line :: _ => .ok line
  | [] => .error Cause.interrupted.fault

theorem attend_read (hgo : Blind go) (step : Step) (prompt : String)
    (next : Except Fault String → Dialogue (Value × Store)) (input : List String) :
    attend go step (.read prompt next) (.ofInput input) =
      attend go step (next (answerFrom input)) (.ofInput input.tail) := by
  rw [attend_eq hgo, attend_eq hgo, Dialogue.perform, Dialogue.perform_eq]
  cases input with
  | nil => simp [Script.answer, Script.ofInput, answerFrom]
  | cons line rest => simp [Script.answer, Script.ofInput, answerFrom]

/-!
# Following a run further

A run that is followed further goes on from where it was left, and stays as it is if it had ended.
So it has one ending at most.
-/

def Extends (go further : Position → Account) : Prop :=
  ∀ position ending, (go position).ending = some ending → further position = go position

theorem conclude_extends {further : Position → Account} (hgo : Extends go further) (step : Step)
    (lines : List String) (script : Script) {result : Value × Store} {ending : Ending}
    (h : (conclude go step lines script result).ending = some ending) :
    conclude further step lines script result = conclude go step lines script result := by
  rcases result with ⟨value, store⟩
  have hdepart : (depart go step value store script).ending = some ending →
      depart further step value store script = depart go step value store script := by
    unfold depart
    cases choose value step.successor with
    | ok target => exact hgo ⟨target, store, script⟩ ending
    | error fault => exact fun _ => rfl
  cases value with
  | error fault => rfl
  | _ => simp only [conclude, hdepart h]

theorem follow_add (program : Program) (blocks more : Nat) :
    Extends (program.follow blocks) (program.follow (blocks + more)) := by
  induction blocks with
  | zero =>
      intro position ending h
      cases h
  | succ blocks ih =>
      intro position ending h
      rw [Nat.add_right_comm]
      cases hget : program.get? position.current with
      | none => simp only [follow, hget]
      | some step =>
          simp only [follow, hget] at h ⊢
          rw [attend, attend, conclude_extends ih step _ _ h]

/-- However far a run is followed, it has one ending at most. -/
theorem ends_iff {program : Program} {lines : List String} {blocks : Nat} {ending ending' : Ending}
    (h : (program.reference lines blocks).ending = some ending) :
    (∃ blocks', (program.reference lines blocks').ending = some ending') ↔ ending' = ending := by
  constructor
  · intro hgiven
    rcases hgiven with ⟨blocks', h'⟩
    have hmore := follow_add program blocks blocks' _ _ h
    have hmore' := follow_add program blocks' blocks _ _ h'
    rw [Nat.add_comm] at hmore'
    have hsame : program.reference lines blocks = program.reference lines blocks' :=
      hmore.symm.trans hmore'
    rw [hsame, h'] at h
    exact Option.some.inj h
  · intro hgiven
    subst hgiven
    exact ⟨blocks, h⟩

end Program

end Blockwise
