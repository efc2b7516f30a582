import Blockwise.Fault.Cause

/-!
# Dialogues

What an evaluation does with the outside, laid out as data: it ends with a result, writes a line
and goes on, or asks for a line and goes on with the answer.  The same dialogue can be held with
a prepared script or, one exchange at a time, with a console that takes its time.
-/

namespace Blockwise

inductive Dialogue (α : Type) where
  | done (result : α)
  | write (line : String) (next : Dialogue α)
  | read (prompt : String) (next : Except Fault String → Dialogue α)

namespace Dialogue

variable {α β γ : Type}

protected def bind : Dialogue α → (α → Dialogue β) → Dialogue β
  | done result, f => f result
  | write line next, f => write line (next.bind f)
  | read prompt next, f => read prompt fun answer => (next answer).bind f

instance : Monad Dialogue where
  pure := done
  bind := Dialogue.bind

theorem bind_done (d : Dialogue α) : d.bind done = d := by
  induction d with
  | done result => rfl
  | write line next ih => simp [Dialogue.bind, ih]
  | read prompt next ih => simp [Dialogue.bind, ih]

theorem bind_assoc (d : Dialogue α) (f : α → Dialogue β) (g : β → Dialogue γ) :
    (d.bind f).bind g = d.bind fun a => (f a).bind g := by
  induction d with
  | done result => rfl
  | write line next ih => simp [Dialogue.bind, ih]
  | read prompt next ih => simp [Dialogue.bind, ih]

instance : LawfulMonad Dialogue :=
  LawfulMonad.mk' Dialogue (fun d => bind_done d) (fun _ _ => rfl) bind_assoc

def say (line : String) : Dialogue Unit :=
  write line (done ())

def ask (prompt : String) : Dialogue (Except Fault String) :=
  read prompt done

end Dialogue

/-!
# Scripts

A script answers reads from lines prepared in advance and records what is said.  When the lines
run out, a read is answered as one that was called off.
-/

structure Script where
  input : List String
  output : Array String
  prompts : Array String

namespace Script

def ofInput (lines : List String) : Script :=
  ⟨lines, #[], #[]⟩

/-- The answer to a read, and the script after it. -/
def answer (script : Script) (prompt : String) : Except Fault String × Script :=
  let asked := { script with prompts := script.prompts.push prompt }
  match script.input with
  | line :: rest => (.ok line, { asked with input := rest })
  | [] => (.error Cause.interrupted.fault, asked)

def record (script : Script) (line : String) : Script :=
  { script with output := script.output.push line }

end Script

namespace Dialogue

variable {α : Type}

/-- Holds a dialogue with a script. -/
def perform : Dialogue α → Script → α × Script
  | done result, script => (result, script)
  | write line next, script => next.perform (script.record line)
  | read prompt next, script =>
      (next (script.answer prompt).1).perform (script.answer prompt).2

end Dialogue

end Blockwise
