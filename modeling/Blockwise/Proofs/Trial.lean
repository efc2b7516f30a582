import Blockwise.Proofs.Evaluation

/-!
# Evaluations that may crash

Nothing can go wrong in an evaluation but what its value says.  A trial is an evaluation of which
that is not known: it may run into a branch that was meant to be out of reach, or look for an
argument that is not there.  It has no value then, and nothing that would come later happens.
-/

namespace Blockwise

inductive Crash where
  | unreachable
  | outOfRange (index length : Nat)
  deriving DecidableEq, Repr

/-- Work on a store in a dialogue that a crash may end. -/
abbrev Trial := StateT Store (ExceptT Crash Dialogue)

theorem Dialogue.ensures_true {α : Type} (d : Dialogue α) :
    d.Ensures (fun _ => True) fun _ => True := by
  induction d with
  | done result => trivial
  | write line rest ih => exact ih
  | read prompt rest ih => exact fun answer _ => ih answer

theorem Dialogue.Ensures.bind_congr {α β : Type} {Result : α → Prop} {d : Dialogue α}
    {next next' : α → Dialogue β} (h : d.Ensures (fun _ => True) Result)
    (hnext : ∀ a, Result a → next a = next' a) : d >>= next = d >>= next' := by
  change d.bind next = d.bind next'
  induction d with
  | done result => exact hnext result h
  | write line rest ih => exact congrArg (write line) (ih h)
  | read prompt rest ih =>
      exact congrArg (read prompt) (funext fun answer => ih answer (h answer trivial))

namespace Trial

variable {α β : Type}

def ofResult (result : Except Crash α) : Trial α :=
  StateT.lift (ExceptT.mk (pure result))

def ofEvaluation (m : Evaluation α) : Trial α :=
  fun store => ExceptT.lift (m store)

@[simp] theorem ofResult_ok (a : α) : ofResult (.ok a) = pure a := rfl

theorem ofEvaluation_pure (a : α) : ofEvaluation (pure a) = pure a := rfl

theorem ofEvaluation_bind (m : Evaluation α) (next : α → Evaluation β) :
    ofEvaluation (m >>= next) = ofEvaluation m >>= fun a => ofEvaluation (next a) := by
  funext store
  exact ExceptT.lift_bind _ _

/-!
# How trials end

However its reads are answered, a trial comes to a result or to a crash.
-/

def Outcome (Crashes : Crash → Prop) (Result : α → Prop) : Except Crash (α × Store) → Prop
  | .ok r => Result r.1
  | .error crash => Crashes crash

/-- However its reads are answered, the trial ends with a result as `Result` says, or with a crash
as `Crashes` says. -/
def Ends (Crashes : Crash → Prop) (Result : α → Prop) (m : Trial α) : Prop :=
  ∀ store, Dialogue.Ensures (fun _ => True) (Outcome Crashes Result) (m store)

variable {Crashes : Crash → Prop} {Result : α → Prop} {Middle : β → Prop} {m : Trial β}
  {next next' : β → Trial α}

theorem ends_pure {a : α} (h : Result a) : Ends Crashes Result (pure a) :=
  fun _ => h

theorem ends_get : Ends Crashes (fun _ => True) StateT.get :=
  fun _ => trivial

theorem Ends.bind (h : Ends Crashes Middle m)
    (hnext : ∀ b, Middle b → Ends Crashes Result (next b)) :
    Ends Crashes Result (m >>= next) := by
  intro store
  refine Dialogue.Ensures.bind (h store) ?_
  intro outcome houtcome
  cases outcome with
  | ok r => exact hnext r.1 houtcome r.2
  | error crash => exact houtcome

theorem ends_ofResult {result : Except Crash α} (hok : ∀ a, result = .ok a → Result a)
    (hcrash : ∀ crash, result = .error crash → Crashes crash) :
    Ends Crashes Result (ofResult result) := by
  intro store
  cases result with
  | ok a => exact hok a rfl
  | error crash => exact hcrash crash rfl

theorem ends_ofEvaluation (m : Evaluation α) : Ends Crashes (fun _ => True) (ofEvaluation m) :=
  fun store => (m store).ensures_true.bind fun _ _ => trivial

theorem Ends.bind_congr (h : Ends Crashes Middle m) (hnext : ∀ b, Middle b → next b = next' b) :
    m >>= next = m >>= next' := by
  funext store
  refine Dialogue.Ensures.bind_congr (h store) ?_
  intro outcome houtcome
  cases outcome with
  | ok r => exact congrFun (hnext r.1 houtcome) r.2
  | error crash => rfl

end Trial
end Blockwise
