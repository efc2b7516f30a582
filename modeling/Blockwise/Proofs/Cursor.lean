import Mathlib.Data.List.Chain
import Mathlib.Logic.Relation
import Mathlib.Order.WellFounded

/-!
# Programs that move a cursor

The readers of the model take what they read off the front of a list, so they cannot look past its
end, and they would not be accepted if they could go on for ever.  A program here has a cursor on a
row of symbols instead and calls procedures, loops among them, of which it may have many: nothing
keeps it from looking where nothing is, from calls without end, and from coming to a branch that
was meant to be out of reach.  A machine executes it one step after another.

Contracts say what the procedures are for, one procedure at a time.  Once every body meets its
contract, by the contracts of the procedures that it calls, the machine comes to an end.
-/

namespace Blockwise
namespace Cursor

variable {σ ε α β : Type}

/-!
# Programs

A routine looks at the symbol under the cursor, moves the cursor to the next one, asks whether there
is a symbol so many places after it or where it is, calls a procedure, or comes to its result.  It
may also fail, or run into a branch that was meant to be out of reach.
-/

inductive Routine {Procedure : Type} (Result : Procedure → Type) (σ ε α : Type) where
  | done (a : α)
  | fail (cause : ε)
  | unreachable
  | read (next : σ → Routine Result σ ε α)
  | move (next : Routine Result σ ε α)
  | inside (ahead : Nat) (next : Bool → Routine Result σ ε α)
  | place (next : Nat → Routine Result σ ε α)
  | call (callee : Procedure) (next : Result callee → Routine Result σ ε α)

namespace Routine

variable {Procedure : Type} {Result : Procedure → Type}

def andThen (r : Routine Result σ ε α) (f : α → Routine Result σ ε β) : Routine Result σ ε β :=
  match r with
  | done a => f a
  | fail cause => fail cause
  | unreachable => unreachable
  | read next => read fun symbol => (next symbol).andThen f
  | move next => move (next.andThen f)
  | inside ahead next => inside ahead fun there => (next there).andThen f
  | place next => place fun position => (next position).andThen f
  | call callee next => call callee fun result => (next result).andThen f

instance : Monad (Routine Result σ ε) where
  pure := done
  bind := andThen

def throw (cause : ε) : Routine Result σ ε α :=
  fail cause

def symbol : Routine Result σ ε σ :=
  read done

def step : Routine Result σ ε Unit :=
  move (done ())

def isInside (ahead : Nat) : Routine Result σ ε Bool :=
  inside ahead done

def position : Routine Result σ ε Nat :=
  place done

def run (callee : Procedure) : Routine Result σ ε (Result callee) :=
  call callee done

end Routine

structure Program (σ ε : Type) where
  Procedure : Type
  Result : Procedure → Type
  body : (p : Procedure) → Routine Result σ ε (Result p)

namespace Program

variable (P : Program σ ε)

abbrev Code (α : Type) :=
  Routine P.Result σ ε α

end Program

/-!
# What stands at the cursor

A cursor inside a row of symbols stands on a symbol or at the end.
-/

variable {input rest : List σ} {symbol : σ} {position : Nat}

theorem getElem?_of_drop (h : input.drop position = symbol :: rest) :
    input[position]? = some symbol := by
  rw [← List.head?_drop, h]
  rfl

theorem drop_succ (h : input.drop position = symbol :: rest) :
    input.drop (position + 1) = rest := by
  rw [← List.drop_drop, h]
  rfl

theorem lt_length_of_drop (h : input.drop position = symbol :: rest) :
    position < input.length := by
  by_contra hend
  rw [List.drop_of_length_le (Nat.le_of_not_lt hend)] at h
  cases h

/-!
# The machine

A call is known by its procedure and by the position of the cursor when it was entered.  The machine
keeps the calls that have not come to an end, the latest first.  A failure ends the program,
whatever calls there are.
-/

variable {P : Program σ ε} {main p q : P.Procedure}

inductive Callers (P : Program σ ε) (main : P.Procedure) : P.Procedure → Type where
  | none : Callers P main main
  | waiting {q : P.Procedure} (p : P.Procedure) (entered : Nat)
      (next : P.Result q → P.Code (P.Result p)) (callers : Callers P main p) : Callers P main q

abbrev Call (P : Program σ ε) :=
  P.Procedure × Nat

def Callers.calls : {p : P.Procedure} → Callers P main p → List (Call P)
  | _, none => []
  | _, waiting p entered _ callers => (p, entered) :: callers.calls

structure State (P : Program σ ε) (main : P.Procedure) where
  procedure : P.Procedure
  entered : Nat
  position : Nat
  routine : P.Code (P.Result procedure)
  callers : Callers P main procedure

namespace State

def calls (s : State P main) : List (Call P) :=
  (s.procedure, s.entered) :: s.callers.calls

def enter (p : P.Procedure) (position : Nat) (callers : Callers P main p) : State P main :=
  ⟨p, position, position, P.body p, callers⟩

def start (P : Program σ ε) (main : P.Procedure) : State P main :=
  enter main 0 .none

end State

inductive Turn (P : Program σ ε) (main : P.Procedure) where
  | on (s : State P main)
  | ended (outcome : Except ε (P.Result main))
  | crashed

def turn (input : List σ) : State P main → Turn P main
  | ⟨_, _, _, .done a, .none⟩ => .ended (.ok a)
  | ⟨_, _, position, .done a, .waiting p entered next callers⟩ =>
      .on ⟨p, entered, position, next a, callers⟩
  | ⟨_, _, _, .fail cause, _⟩ => .ended (.error cause)
  | ⟨_, _, _, .unreachable, _⟩ => .crashed
  | ⟨p, entered, position, .read next, callers⟩ =>
      match input[position]? with
      | some symbol => .on ⟨p, entered, position, next symbol, callers⟩
      | none => .crashed
  | ⟨p, entered, position, .move next, callers⟩ =>
      .on ⟨p, entered, position + 1, next, callers⟩
  | ⟨p, entered, position, .inside ahead next, callers⟩ =>
      .on ⟨p, entered, position, next (decide (position + ahead < input.length)), callers⟩
  | ⟨p, entered, position, .place next, callers⟩ =>
      .on ⟨p, entered, position, next position, callers⟩
  | ⟨p, entered, position, .call callee next, callers⟩ =>
      .on (.enter callee position (.waiting p entered next callers))

/-- From the state on, the machine comes to an end with the outcome, and all states on the way
have the property. -/
inductive Ends (input : List σ) (Along : State P main → Prop) :
    State P main → Except ε (P.Result main) → Prop where
  | last {s : State P main} {outcome : Except ε (P.Result main)} :
      Along s → turn input s = .ended outcome → Ends input Along s outcome
  | next {s s' : State P main} {outcome : Except ε (P.Result main)} :
      Along s → turn input s = .on s' → Ends input Along s' outcome → Ends input Along s outcome

theorem Ends.unique {Along Along' : State P main → Prop} {s : State P main}
    {outcome outcome' : Except ε (P.Result main)} (h : Ends input Along s outcome)
    (h' : Ends input Along' s outcome') : outcome = outcome' := by
  induction h with
  | last _ hturn =>
      cases h' with
      | last _ hturn' =>
          cases hturn.symm.trans hturn'
          rfl
      | next _ hturn' _ => cases hturn.symm.trans hturn'
  | next _ hturn _ ih =>
      cases h' with
      | last _ hturn' => cases hturn.symm.trans hturn'
      | next _ hturn' hends' =>
          cases hturn.symm.trans hturn'
          exact ih hends'

def Reaches (input : List σ) : State P main → State P main → Prop :=
  Relation.ReflTransGen fun s s' => turn input s = .on s'

theorem Ends.along {Along : State P main → Prop} {s s' : State P main}
    {outcome : Except ε (P.Result main)} (h : Ends input Along s outcome)
    (hreaches : Reaches input s s') :
    Along s' ∧ turn input s' ≠ .crashed := by
  induction hreaches using Relation.ReflTransGen.head_induction_on with
  | refl =>
      cases h with
      | last halong hturn => exact ⟨halong, by rw [hturn]; exact nofun⟩
      | next halong hturn _ => exact ⟨halong, by rw [hturn]; exact nofun⟩
  | head hturn' _ ih =>
      cases h with
      | last _ hturn => cases hturn.symm.trans hturn'
      | next _ hturn hends =>
          cases hturn.symm.trans hturn'
          exact ih hends

/-!
# Sound states

A call is deeper than another one if it was entered with the cursor further on, or else if its
procedure is of less height.  In a sound state every call is deeper than the one it was made from.
-/

def Deeper (height : P.Procedure → Nat) (inner outer : Call P) : Prop :=
  outer.2 < inner.2 ∨ outer.2 = inner.2 ∧ height inner.1 < height outer.1

/-- The cursor is before a bound, and no earlier than where it was when the latest call was
entered, and every call is deeper than the one it was made from. -/
structure Sound (height : P.Procedure → Nat) (bound : Nat) (s : State P main) : Prop where
  bounded : s.position < bound
  forward : s.entered ≤ s.position
  deeper : s.calls.IsChain (Deeper height)

theorem Sound.move {height : P.Procedure → Nat} {bound entered position after : Nat}
    {r r' : P.Code (P.Result p)} {callers : Callers P main p}
    (h : Sound height bound ⟨p, entered, position, r, callers⟩) (hforward : position ≤ after)
    (hbound : after < bound) : Sound height bound ⟨p, entered, after, r', callers⟩ where
  bounded := hbound
  forward := Nat.le_trans h.forward hforward
  deeper := h.deeper

/-!
# Contracts

A contract says where a procedure may be called and with which outcomes it ends.  A routine meets a
promise if it comes to what is promised as long as the procedures that it calls keep their
contracts.
-/

/-- What the procedures of a program are for.  The height of a procedure bounds how many may be
entered one from another while the cursor stays where it is, and the cursor stays before the bound.
-/
structure Contract (P : Program σ ε) where
  height : P.Procedure → Nat
  bound : Nat
  Accepts : P.Procedure → Nat → Prop
  Outcome : (p : P.Procedure) → Nat → Except ε (P.Result p × Nat) → Prop

namespace Contract

variable {C : Contract P}

abbrev Deeper (C : Contract P) : Call P → Call P → Prop :=
  Cursor.Deeper C.height

/-- In the call, with the cursor at the position, a routine does nothing that could go wrong, and
what it comes to is as promised if the procedures that it calls keep their contracts. -/
def Meets (C : Contract P) (input : List σ) (caller : Call P) (r : P.Code α) (position : Nat)
    (Promised : Except ε (α × Nat) → Prop) : Prop :=
  match r with
  | .done a => Promised (.ok (a, position))
  | .fail cause => Promised (.error cause)
  | .unreachable => False
  | .read next => ∃ symbol, input[position]? = some symbol ∧
      C.Meets input caller (next symbol) position Promised
  | .move next => position + 1 < C.bound ∧ C.Meets input caller next (position + 1) Promised
  | .inside ahead next =>
      C.Meets input caller (next (decide (position + ahead < input.length))) position Promised
  | .place next => C.Meets input caller (next position) position Promised
  | .call callee next => C.Deeper (callee, position) caller ∧ C.Accepts callee position ∧
      (∀ cause, C.Outcome callee position (.error cause) → Promised (.error cause)) ∧
      ∀ a after, position ≤ after → after < C.bound → C.Outcome callee position (.ok (a, after)) →
        C.Meets input caller (next a) after Promised

def Kept (C : Contract P) (input : List σ) : Prop :=
  ∀ p position, position < C.bound → C.Accepts p position →
    C.Meets input (p, position) (P.body p) position (C.Outcome p position)

/-!
# Contracts met by parts of a routine

There is one rule for each thing that a routine can do.
-/

section

variable {caller : Call P} {r : P.Code α} {f : α → P.Code β}
  {Promised : Except ε (α × Nat) → Prop} {Promised' : Except ε (β × Nat) → Prop}

def Before (C : Contract P) (input : List σ) (caller : Call P) (f : α → P.Code β)
    (Promised : Except ε (β × Nat) → Prop) : Except ε (α × Nat) → Prop
  | .ok (a, after) => C.Meets input caller (f a) after Promised
  | .error cause => Promised (.error cause)

@[simp] theorem before_ok {a : α} {after : Nat} :
    C.Before input caller f Promised' (.ok (a, after)) ↔
      C.Meets input caller (f a) after Promised' := Iff.rfl

theorem meets_bind : C.Meets input caller (r >>= f) position Promised' ↔
    C.Meets input caller r position (C.Before input caller f Promised') := by
  change C.Meets input caller (r.andThen f) position Promised' ↔ _
  induction r generalizing position with
  | done a => rfl
  | fail cause => rfl
  | unreachable => rfl
  | read next ih => exact exists_congr fun symbol => and_congr_right fun _ => ih symbol
  | move next ih => exact and_congr_right fun _ => ih
  | inside ahead next ih => exact ih _
  | place next ih => exact ih _
  | call callee next ih =>
      refine and_congr_right fun _ => and_congr_right fun _ => and_congr_right fun _ => ?_
      refine forall_congr' fun a => forall_congr' fun after => ?_
      exact forall_congr' fun _ => forall_congr' fun _ => forall_congr' fun _ => ih a

theorem Meets.mono {Promised₂ : Except ε (α × Nat) → Prop}
    (h : C.Meets input caller r position Promised)
    (hmono : ∀ outcome, Promised outcome → Promised₂ outcome) :
    C.Meets input caller r position Promised₂ := by
  induction r generalizing position with
  | done a => exact hmono _ h
  | fail cause => exact hmono _ h
  | unreachable => exact h
  | read next ih =>
      rcases h with ⟨symbol, hsymbol, h⟩
      exact ⟨symbol, hsymbol, ih symbol h⟩
  | move next ih => exact ⟨h.1, ih h.2⟩
  | inside ahead next ih => exact ih _ h
  | place next ih => exact ih _ h
  | call callee next ih =>
      rcases h with ⟨hdeeper, haccepts, hfails, hreturns⟩
      exact ⟨hdeeper, haccepts, fun cause hcause => hmono _ (hfails cause hcause),
        fun a after hforward hbound ha => ih a (hreturns a after hforward hbound ha)⟩

@[simp] theorem meets_pure {a : α} :
    C.Meets input caller (pure a) position Promised ↔ Promised (.ok (a, position)) := Iff.rfl

@[simp] theorem meets_isInside {ahead : Nat} {Promised : Except ε (Bool × Nat) → Prop} :
    C.Meets input caller (Routine.isInside ahead) position Promised ↔
      Promised (.ok (decide (position + ahead < input.length), position)) := Iff.rfl

theorem meets_symbol {symbol : σ} (h : input[position]? = some symbol)
    {Promised : Except ε (σ × Nat) → Prop} :
    C.Meets input caller Routine.symbol position Promised ↔
      Promised (.ok (symbol, position)) := by
  constructor
  · intro hmeets
    rcases hmeets with ⟨symbol', hsymbol', hpromised⟩
    rw [h] at hsymbol'
    cases hsymbol'
    exact hpromised
  · exact fun hpromised => ⟨symbol, h, hpromised⟩

theorem meets_step (h : position + 1 < C.bound) {Promised : Except ε (Unit × Nat) → Prop} :
    C.Meets input caller Routine.step position Promised ↔ Promised (.ok ((), position + 1)) :=
  and_iff_right h

theorem meets_run {callee : P.Procedure} {Promised : Except ε (P.Result callee × Nat) → Prop} :
    C.Meets input caller (Routine.run callee) position Promised ↔
      C.Deeper (callee, position) caller ∧ C.Accepts callee position ∧
        (∀ cause, C.Outcome callee position (.error cause) → Promised (.error cause)) ∧
        ∀ a after, position ≤ after → after < C.bound →
          C.Outcome callee position (.ok (a, after)) → Promised (.ok (a, after)) := Iff.rfl

theorem meets_call {callee : P.Procedure} (hdeeper : C.Deeper (callee, position) caller)
    (haccepts : C.Accepts callee position) :
    C.Meets input caller (Routine.run callee) position (C.Outcome callee position) :=
  meets_run.mpr ⟨hdeeper, haccepts, fun _ houtcome => houtcome, fun _ _ _ _ houtcome => houtcome⟩

theorem meets_run_of_eq {callee : P.Procedure}
    {Promised : Except ε (P.Result callee × Nat) → Prop}
    {expected : Except ε (P.Result callee × Nat)}
    (hdeeper : C.Deeper (callee, position) caller) (haccepts : C.Accepts callee position)
    (hexpected : ∀ outcome, C.Outcome callee position outcome → outcome = expected)
    (hpromised : Promised expected) :
    C.Meets input caller (Routine.run callee) position Promised := by
  refine meets_run.mpr ⟨hdeeper, haccepts, ?_, ?_⟩
  · intro cause hcause
    rwa [hexpected _ hcause]
  · intro a after _ _ hafter
    rwa [hexpected _ hafter]

end

/-!
# Every run comes to an end

By induction on the calls, the deepest first, a routine that meets its promise comes to what it
promises.
-/

def Comes (C : Contract P) (input : List σ) (s : State P main) :
    Except ε (P.Result s.procedure × Nat) → Prop
  | .ok (a, after) => s.position ≤ after ∧ after < C.bound ∧ ∀ outcome,
      Ends input (Sound C.height C.bound) { s with position := after, routine := .done a }
        outcome → Ends input (Sound C.height C.bound) s outcome
  | .error cause => Ends input (Sound C.height C.bound) s (.error cause)

theorem deepest_first {motive : Call P → Prop}
    (h : ∀ call, (∀ inner, inner.2 < C.bound → C.Deeper inner call → motive inner) →
      motive call) (call : Call P) : motive call := by
  apply h
  intro inner hbound hdeeper
  exact deepest_first h inner
termination_by (C.bound - call.2, C.height call.1)
decreasing_by
  rcases hdeeper with hfurther | ⟨hsame, hheight⟩
  · exact Prod.Lex.left _ _ (by omega)
  · rw [hsame]
    exact Prod.Lex.right _ hheight

theorem Comes.of_ends {p : P.Procedure} {entered position after : Nat}
    {r r' : P.Code (P.Result p)} {callers : Callers P main p}
    {outcome : Except ε (P.Result p × Nat)} (hforward : position ≤ after)
    (hback : ∀ out, Ends input (Sound C.height C.bound) ⟨p, entered, after, r', callers⟩ out →
      Ends input (Sound C.height C.bound) ⟨p, entered, position, r, callers⟩ out)
    (hcomes : C.Comes input ⟨p, entered, after, r', callers⟩ outcome) :
    C.Comes input ⟨p, entered, position, r, callers⟩ outcome := by
  cases outcome with
  | error cause => exact hback _ hcomes
  | ok result =>
      rcases hcomes with ⟨hlater, hbound, hends⟩
      exact ⟨Nat.le_trans hforward hlater, hbound, fun out hdone => hback out (hends out hdone)⟩

theorem Comes.of_turn {p : P.Procedure} {entered position after : Nat}
    {r r' : P.Code (P.Result p)} {callers : Callers P main p}
    {outcome : Except ε (P.Result p × Nat)}
    (h : Sound C.height C.bound ⟨p, entered, position, r, callers⟩) (hforward : position ≤ after)
    (hturn : turn input ⟨p, entered, position, r, callers⟩ = .on ⟨p, entered, after, r', callers⟩)
    (hcomes : C.Comes input ⟨p, entered, after, r', callers⟩ outcome) :
    C.Comes input ⟨p, entered, position, r, callers⟩ outcome :=
  hcomes.of_ends hforward fun _ hends => .next h hturn hends

theorem comes_of_meets (hkept : C.Kept input) (call : Call P) :
    ∀ (position : Nat) (r : P.Code (P.Result call.1)) (callers : Callers P main call.1)
      (Promised : Except ε (P.Result call.1 × Nat) → Prop),
      Sound C.height C.bound ⟨call.1, call.2, position, r, callers⟩ →
      C.Meets input call r position Promised →
      ∃ outcome, Promised outcome ∧
        C.Comes input ⟨call.1, call.2, position, r, callers⟩ outcome := by
  induction call using deepest_first (C := C) with
  | h call ihcall =>
      intro position r callers Promised hsound hmeets
      induction r generalizing position with
      | done a =>
          exact ⟨_, hmeets, Nat.le_refl _, hsound.bounded, fun _ hends => hends⟩
      | fail cause => exact ⟨_, hmeets, .last hsound rfl⟩
      | unreachable => exact hmeets.elim
      | read next ih =>
          rcases hmeets with ⟨symbol, hsymbol, hmeets⟩
          have hturn : turn input ⟨call.1, call.2, position, .read next, callers⟩ =
              .on ⟨call.1, call.2, position, next symbol, callers⟩ := by
            simp only [turn, hsymbol]
          rcases ih symbol position (hsound.move (Nat.le_refl _) hsound.bounded) hmeets with
            ⟨outcome, hpromised, hcomes⟩
          exact ⟨outcome, hpromised, hcomes.of_turn hsound (Nat.le_refl _) hturn⟩
      | move next ih =>
          rcases hmeets with ⟨hbound, hmeets⟩
          rcases ih (position + 1) (hsound.move (Nat.le_succ _) hbound) hmeets with
            ⟨outcome, hpromised, hcomes⟩
          exact ⟨outcome, hpromised, hcomes.of_turn hsound (Nat.le_succ _) rfl⟩
      | inside ahead next ih =>
          rcases ih _ position (hsound.move (Nat.le_refl _) hsound.bounded) hmeets with
            ⟨outcome, hpromised, hcomes⟩
          exact ⟨outcome, hpromised, hcomes.of_turn hsound (Nat.le_refl _) rfl⟩
      | place next ih =>
          rcases ih _ position (hsound.move (Nat.le_refl _) hsound.bounded) hmeets with
            ⟨outcome, hpromised, hcomes⟩
          exact ⟨outcome, hpromised, hcomes.of_turn hsound (Nat.le_refl _) rfl⟩
      | call callee next ih =>
          rcases hmeets with ⟨hdeeper, haccepts, hfails, hreturns⟩
          have hentered : Sound C.height C.bound
              (.enter callee position (.waiting call.1 call.2 next callers)) :=
            ⟨hsound.bounded, Nat.le_refl _, List.isChain_cons_cons.mpr ⟨hdeeper, hsound.deeper⟩⟩
          have hbody := hkept callee position hsound.bounded haccepts
          rcases ihcall (callee, position) hsound.bounded hdeeper position _ _ _ hentered hbody with
            ⟨outcome, hcallee, hcomes⟩
          cases outcome with
          | error cause => exact ⟨_, hfails cause hcallee, .next hsound rfl hcomes⟩
          | ok result =>
              rcases result with ⟨a, after⟩
              rcases hcomes with ⟨hforward, hbound, hends⟩
              have hreturned : Sound C.height C.bound ⟨call.1, call.2, after, next a, callers⟩ :=
                hsound.move hforward hbound
              rcases ih a after hreturned (hreturns a after hforward hbound hcallee) with
                ⟨outcome, hpromised, hcomes⟩
              refine ⟨outcome, hpromised, hcomes.of_ends hforward fun out hout => ?_⟩
              exact .next hsound rfl (hends out (.next (hentered.move hforward hbound) rfl hout))

/-- Programs whose procedures keep their contracts come to an end, without a look outside the
input and without a branch that is out of reach, and the outcome is as the contract says. -/
theorem Kept.ends (hkept : C.Kept input) (main : P.Procedure) (hbound : 0 < C.bound)
    (haccepts : C.Accepts main 0) :
    ∃ outcome, C.Outcome main 0 outcome ∧
      Ends input (Sound C.height C.bound) (State.start P main) (outcome.map Prod.fst) := by
  have hsound : Sound C.height C.bound (State.start P main) :=
    ⟨hbound, Nat.le_refl _, List.isChain_singleton _⟩
  rcases comes_of_meets hkept (main, 0) 0 _ _ _ hsound (hkept main 0 hbound haccepts) with
    ⟨outcome, houtcome, hcomes⟩
  refine ⟨outcome, houtcome, ?_⟩
  cases outcome with
  | error cause => exact hcomes
  | ok result =>
      rcases hcomes with ⟨hforward, hbound', hends⟩
      exact hends _ (.last (hsound.move hforward hbound') rfl)

end Contract

end Cursor
end Blockwise
