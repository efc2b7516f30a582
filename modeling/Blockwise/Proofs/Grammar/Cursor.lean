import Blockwise.Proofs.Cursor
import Blockwise.Proofs.Grammar.Viability

/-!
# Reading trees with a cursor

The parser as a program that moves a cursor over tokens, with a procedure for each of its functions
and loops.  It looks at the token under the cursor without asking whether there is one, and it
advances over every token but the last.  As long as the only end of the input comes last, a call
consumes a token before it leads back to a reader of the same or a looser level, and what comes out
is what `Parser.block` reads.
-/

namespace Blockwise
namespace ParserCursor

open Blockwise.Parser (Level PrimaryForm block front)
open Grammar Cursor Cursor.Routine

/-!
# The program

There is a procedure for each reader and for each loop, and a loop has what was read before as its
argument.  The token under the cursor is taken, accepted or expected.  The cursor stays on the last
token.
-/

inductive Procedure where
  | block (role : Role)
  | inputs (found : List Tree)
  | assignments (declares : Bool) (found : List Tree)
  | expression (category : Category)
  | operators (level : Level) (left : Tree)
  | casts (inner : Tree)
  | arguments
  | argumentList (found : List Tree)

def Procedure.Result : Procedure → Type
  | block _ | expression _ | operators .. | casts _ => Tree
  | inputs _ | assignments .. | arguments | argumentList _ => List Tree

abbrev Code (α : Type) :=
  Routine Procedure.Result PlacedToken Cause α

def advance : Code PlacedToken := do
  let t ← symbol
  if ← isInside 1 then
    step
    pure t
  else pure t

def accepts (token : Token) : Code Bool := do
  if (← symbol).token = token then
    let _ ← advance
    pure true
  else pure false

def expectToken (token : Token) (refuse : PlacedToken → Cause) : Code Unit := do
  if ← accepts token then pure () else throw (refuse (← symbol))

def expectSymbol (s : Symbol) : Code Unit :=
  expectToken (.symbol s) (.expectedSymbol s)

def expectKeyword (k : Keyword) : Code Unit :=
  expectToken (.keyword k) (.expectedKeyword k)

def expectSome {α : Type} (carried? : Token → Option α) (refuse : PlacedToken → Cause) :
    Code α := do
  match carried? (← symbol).token with
  | some a =>
      let _ ← advance
      pure a
  | none => throw (refuse (← symbol))

def name? : Token → Option String
  | .name s => some s
  | _ => none

def type? : Token → Option ValueType
  | .type target => some target
  | _ => none

def expectName : Code String :=
  expectSome name? .expectedName

def expectType : Code ValueType :=
  expectSome type? .expectedType

def readExpression (category : Category) : Code Tree :=
  run (Procedure.expression category)

def readOperators (level : Level) (left : Tree) : Code Tree :=
  run (Procedure.operators level left)

def readCasts (inner : Tree) : Code Tree :=
  run (Procedure.casts inner)

def readArguments : Code (List Tree) :=
  run Procedure.arguments

def readArgumentList (found : List Tree) : Code (List Tree) :=
  run (Procedure.argumentList found)

def readInputs (found : List Tree) : Code (List Tree) :=
  run (Procedure.inputs found)

def readAssignments (declares : Bool) (found : List Tree) : Code (List Tree) :=
  run (Procedure.assignments declares found)

def chainBody (level : Level) : Code Tree := do
  let left ← readExpression (.operands level)
  readOperators level left

def operatorsBody (level : Level) (left : Tree) : Code Tree := do
  match level.operator? (← symbol).token with
  | some op =>
      let _ ← advance
      let right ← readExpression (.operands level)
      readOperators level (.binary op left right)
  | none => pure left

def negationBody : Code Tree := do
  if ← accepts (.keyword .not) then
    let operand ← readExpression .negation
    pure (.unary .not operand)
  else readExpression (.chain .comparison)

def castBody : Code Tree := do
  let inner ← readExpression .primary
  readCasts inner

def castsBody (inner : Tree) : Code Tree := do
  if ← accepts (.keyword .as) then
    let target ← expectType
    readCasts (.cast inner target)
  else pure inner

def primaryFrom (first : PlacedToken) : Code Tree :=
  match first.token with
  | .number x => pure (.literal (.number x))
  | .boolean b => pure (.literal (.boolean b))
  | .string s => pure (.literal (.string s))
  | .template segments => pure (.template segments)
  | .symbol .minus => do
      let operand ← readExpression .primary
      pure (.unary .negate operand)
  | .symbol .plus => do
      let operand ← readExpression .primary
      pure (.unary .affirm operand)
  | .symbol .openParen => do
      let tree ← readExpression .expression
      expectSymbol .closeParen
      pure tree
  | .function f => do
      expectSymbol .openParen
      let args ← readArguments
      pure (.call f.name args)
  | .name s => do
      if ← accepts (.symbol .openParen) then
        let args ← readArguments
        pure (.call s args)
      else pure (.get s)
  | _ => throw (.expectedValue first)

def primaryBody : Code Tree := do
  let first ← advance
  primaryFrom first

def expressionBody : Category → Code Tree
  | .chain level => chainBody level
  | .negation => negationBody
  | .cast => castBody
  | .primary => primaryBody

def argumentsBody : Code (List Tree) := do
  if ← accepts (.symbol .closeParen) then pure [] else readArgumentList []

def argumentListBody (found : List Tree) : Code (List Tree) := do
  let argument ← readExpression .expression
  if ← accepts (.symbol .comma) then readArgumentList (found ++ [argument])
  else
    expectSymbol .closeParen
    pure (found ++ [argument])

def inputsBody (found : List Tree) : Code (List Tree) := do
  let name ← expectName
  expectKeyword .as
  let target ← expectType
  let input := Tree.set name (.read name target) true
  if ← accepts (.symbol .comma) then readInputs (found ++ [input])
  else pure (found ++ [input])

def assignmentsBody (declares : Bool) (found : List Tree) : Code (List Tree) := do
  let name ← expectName
  expectSymbol .assign
  let value ← readExpression .expression
  let assignment := Tree.set name value declares
  if ← accepts (.symbol .comma) then readAssignments declares (found ++ [assignment])
  else pure (found ++ [assignment])

def finish (tree : Tree) : Code Tree := do
  let t ← symbol
  if t.token = .endOfInput then pure tree else throw (.unexpectedToken t)

def blockBody : Role → Code Tree
  | .start | .finish => unreachable
  | .input => do
      expectKeyword .read
      let trees ← readInputs []
      finish (.sequence trees)
  | .output => do
      let tree ← readExpression .expression
      finish (.write tree)
  | .decision => do
      let tree ← readExpression .expression
      finish tree
  | .declaration => do
      let trees ← readAssignments true []
      finish (.sequence trees)
  | .assignment => do
      let trees ← readAssignments false []
      finish (.sequence trees)

def body : (p : Procedure) → Code p.Result
  | .block role => blockBody role
  | .inputs found => inputsBody found
  | .assignments declares found => assignmentsBody declares found
  | .expression category => expressionBody category
  | .operators level left => operatorsBody level left
  | .casts inner => castsBody inner
  | .arguments => argumentsBody
  | .argumentList found => argumentListBody found

abbrev program : Cursor.Program PlacedToken Cause :=
  ⟨Procedure, Procedure.Result, body⟩

/-!
# Contracts

A contract says what a procedure reads with the cursor at a position: what the reader of the model
comes to with the tokens from there on.  The height of a procedure counts the readers between it and
the primary expressions.
-/

/-- The outcome is what a reader came to, with the cursor on the first of the tokens that the
reader left, which is at `least` or after it. -/
inductive Reads {α : Type} (ts : List PlacedToken) (least : Nat) :
    Except Cause (α × List PlacedToken) → Except Cause (α × Nat) → Prop where
  | ok {a : α} {after : Nat} : least ≤ after → after < ts.length →
      Reads ts least (.ok (a, ts.drop after)) (.ok (a, after))
  | error {cause : Cause} : Reads ts least (.error cause) (.error cause)

def continued (found : List Tree) (reader : Reader (List Tree)) : Reader (List Tree) :=
  reader >>= fun trees => pure (found ++ trees)

def Finds (ts : List PlacedToken) :
    (p : Procedure) → (position : Nat) → Except Cause (p.Result × Nat) → Prop
  | .block role, position, (outcome : Except Cause (Tree × Nat)) =>
      outcome.map Prod.fst = block role (ts.drop position)
  | .inputs found, position, (outcome : Except Cause (List Tree × Nat)) =>
      Reads ts (position + 1) (continued found readsReader (ts.drop position)) outcome
  | .assignments declares found, position, (outcome : Except Cause (List Tree × Nat)) =>
      Reads ts (position + 1) (continued found (assignmentsReader declares) (ts.drop position))
        outcome
  | .expression category, position, (outcome : Except Cause (Tree × Nat)) =>
      Reads ts (position + 1) (reader category (ts.drop position)) outcome
  | .operators level left, position, (outcome : Except Cause (Tree × Nat)) =>
      Reads ts position (operatorsReader level left (ts.drop position)) outcome
  | .casts inner, position, (outcome : Except Cause (Tree × Nat)) =>
      Reads ts position (castsReader inner (ts.drop position)) outcome
  | .arguments, position, (outcome : Except Cause (List Tree × Nat)) =>
      Reads ts (position + 1) (argumentsReader (ts.drop position)) outcome
  | .argumentList found, position, (outcome : Except Cause (List Tree × Nat)) =>
      Reads ts (position + 1) (continued found argumentListReader (ts.drop position)) outcome

def height : Procedure → Nat
  | .block _ => 17
  | .arguments => 16
  | .assignments .. | .argumentList _ => 15
  | .expression (.chain level) => level.height + 1
  | .expression .negation => 10
  | .expression .cast => 1
  | .expression .primary | .inputs _ | .operators .. | .casts _ => 0

def contract (ts : List PlacedToken) : Cursor.Contract program where
  height := height
  bound := ts.length
  Accepts
    | .block role, _ => role.isTerminal = false
    | _, _ => True
  Outcome := Finds ts

def Terminated (ts : List PlacedToken) : Prop :=
  ∃ source column, ts = source ++ [⟨.endOfInput, column⟩]

/-!
# Programs that follow readers

A code follows a reader if it does with the cursor at any position what the reader does with the
tokens from there on.
-/

section

variable {α β : Type} {ts rest : List PlacedToken} {t : PlacedToken} {token : Token}
  {caller : Cursor.Call program} {position middle least column : Nat}

/-- A code does with the cursor at a position what a reader does with the tokens from there on. -/
def Follows (ts : List PlacedToken) (caller : Cursor.Call program) (position least : Nat)
    (code : Code α) (reader : Reader α) : Prop :=
  (contract ts).Meets ts caller code position (Reads ts least (reader (ts.drop position)))

variable {code : Code α} {reader reader' : Reader α}

theorem Terminated.lt_length (h : Terminated ts) (hdrop : ts.drop position = t :: rest)
    (ht : t.token ≠ .endOfInput) : position + 1 < ts.length := by
  rcases h with ⟨source, column, rfl⟩
  have hposition := lt_length_of_drop hdrop
  rw [List.length_append, List.length_singleton] at hposition ⊢
  by_contra hlast
  have hend : position = source.length := by omega
  rw [hend, List.drop_left] at hdrop
  cases hdrop
  exact ht rfl

theorem Reads.weaken {result : Except Cause (α × List PlacedToken)}
    {outcome : Except Cause (α × Nat)} (h : Reads ts middle result outcome)
    (hleast : least ≤ middle) : Reads ts least result outcome := by
  cases h with
  | ok hafter hbound => exact .ok (Nat.le_trans hleast hafter) hbound
  | error => exact .error

theorem Follows.weaken (h : Follows ts caller position middle code reader)
    (hleast : least ≤ middle) : Follows ts caller position least code reader :=
  Contract.Meets.mono h fun _ hreads => hreads.weaken hleast

theorem Follows.of_eq (h : Follows ts caller position least code reader')
    (heq : reader (ts.drop position) = reader' (ts.drop position)) :
    Follows ts caller position least code reader := by
  unfold Follows
  rw [heq]
  exact h

theorem Follows.pure {a : α} (hleast : least ≤ position) (hbound : position < ts.length) :
    Follows ts caller position least (pure a) (pure a) :=
  .ok hleast hbound

theorem Follows.then_meets {code : Code β} {next : β → Code α} {reader : Reader β}
    {readers : β → Reader α}
    {Promised : Except Cause (α × List PlacedToken) → Except Cause (α × Nat) → Prop}
    (hfirst : Follows ts caller position middle code reader)
    (hfails : ∀ cause, Promised (.error cause) (.error cause))
    (hnext : ∀ b after, middle ≤ after → after < ts.length → (contract ts).Meets ts caller
      (next b) after (Promised (readers b (ts.drop after)))) :
    (contract ts).Meets ts caller (code >>= next) position
      (Promised ((reader >>= readers) (ts.drop position))) := by
  refine Contract.meets_bind.mpr (hfirst.mono ?_)
  intro outcome hreads
  change (contract ts).Before ts caller next
    (Promised (reader (ts.drop position) >>= fun p => readers p.1 p.2)) outcome
  generalize reader (ts.drop position) = result at hreads
  cases hreads with
  | error => exact hfails _
  | ok hafter hbound => exact hnext _ _ hafter hbound

theorem Follows.bind {code : Code β} {next : β → Code α} {reader : Reader β}
    {readers : β → Reader α} (hfirst : Follows ts caller position middle code reader)
    (hnext : ∀ b after, middle ≤ after → after < ts.length →
      Follows ts caller after least (next b) (readers b)) :
    Follows ts caller position least (code >>= next) (reader >>= readers) :=
  hfirst.then_meets (fun _ => .error) hnext

/-!
# Tokens

A token is taken if it is the one that a code accepts, and then the reader goes on behind it.
-/

theorem meets_advance (hdrop : ts.drop position = t :: rest) (hmore : position + 1 < ts.length)
    {Promised : Except Cause (PlacedToken × Nat) → Prop} :
    (contract ts).Meets ts caller advance position Promised ↔
      Promised (.ok (t, position + 1)) := by
  unfold advance
  rw [Contract.meets_bind, Contract.meets_symbol (getElem?_of_drop hdrop), Contract.before_ok,
    Contract.meets_bind, Contract.meets_isInside, Contract.before_ok, if_pos (decide_eq_true hmore),
    Contract.meets_bind, Contract.meets_step hmore, Contract.before_ok, Contract.meets_pure]

theorem follows_accepts {yes no : Code α} (hterminated : Terminated ts)
    (hbound : position < ts.length) (hend : token ≠ .endOfInput)
    (hskip : ∀ column rest, reader (⟨token, column⟩ :: rest) = reader' rest)
    (hyes : position + 1 < ts.length → Follows ts caller (position + 1) least yes reader')
    (hno : (front (ts.drop position)).token ≠ token →
      Follows ts caller position least no reader) :
    Follows ts caller position least (do if ← accepts token then yes else no) reader := by
  have hdrop := List.drop_eq_getElem_cons hbound
  generalize ts[position] = t at hdrop
  unfold Follows accepts
  rw [Contract.meets_bind, Contract.meets_bind, Contract.meets_symbol (getElem?_of_drop hdrop),
    Contract.before_ok]
  by_cases ht : t.token = token
  · have hmore := hterminated.lt_length hdrop (ht ▸ hend)
    rw [if_pos ht, Contract.meets_bind, meets_advance hdrop hmore]
    rcases t with ⟨_, column⟩
    subst ht
    rw [hdrop, hskip]
    exact hyes hmore
  · rw [if_neg ht]
    refine hno ?_
    rw [hdrop]
    exact ht

theorem follows_refusal {refuse : PlacedToken → Cause} (hbound : position < ts.length)
    (h : reader (ts.drop position) = .error (refuse (front (ts.drop position)))) :
    Follows ts caller position least (do throw (refuse (← symbol))) reader := by
  have hdrop := List.drop_eq_getElem_cons hbound
  unfold Follows
  rw [Contract.meets_bind, Contract.meets_symbol (getElem?_of_drop hdrop), h, hdrop]
  exact .error

theorem follows_expectToken {reader : Reader Unit} {refuse : PlacedToken → Cause}
    (hterminated : Terminated ts) (hbound : position < ts.length) (hend : token ≠ .endOfInput)
    (htakes : ∀ column rest, reader (⟨token, column⟩ :: rest) = .ok ((), rest))
    (hrefuses : ∀ {ts}, (front ts).token ≠ token → reader ts = .error (refuse (front ts))) :
    Follows ts caller position (position + 1) (expectToken token refuse) reader :=
  follows_accepts hterminated hbound hend htakes (fun hmore => .pure (Nat.le_refl _) hmore)
    fun hother => follows_refusal hbound (hrefuses hother)

theorem follows_expectSymbol (hterminated : Terminated ts) (hbound : position < ts.length)
    (s : Symbol) :
    Follows ts caller position (position + 1) (expectSymbol s) (symbolReader s) :=
  follows_expectToken hterminated hbound Token.noConfusion (symbolReader_self s)
    symbolReader_refuses

theorem follows_expectKeyword (hterminated : Terminated ts) (hbound : position < ts.length)
    (k : Keyword) :
    Follows ts caller position (position + 1) (expectKeyword k) (keywordReader k) :=
  follows_expectToken hterminated hbound Token.noConfusion (keywordReader_self k)
    keywordReader_refuses

theorem follows_expectSome {carried? : Token → Option α} {refuse : PlacedToken → Cause}
    (hterminated : Terminated ts) (hbound : position < ts.length)
    (hend : carried? .endOfInput = none)
    (htakes : ∀ t rest a, carried? t.token = some a → reader (t :: rest) = .ok (a, rest))
    (hrefuses : ∀ t rest, carried? t.token = none → reader (t :: rest) = .error (refuse t)) :
    Follows ts caller position (position + 1) (expectSome carried? refuse) reader := by
  have hdrop := List.drop_eq_getElem_cons hbound
  generalize ts[position] = t at hdrop
  unfold expectSome Follows
  rw [Contract.meets_bind, Contract.meets_symbol (getElem?_of_drop hdrop), Contract.before_ok]
  cases hcarried : carried? t.token with
  | some a =>
      have hmore : position + 1 < ts.length := by
        apply hterminated.lt_length hdrop
        intro ht
        rw [ht, hend] at hcarried
        cases hcarried
      change (contract ts).Meets ts caller (do let _ ← advance; pure a) position _
      rw [Contract.meets_bind, meets_advance hdrop hmore, hdrop, htakes t _ a hcarried]
      exact .ok (Nat.le_refl _) hmore
  | none =>
      refine follows_refusal hbound ?_
      rw [hdrop]
      exact hrefuses t _ hcarried

theorem follows_expectName (hterminated : Terminated ts) (hbound : position < ts.length) :
    Follows ts caller position (position + 1) expectName nameReader := by
  apply follows_expectSome hterminated hbound rfl
  · intro t rest s ht
    rcases t with ⟨token, column⟩
    cases token <;> cases ht
    rfl
  · intro t rest ht
    apply nameReader_refuses
    intro s hs
    change t.token = .name s at hs
    rw [hs] at ht
    cases ht

theorem follows_expectType (hterminated : Terminated ts) (hbound : position < ts.length) :
    Follows ts caller position (position + 1) expectType typeReader := by
  apply follows_expectSome hterminated hbound rfl
  · intro t rest s ht
    rcases t with ⟨token, column⟩
    cases token <;> cases ht
    rfl
  · intro t rest ht
    apply typeReader_refuses
    intro target htarget
    change t.token = .type target at htarget
    rw [htarget] at ht
    cases ht

/-!
# Calls

A call of a procedure follows its reader as long as the procedure keeps its contract.
-/

theorem deeper_of_height {callee p : Procedure} (h : height callee < height p) :
    (contract ts).Deeper (callee, position) (p, position) :=
  Or.inr ⟨rfl, h⟩

theorem follows_readExpression {category : Category}
    (h : (contract ts).Deeper (.expression category, position) caller) :
    Follows ts caller position (position + 1) (readExpression category) (Grammar.reader category) :=
  Contract.meets_call h trivial

theorem follows_readOperators {level : Level} {left : Tree} (h : caller.2 < position) :
    Follows ts caller position position (readOperators level left) (operatorsReader level left) :=
  Contract.meets_call (Or.inl h) trivial

theorem follows_readCasts {inner : Tree} (h : caller.2 < position) :
    Follows ts caller position position (readCasts inner) (castsReader inner) :=
  Contract.meets_call (Or.inl h) trivial

theorem follows_readArguments (h : caller.2 < position) :
    Follows ts caller position (position + 1) readArguments argumentsReader :=
  Contract.meets_call (Or.inl h) trivial

theorem follows_readArgumentList {found : List Tree}
    (h : (contract ts).Deeper (.argumentList found, position) caller) :
    Follows ts caller position (position + 1) (readArgumentList found)
      (continued found argumentListReader) :=
  Contract.meets_call h trivial

theorem follows_readInputs {found : List Tree} (h : caller.2 < position) :
    Follows ts caller position (position + 1) (readInputs found) (continued found readsReader) :=
  Contract.meets_call (Or.inl h) trivial

theorem follows_readAssignments {declares : Bool} {found : List Tree}
    (h : (contract ts).Deeper (.assignments declares found, position) caller) :
    Follows ts caller position (position + 1) (readAssignments declares found)
      (continued found (assignmentsReader declares)) :=
  Contract.meets_call h trivial

/-!
# Bodies of expressions

The parser also advances over a token that no expression starts with.  That may be the last one, and
the cursor stays on it.
-/

theorem height_operands (level : Level) :
    height (.expression (.operands level)) < height (.expression (.chain level)) := by
  cases level <;> decide

theorem follows_chainBody (level : Level) :
    Follows ts (.expression (.chain level), position) position (position + 1) (chainBody level)
      (Grammar.reader (.chain level)) := by
  refine Follows.of_eq ?_ (reader_chain level _)
  refine (follows_readExpression (deeper_of_height (height_operands level))).bind ?_
  intro left after hafter _
  exact (follows_readOperators hafter).weaken hafter

theorem follows_operatorsBody (hterminated : Terminated ts) (hbound : position < ts.length)
    (level : Level) (left : Tree) :
    Follows ts (.operators level left, position) position position (operatorsBody level left)
      (operatorsReader level left) := by
  have hdrop := List.drop_eq_getElem_cons hbound
  generalize ts[position] = t at hdrop
  unfold operatorsBody Follows
  rw [Contract.meets_bind, Contract.meets_symbol (getElem?_of_drop hdrop), Contract.before_ok]
  cases hop : level.operator? t.token with
  | none =>
      rw [operatorsReader_end left (by rw [hdrop]; exact hop)]
      exact .ok (Nat.le_refl _) hbound
  | some op =>
      have hmore : position + 1 < ts.length := by
        apply hterminated.lt_length hdrop
        intro ht
        rw [ht] at hop
        cases level <;> cases hop
      change (contract ts).Meets ts _ (do
        let _ ← advance
        let right ← readExpression (.operands level)
        readOperators level (.binary op left right)) position _
      rw [Contract.meets_bind, meets_advance hdrop hmore, Contract.before_ok, hdrop,
        operatorsReader_operator left t.column hop]
      refine (follows_readExpression (Or.inl (Nat.lt_succ_self _))).bind ?_
      intro right after hafter _
      exact (follows_readOperators (by omega)).weaken (by omega)

theorem follows_negationBody (hterminated : Terminated ts) (hbound : position < ts.length) :
    Follows ts (.expression .negation, position) position (position + 1) negationBody
      (Grammar.reader .negation) := by
  refine follows_accepts hterminated hbound Token.noConfusion
    (fun column _ => reader_not column) ?_ ?_
  · intro hmore
    refine (follows_readExpression (Or.inl (Nat.lt_succ_self _))).bind ?_
    intro operand after hafter hbound
    exact .pure (by omega) hbound
  · intro hother
    have hdeeper : height (.expression (.chain .comparison)) < height (.expression .negation) := by
      decide
    exact (follows_readExpression (deeper_of_height hdeeper)).of_eq (reader_negation hother)

theorem follows_castBody :
    Follows ts (.expression .cast, position) position (position + 1) castBody
      (Grammar.reader .cast) := by
  have hdeeper : height (.expression .primary) < height (.expression .cast) := by decide
  refine Follows.of_eq ?_ (reader_cast _)
  refine (follows_readExpression (deeper_of_height hdeeper)).bind ?_
  intro inner after hafter _
  exact (follows_readCasts hafter).weaken hafter

theorem follows_castsBody (hterminated : Terminated ts) (hbound : position < ts.length)
    (inner : Tree) :
    Follows ts (.casts inner, position) position position (castsBody inner)
      (castsReader inner) := by
  refine follows_accepts hterminated hbound Token.noConfusion
    (fun column _ => castsReader_as inner column) ?_ ?_
  · intro hmore
    refine (follows_expectType hterminated hmore).bind ?_
    intro target after hafter _
    exact (follows_readCasts (by omega)).weaken (by omega)
  · intro hother
    exact (Follows.pure (Nat.le_refl _) hbound).of_eq (castsReader_end inner hother)

theorem follows_primaryBody_refused (hdrop : ts.drop position = t :: rest)
    (ht : startsValue t.token = false) :
    Follows ts caller position least primaryBody (Grammar.reader .primary) := by
  have hrefuses : Grammar.reader .primary (ts.drop position) = .error (.expectedValue t) := by
    rw [hdrop]
    exact reader_primary_refuses ht
  have hfails : primaryFrom t = Routine.throw (.expectedValue t) := by
    rcases t with ⟨token, column⟩
    cases token with
    | symbol s => cases s <;> first | rfl | cases ht
    | _ => first | rfl | cases ht
  unfold Follows primaryBody advance
  rw [hrefuses, Contract.meets_bind, Contract.meets_bind,
    Contract.meets_symbol (getElem?_of_drop hdrop), Contract.before_ok, Contract.meets_bind,
    Contract.meets_isInside, Contract.before_ok]
  split
  · next hmore =>
      rw [Contract.meets_bind, Contract.meets_step (of_decide_eq_true hmore)]
      change (contract ts).Meets ts caller (primaryFrom t) _ _
      rw [hfails]
      exact .error
  · change (contract ts).Meets ts caller (primaryFrom t) _ _
    rw [hfails]
    exact .error

theorem follows_sign {op : UnaryOp} (hentered : caller.2 < position) :
    Follows ts caller position (position + 1)
      (do let operand ← readExpression .primary; pure (Tree.unary op operand))
      (Grammar.reader .primary >>= fun operand => pure (Tree.unary op operand)) := by
  refine (follows_readExpression (Or.inl hentered)).bind ?_
  intro operand after hafter hbound
  exact .pure hafter hbound

theorem follows_call {name : String} (hentered : caller.2 < position) :
    Follows ts caller position (position + 1)
      (do let args ← readArguments; pure (Tree.call name args))
      (argumentsReader >>= fun args => pure (Tree.call name args)) := by
  refine (follows_readArguments hentered).bind ?_
  intro args after hafter hbound
  exact .pure hafter hbound

theorem meets_primaryFrom (hterminated : Terminated ts) (hbound : position < ts.length)
    (hentered : caller.2 < position) (ht : startsValue t.token = true) :
    (contract ts).Meets ts caller (primaryFrom t) position
      (Reads ts position (Grammar.reader .primary (t :: ts.drop position))) := by
  rcases t with ⟨token, column⟩
  cases token with
  | number x =>
      rw [reader_primary PrimaryForm.number]
      exact .ok (Nat.le_refl _) hbound
  | boolean b =>
      rw [reader_primary PrimaryForm.boolean]
      exact .ok (Nat.le_refl _) hbound
  | string s =>
      rw [reader_primary PrimaryForm.string]
      exact .ok (Nat.le_refl _) hbound
  | template segments =>
      rw [reader_primary PrimaryForm.template]
      exact .ok (Nat.le_refl _) hbound
  | name s =>
      let named : Reader Tree := fun ts => Grammar.reader .primary (⟨.name s, column⟩ :: ts)
      have hfollows :
          Follows ts caller position position (primaryFrom ⟨.name s, column⟩) named := by
        refine follows_accepts hterminated hbound Token.noConfusion
          (fun column' _ => reader_call s column column') ?_ ?_
        · intro hmore
          exact (follows_call (by omega)).weaken (by omega)
        · intro hother
          exact (Follows.pure (Nat.le_refl _) hbound).of_eq
            (reader_primary (PrimaryForm.get hother))
      exact hfollows
  | function f =>
      rw [reader_function]
      refine (follows_expectSymbol hterminated hbound .openParen).bind ?_
      intro _ after hafter hbound'
      exact (follows_call (by omega)).weaken (by omega)
  | symbol s =>
      cases s with
      | minus =>
          rw [reader_minus]
          exact (follows_sign hentered).weaken (Nat.le_succ _)
      | plus =>
          rw [reader_plus]
          exact (follows_sign hentered).weaken (Nat.le_succ _)
      | openParen =>
          rw [reader_parentheses]
          refine (follows_readExpression (Or.inl hentered)).bind ?_
          intro tree after hafter hbound'
          refine (follows_expectSymbol hterminated hbound' .closeParen).bind ?_
          intro _ after' hafter' hbound''
          exact .pure (by omega) hbound''
      | _ => cases ht
  | _ => cases ht

theorem follows_primaryBody (hterminated : Terminated ts) (hbound : position < ts.length) :
    Follows ts (.expression .primary, position) position (position + 1) primaryBody
      (Grammar.reader .primary) := by
  have hdrop := List.drop_eq_getElem_cons hbound
  cases ht : startsValue ts[position].token with
  | false => exact follows_primaryBody_refused hdrop ht
  | true =>
      have hmore : position + 1 < ts.length := by
        apply hterminated.lt_length hdrop
        intro hend
        rw [hend] at ht
        cases ht
      unfold Follows primaryBody
      rw [Contract.meets_bind, meets_advance hdrop hmore, Contract.before_ok, hdrop]
      exact meets_primaryFrom hterminated hmore (Nat.lt_succ_self _) ht

theorem follows_expressionBody (hterminated : Terminated ts) (hbound : position < ts.length)
    (category : Category) :
    Follows ts (.expression category, position) position (position + 1) (expressionBody category)
      (Grammar.reader category) :=
  match category with
  | .chain level => follows_chainBody level
  | .negation => follows_negationBody hterminated hbound
  | .cast => follows_castBody
  | .primary => follows_primaryBody hterminated hbound

/-!
# Bodies of lists

After an item of a list comes a comma and the rest of the list, or what ends it.
-/

theorem continued_congr {found : List Tree} {reader reader' : Reader (List Tree)}
    {ts' : List PlacedToken} (h : reader ts = reader' ts') :
    continued found reader ts = continued found reader' ts' := by
  change (reader ts >>= fun p => _) = (reader' ts' >>= fun p => _)
  rw [h]

theorem continued_nil (reader : Reader (List Tree)) : continued [] reader = reader := by
  simp [continued]

theorem continued_bind {found : List Tree} {reader : Reader β} {readers : β → Reader (List Tree)} :
    continued found (reader >>= readers) = reader >>= fun b => continued found (readers b) := by
  simp [continued]

theorem continued_cons {found : List Tree} {list : Reader (List Tree)} {item : Tree} :
    continued found (list >>= fun others => pure (item :: others)) =
      continued (found ++ [item]) list := by
  simp [continued]

theorem follows_itemsAfter {list : Reader (List Tree)} {stop : Reader Unit} {item : Tree}
    {found : List Tree} {more last : Code (List Tree)} (hterminated : Terminated ts)
    (hbound : position < ts.length)
    (hmore : position + 1 < ts.length →
      Follows ts caller (position + 1) least more (continued (found ++ [item]) list))
    (hlast : Follows ts caller position least last (stop >>= fun _ => pure (found ++ [item]))) :
    Follows ts caller position least (do if ← accepts (.symbol .comma) then more else last)
      (continued found (itemsAfter list stop item)) := by
  refine follows_accepts hterminated hbound Token.noConfusion ?_ hmore ?_
  · intro column rest
    rw [← continued_cons]
    exact continued_congr (itemsAfter_comma list stop item column)
  · intro hother
    have hend : continued found (stop >>= fun _ => pure [item]) =
        stop >>= fun _ => pure (found ++ [item]) := by
      simp [continued]
    refine hlast.of_eq ?_
    rw [← hend]
    exact continued_congr (itemsAfter_end list stop item hother)

theorem follows_argumentsBody (hterminated : Terminated ts) (hbound : position < ts.length) :
    Follows ts (.arguments, position) position (position + 1) argumentsBody argumentsReader := by
  have hdeeper : height (.argumentList []) < height .arguments := by decide
  refine follows_accepts hterminated hbound Token.noConfusion
    (fun column _ => argumentsReader_close column) ?_ ?_
  · intro hmore
    exact .pure (Nat.le_refl _) hmore
  · intro hother
    refine Follows.of_eq ?_ (argumentsReader_list hother)
    rw [← continued_nil argumentListReader]
    exact follows_readArgumentList (deeper_of_height hdeeper)

theorem follows_argumentListBody (hterminated : Terminated ts) (found : List Tree) :
    Follows ts (.argumentList found, position) position (position + 1) (argumentListBody found)
      (continued found argumentListReader) := by
  have hdeeper : height (.expression .expression) < height (.argumentList found) := by
    change height (.expression .expression) < 15
    decide
  refine Follows.of_eq ?_ (continued_congr (argumentListReader_eq _))
  rw [continued_bind]
  refine (follows_readExpression (deeper_of_height hdeeper)).bind ?_
  intro argument after hafter hbound
  refine follows_itemsAfter hterminated hbound ?_ ?_
  · intro hmore
    exact (follows_readArgumentList (Or.inl (by omega))).weaken (by omega)
  · refine (follows_expectSymbol hterminated hbound .closeParen).bind ?_
    intro _ last hlast hbound'
    exact .pure (by omega) hbound'

theorem follows_inputsBody (hterminated : Terminated ts) (hbound : position < ts.length)
    (found : List Tree) :
    Follows ts (.inputs found, position) position (position + 1) (inputsBody found)
      (continued found readsReader) := by
  refine Follows.of_eq ?_ (continued_congr (readsReader_eq _))
  simp only [continued_bind, readingReader, bind_assoc, pure_bind]
  refine (follows_expectName hterminated hbound).bind ?_
  intro name afterName hname hbound
  refine (follows_expectKeyword hterminated hbound .as).bind ?_
  intro _ afterAs has hbound
  refine (follows_expectType hterminated hbound).bind ?_
  intro target after hafter hbound
  refine follows_itemsAfter hterminated hbound ?_ ?_
  · intro hmore
    exact (follows_readInputs (by omega)).weaken (by omega)
  · rw [pure_bind]
    exact .pure (by omega) hbound

theorem follows_assignmentsBody (hterminated : Terminated ts) (hbound : position < ts.length)
    (declares : Bool) (found : List Tree) :
    Follows ts (.assignments declares found, position) position (position + 1)
      (assignmentsBody declares found) (continued found (assignmentsReader declares)) := by
  refine Follows.of_eq ?_ (continued_congr (assignmentsReader_eq declares _))
  simp only [continued_bind, assignmentReader, bind_assoc, pure_bind]
  refine (follows_expectName hterminated hbound).bind ?_
  intro name afterName hname hbound
  refine (follows_expectSymbol hterminated hbound .assign).bind ?_
  intro _ afterAssign hassign hbound
  refine (follows_readExpression (Or.inl (by omega))).bind ?_
  intro value after hafter hbound
  refine follows_itemsAfter hterminated hbound ?_ ?_
  · intro hmore
    exact (follows_readAssignments (Or.inl (by omega))).weaken (by omega)
  · rw [pure_bind]
    exact .pure (by omega) hbound

/-!
# Blocks

A tree is made of what was read, and no token may be left.
-/

def Ended (result : Except Cause (Tree × List PlacedToken)) (outcome : Except Cause (Tree × Nat)) :
    Prop :=
  outcome.map Prod.fst = result >>= ended

theorem meets_finish (hbound : position < ts.length) (tree : Tree) :
    (contract ts).Meets ts caller (finish tree) position
      (Ended (.ok (tree, ts.drop position))) := by
  have hdrop := List.drop_eq_getElem_cons hbound
  generalize ts[position] = t at hdrop
  rcases t with ⟨token, column⟩
  unfold finish Ended
  rw [Contract.meets_bind, Contract.meets_symbol (getElem?_of_drop hdrop), Contract.before_ok,
    hdrop]
  split
  · next hend =>
      cases hend
      exact rfl
  · next hother =>
      have hfront : (front (⟨token, column⟩ :: ts.drop (position + 1))).token ≠ .endOfInput :=
        hother
      exact (ended_error hfront).symm

theorem Follows.meets_finish {code : Code α} {reader : Reader α} {f : α → Tree}
    (h : Follows ts caller position least code reader) :
    (contract ts).Meets ts caller (code >>= fun a => finish (f a)) position
      (Ended ((reader >>= fun a => Pure.pure (f a)) (ts.drop position))) :=
  h.then_meets (fun _ => rfl) fun a _ _ hbound => ParserCursor.meets_finish hbound (f a)

theorem meets_blockBody (hterminated : Terminated ts) (hbound : position < ts.length) {role : Role}
    (hrole : role.isTerminal = false) :
    (contract ts).Meets ts (.block role, position) (blockBody role) position
      (Ended (blockReader role (ts.drop position))) := by
  have hexpression : height (.expression .expression) < height (.block role) := by
    change height (.expression .expression) < 17
    decide
  have hassignments (declares : Bool) :
      height (.assignments declares []) < height (.block role) :=
    Nat.lt_of_succ_lt (Nat.lt_succ_self 16)
  cases role with
  | start => cases hrole
  | finish => cases hrole
  | input =>
      refine (follows_expectKeyword hterminated hbound .read).then_meets (fun _ => rfl) ?_
      intro _ after hafter hbound
      rw [← continued_nil readsReader]
      exact (follows_readInputs (by omega)).meets_finish
  | output => exact (follows_readExpression (deeper_of_height hexpression)).meets_finish
  | decision =>
      have hreader : blockReader .decision = Grammar.reader .expression >>= fun tree => pure tree :=
        (bind_pure _).symm
      rw [hreader]
      exact (follows_readExpression (deeper_of_height hexpression)).meets_finish
  | declaration =>
      rw [blockReader, ← continued_nil (assignmentsReader true)]
      exact (follows_readAssignments (deeper_of_height (hassignments true))).meets_finish
  | assignment =>
      rw [blockReader, ← continued_nil (assignmentsReader false)]
      exact (follows_readAssignments (deeper_of_height (hassignments false))).meets_finish

/-!
# Every procedure keeps its contract

Parsing the tokens with a cursor comes to what the parser of the model comes to.  No call leads back
to a procedure of the same or a greater height before the cursor has moved on.
-/

theorem kept (hterminated : Terminated ts) : (contract ts).Kept ts := by
  intro p position hbound haccepts
  cases p with
  | block role =>
      refine (meets_blockBody hterminated hbound haccepts).mono ?_
      intro outcome hended
      change outcome.map Prod.fst = block role (ts.drop position)
      rw [block_eq]
      exact hended
  | inputs found => exact follows_inputsBody hterminated hbound found
  | assignments declares found => exact follows_assignmentsBody hterminated hbound declares found
  | expression category => exact follows_expressionBody hterminated hbound category
  | operators level left => exact follows_operatorsBody hterminated hbound level left
  | casts inner => exact follows_castsBody hterminated hbound inner
  | arguments => exact follows_argumentsBody hterminated hbound
  | argumentList found => exact follows_argumentListBody hterminated found

/-- Parsing the tokens with a cursor comes to the outcome.  No call leads back to a procedure of the
same or a greater height before the cursor has moved on, and the cursor is always on a token. -/
def ComesTo (role : Role) (ts : List PlacedToken) (outcome : Except Cause Tree) : Prop :=
  Cursor.Ends ts (Cursor.Sound height ts.length) (Cursor.State.start program (.block role)) outcome

theorem comesTo_iff (hterminated : Terminated ts) {role : Role} (hrole : role.isTerminal = false)
    {outcome : Except Cause Tree} : ComesTo role ts outcome ↔ outcome = block role ts := by
  have hsome : 0 < ts.length := by
    rcases hterminated with ⟨source, column, rfl⟩
    simp
  rcases (kept hterminated).ends (Procedure.block role) hsome hrole with ⟨final, hfinal, hends⟩
  have hblock : final.map Prod.fst = block role ts := hfinal
  rw [← hblock]
  constructor
  · exact fun h => h.unique hends
  · intro houtcome
    rw [houtcome]
    exact hends

theorem sound_of_reaches (hterminated : Terminated ts) {role : Role}
    (hrole : role.isTerminal = false) {s : Cursor.State program (.block role)}
    (h : Cursor.Reaches ts (Cursor.State.start program (.block role)) s) :
    Cursor.Sound height ts.length s ∧ Cursor.turn ts s ≠ .crashed := by
  have hends : ComesTo role ts (block role ts) := (comesTo_iff hterminated hrole).mpr rfl
  exact Cursor.Ends.along hends h

end

end ParserCursor
end Blockwise
