import Blockwise.Proofs.Grammar
import Blockwise.Proofs.Grammar.Outcome
import Blockwise.Proofs.Grammar.Lookahead

/-!
# The readers of the parser, one after another

Without the bounds on what they leave, the readers of the parser are sequences of other readers,
chosen by the token at the front.
-/

namespace Blockwise
namespace Grammar

open Blockwise.Parser

variable {α β : Type} {m n : Nat} {ts : List PlacedToken} {level : Level}

/-!
# Readers without bounds

An outcome is plain without the bound on the tokens that are left.
-/

/-- An outcome without the bound on the tokens that are left. -/
def plain (outcome : Except Cause (Parsed α n)) : Except Cause (α × List PlacedToken) :=
  outcome.map fun p => (p.result, p.rest)

theorem plain_bind {outcome : Except Cause (Parsed β m)}
    {next : Parsed β m → Except Cause (Parsed α n)} (reader : β → Reader α)
    (h : ∀ b mid within, plain (next ⟨b, mid, within⟩) = reader b mid) :
    plain (outcome >>= next) = (plain outcome >>= fun p => reader p.1 p.2) := by
  cases outcome with
  | error cause => rfl
  | ok p => exact h p.result p.rest p.within

theorem plain_weaken {outcome : Except Cause (Parsed α m)} {h : m ≤ n} :
    plain (outcome >>= fun p => pure (p.weaken h)) = plain outcome := by
  cases outcome <;> rfl

theorem plain_map {outcome : Except Cause (Parsed β m)} {f : β → α} {h : m ≤ n} :
    plain (outcome >>= fun p => pure ((p.map f).weaken h)) =
      (plain outcome >>= fun p => pure (f p.1, p.2)) := by
  cases outcome <;> rfl

/-!
# Readers of single tokens

A reader of a single token blames the token if it has no use for it.
-/

def symbolReader (symbol : Symbol) : Reader Unit :=
  fun ts => plain (expectSymbol symbol ts)

def keywordReader (keyword : Keyword) : Reader Unit :=
  fun ts => plain (expectKeyword keyword ts)

def nameReader : Reader String :=
  fun ts => plain (expectName ts)

def typeReader : Reader ValueType :=
  fun ts => plain (expectType ts)

theorem symbolReader_self (symbol : Symbol) (column : Nat) (ts : List PlacedToken) :
    symbolReader symbol (⟨.symbol symbol, column⟩ :: ts) = .ok ((), ts) := by
  simp only [symbolReader, expectSymbol, if_true]
  rfl

theorem symbolReader_refuses {symbol : Symbol} (h : (front ts).token ≠ .symbol symbol) :
    symbolReader symbol ts = .error (.expectedSymbol symbol (front ts)) := by
  cases ts with
  | nil => rfl
  | cons t more =>
      change t.token ≠ .symbol symbol at h
      simp only [symbolReader, expectSymbol, h, if_false]
      rfl

theorem symbolReader_blames {symbol : Symbol} (h : (front ts).token ≠ .symbol symbol) :
    Blames (symbolReader symbol) ts ts :=
  ⟨_, symbolReader_refuses h, rfl⟩

theorem keywordReader_self (keyword : Keyword) (column : Nat) (ts : List PlacedToken) :
    keywordReader keyword (⟨.keyword keyword, column⟩ :: ts) = .ok ((), ts) := by
  simp only [keywordReader, expectKeyword, if_true]
  rfl

theorem keywordReader_refuses {keyword : Keyword} (h : (front ts).token ≠ .keyword keyword) :
    keywordReader keyword ts = .error (.expectedKeyword keyword (front ts)) := by
  cases ts with
  | nil => rfl
  | cons t more =>
      change t.token ≠ .keyword keyword at h
      simp only [keywordReader, expectKeyword, h, if_false]
      rfl

theorem keywordReader_blames {keyword : Keyword} (h : (front ts).token ≠ .keyword keyword) :
    Blames (keywordReader keyword) ts ts :=
  ⟨_, keywordReader_refuses h, rfl⟩

theorem nameReader_refuses (h : ∀ s, (front ts).token ≠ .name s) :
    nameReader ts = .error (.expectedName (front ts)) := by
  change plain (expectName ts) = _
  unfold expectName
  split
  · exact absurd rfl (h _)
  · rfl

theorem nameReader_blames (h : ∀ s, (front ts).token ≠ .name s) : Blames nameReader ts ts :=
  ⟨_, nameReader_refuses h, rfl⟩

theorem typeReader_refuses (h : ∀ target, (front ts).token ≠ .type target) :
    typeReader ts = .error (.expectedType (front ts)) := by
  change plain (expectType ts) = _
  unfold expectType
  split
  · exact absurd rfl (h _)
  · rfl

theorem typeReader_blames (h : ∀ target, (front ts).token ≠ .type target) :
    Blames typeReader ts ts :=
  ⟨_, typeReader_refuses h, rfl⟩

/-!
# Readers of expressions

The readers call each other from the loosest category to the tightest, and a primary expression is
read as its first token says.
-/

def reader : Category → Reader Tree
  | .chain level => fun ts => plain (expression level ts)
  | .negation => fun ts => plain (negation ts)
  | .cast => fun ts => plain (Parser.cast ts)
  | .primary => fun ts => plain (primary ts)

def operatorsReader (level : Level) (left : Tree) : Reader Tree :=
  fun ts => plain (expressionTail level left ts)

def castsReader (inner : Tree) : Reader Tree :=
  fun ts => plain (castTail inner ts)

def argumentsReader : Reader (List Tree) :=
  fun ts => plain (arguments ts)

def argumentListReader : Reader (List Tree) :=
  fun ts => plain (argumentList ts)

theorem plain_operand (level : Level) (ts : List PlacedToken) :
    plain (operand level ts) = reader (.operands level) ts := by
  cases level <;> rw [operand] <;> rfl

theorem reader_chain (level : Level) (ts : List PlacedToken) :
    reader (.chain level) ts =
      (reader (.operands level) >>= fun left => operatorsReader level left) ts := by
  change plain (expression level ts) = _
  rw [expression, plain_bind (operatorsReader level) fun _ _ _ => plain_weaken, plain_operand]
  rfl

theorem operatorsReader_operator {token : Token} {op : BinaryOp} (left : Tree) (column : Nat)
    (h : level.operator? token = some op) :
    operatorsReader level left (⟨token, column⟩ :: ts) =
      (reader (.operands level) >>= fun right => operatorsReader level (.binary op left right))
        ts := by
  change plain (expressionTail level left (⟨token, column⟩ :: ts)) = _
  rw [expressionTail]
  simp only [h]
  rw [plain_bind (fun right => operatorsReader level (.binary op left right))
    fun _ _ _ => plain_weaken, plain_operand]
  rfl

theorem operatorsReader_end (left : Tree) (h : level.operator? (front ts).token = none) :
    operatorsReader level left ts = .ok (left, ts) := by
  rcases (yields_expressionTail_end h).mpr ⟨rfl, rfl⟩ with ⟨within, hread⟩
  change plain (expressionTail level left ts) = _
  rw [hread]
  rfl

theorem castsReader_as (inner : Tree) (column : Nat) :
    castsReader inner (⟨.keyword .as, column⟩ :: ts) =
      (typeReader >>= fun target => castsReader (.cast inner target)) ts := by
  change plain (castTail inner (⟨.keyword .as, column⟩ :: ts)) = _
  rw [castTail, plain_bind (fun target => castsReader (.cast inner target))
    fun _ _ _ => plain_weaken]
  rfl

theorem castsReader_end (inner : Tree) (h : (front ts).token ≠ .keyword .as) :
    castsReader inner ts = .ok (inner, ts) := by
  rcases (yields_castTail_end h).mpr ⟨rfl, rfl⟩ with ⟨within, hread⟩
  change plain (castTail inner ts) = _
  rw [hread]
  rfl

theorem reader_cast (ts : List PlacedToken) :
    reader .cast ts = (reader .primary >>= fun inner => castsReader inner) ts := by
  change plain (Parser.cast ts) = _
  rw [Parser.cast, plain_bind castsReader fun _ _ _ => plain_weaken]
  rfl

theorem reader_not (column : Nat) :
    reader .negation (⟨.keyword .not, column⟩ :: ts) =
      (reader .negation >>= fun operand => pure (.unary .not operand)) ts := by
  change plain (negation (⟨.keyword .not, column⟩ :: ts)) = _
  rw [negation, plain_map]
  rfl

theorem reader_negation (h : (front ts).token ≠ .keyword .not) :
    reader .negation ts = reader (.chain .comparison) ts := by
  change plain (negation ts) = plain (expression .comparison ts)
  rw [negation_comparison h]

theorem reader_minus (column : Nat) :
    reader .primary (⟨.symbol .minus, column⟩ :: ts) =
      (reader .primary >>= fun operand => pure (.unary .negate operand)) ts := by
  change plain (primary (⟨.symbol .minus, column⟩ :: ts)) = _
  rw [primary, plain_map]
  rfl

theorem reader_plus (column : Nat) :
    reader .primary (⟨.symbol .plus, column⟩ :: ts) =
      (reader .primary >>= fun operand => pure (.unary .affirm operand)) ts := by
  change plain (primary (⟨.symbol .plus, column⟩ :: ts)) = _
  rw [primary, plain_map]
  rfl

theorem reader_parentheses (column : Nat) :
    reader .primary (⟨.symbol .openParen, column⟩ :: ts) =
      (do
        let tree ← reader .expression
        symbolReader .closeParen
        pure tree : Reader Tree) ts := by
  change plain (primary (⟨.symbol .openParen, column⟩ :: ts)) = _
  rw [primary, plain_bind (fun tree => do symbolReader .closeParen; pure tree)]
  · rfl
  · intro tree mid within
    rw [plain_bind (fun _ => pure tree) fun _ _ _ => rfl]
    rfl

theorem reader_function (f : Function) (column : Nat) :
    reader .primary (⟨.function f, column⟩ :: ts) =
      (do
        symbolReader .openParen
        let args ← argumentsReader
        pure (.call f.name args) : Reader Tree) ts := by
  change plain (primary (⟨.function f, column⟩ :: ts)) = _
  rw [primary, plain_bind (fun _ => do let args ← argumentsReader; pure (.call f.name args))]
  · rfl
  · intro _ mid within
    rw [plain_map]
    rfl

theorem reader_call (s : String) (column column' : Nat) :
    reader .primary (⟨.name s, column⟩ :: ⟨.symbol .openParen, column'⟩ :: ts) =
      (argumentsReader >>= fun args => pure (.call s args)) ts := by
  change plain (primary (⟨.name s, column⟩ :: ⟨.symbol .openParen, column'⟩ :: ts)) = _
  rw [primary, plain_map]
  rfl

theorem reader_primary {tree : Tree} {rest : List PlacedToken} (h : PrimaryForm ts tree rest) :
    reader .primary ts = .ok (tree, rest) := by
  rcases yields_of_primaryForm h with ⟨within, hread⟩
  change plain (primary ts) = _
  rw [hread]
  rfl

def startsValue : Token → Bool
  | .number _ | .boolean _ | .string _ | .template _ | .function _ | .name _ => true
  | .symbol .minus | .symbol .plus | .symbol .openParen => true
  | _ => false

theorem reader_primary_refuses (h : startsValue (front ts).token = false) :
    reader .primary ts = .error (.expectedValue (front ts)) := by
  change plain (primary ts) = _
  unfold primary
  split
  all_goals first | cases h | rfl

theorem reader_primary_blames (h : startsValue (front ts).token = false) :
    Blames (reader .primary) ts ts :=
  ⟨_, reader_primary_refuses h, rfl⟩

theorem reader_name (s : String) (column : Nat) (ts : List PlacedToken) :
    reader .primary (⟨.name s, column⟩ :: ts) = reader .primary (⟨.name s, 0⟩ :: ts) := by
  by_cases hopen : (front ts).token = .symbol .openParen
  · rcases cons_of_front hopen Token.noConfusion with ⟨column', more, rfl⟩
    rw [reader_call, reader_call]
  · rw [reader_primary (PrimaryForm.get hopen), reader_primary (PrimaryForm.get hopen)]

theorem argumentsReader_close (column : Nat) :
    argumentsReader (⟨.symbol .closeParen, column⟩ :: ts) = .ok ([], ts) := by
  change plain (arguments (⟨.symbol .closeParen, column⟩ :: ts)) = _
  rw [arguments]
  rfl

theorem argumentsReader_list (h : (front ts).token ≠ .symbol .closeParen) :
    argumentsReader ts = argumentListReader ts := by
  change plain (arguments ts) = plain (argumentList ts)
  unfold arguments
  split
  · exact absurd rfl h
  · rfl

/-!
# Lists

After an item comes a comma and more items, or the end of the list.
-/

def itemsAfter (list : Reader (List α)) (stop : Reader Unit) (first : α) : Reader (List α) :=
  fun ts =>
    match afterComma? ts with
    | some ⟨_, more, _⟩ => (list >>= fun others => pure (first :: others)) more
    | none => (stop >>= fun _ => pure [first]) ts

theorem itemsAfter_comma (list : Reader (List α)) (stop : Reader Unit) (first : α)
    (column : Nat) :
    itemsAfter list stop first (⟨.symbol .comma, column⟩ :: ts) =
      (list >>= fun others => pure (first :: others)) ts := rfl

theorem itemsAfter_end (list : Reader (List α)) (stop : Reader Unit) (first : α)
    (h : (front ts).token ≠ .symbol .comma) :
    itemsAfter list stop first ts = (stop >>= fun _ => pure [first]) ts := by
  rw [itemsAfter, afterComma?_eq_none h]

theorem argumentListReader_eq (ts : List PlacedToken) :
    argumentListReader ts =
      (reader .expression >>= itemsAfter argumentListReader (symbolReader .closeParen)) ts := by
  change plain (argumentList ts) = _
  rw [argumentList, plain_bind (itemsAfter argumentListReader (symbolReader .closeParen))]
  · rfl
  · intro first mid within
    simp only [itemsAfter]
    cases afterComma? mid with
    | none =>
        rw [plain_bind (fun _ => pure [first]) fun _ _ _ => rfl]
        rfl
    | some p =>
        simp only
        rw [plain_map]
        rfl

def readsReader : Reader (List Tree) :=
  fun ts => plain (reads ts)

def readingReader : Reader Tree := do
  let name ← nameReader
  keywordReader .as
  let target ← typeReader
  pure (.set name (.read name target) true)

theorem readsReader_eq (ts : List PlacedToken) :
    readsReader ts = (readingReader >>= itemsAfter readsReader (pure ())) ts := by
  change plain (reads ts) = _
  rw [reads, plain_bind (fun name => do
    keywordReader .as
    let target ← typeReader
    itemsAfter readsReader (pure ()) (.set name (.read name target) true))]
  · simp only [readingReader, bind_assoc, pure_bind]
    rfl
  · intro name afterName within
    rw [plain_bind (fun _ => do
      let target ← typeReader
      itemsAfter readsReader (pure ()) (.set name (.read name target) true))]
    · rfl
    · intro _ afterAs within'
      rw [plain_bind (fun target =>
        itemsAfter readsReader (pure ()) (.set name (.read name target) true))]
      · rfl
      · intro target mid within''
        simp only [itemsAfter]
        cases afterComma? mid with
        | none => rfl
        | some p =>
            simp only
            rw [plain_map]
            rfl

def assignmentsReader (declares : Bool) : Reader (List Tree) :=
  fun ts => plain (assignments declares ts)

def assignmentReader (declares : Bool) : Reader Tree := do
  let name ← nameReader
  symbolReader .assign
  let value ← reader .expression
  pure (.set name value declares)

theorem assignmentsReader_eq (declares : Bool) (ts : List PlacedToken) :
    assignmentsReader declares ts =
      (assignmentReader declares >>= itemsAfter (assignmentsReader declares) (pure ())) ts := by
  change plain (assignments declares ts) = _
  rw [assignments, plain_bind (fun name => do
    symbolReader .assign
    let value ← reader .expression
    itemsAfter (assignmentsReader declares) (pure ()) (.set name value declares))]
  · simp only [assignmentReader, bind_assoc, pure_bind]
    rfl
  · intro name afterName within
    rw [plain_bind (fun _ => do
      let value ← reader .expression
      itemsAfter (assignmentsReader declares) (pure ()) (.set name value declares))]
    · rfl
    · intro _ afterAssign within'
      rw [plain_bind (fun value =>
        itemsAfter (assignmentsReader declares) (pure ()) (.set name value declares))]
      · rfl
      · intro value mid within''
        simp only [itemsAfter]
        cases afterComma? mid with
        | none => rfl
        | some p =>
            simp only
            rw [plain_map]
            rfl

/-!
# Blocks

A block is read up to its end, where no token may be left.
-/

def blockReader : Role → Reader Tree
  | .start => fun _ => .error (.noSource .start)
  | .finish => fun _ => .error (.noSource .finish)
  | .input => do
      keywordReader .read
      let trees ← readsReader
      pure (.sequence trees)
  | .output => do
      let tree ← reader .expression
      pure (.write tree)
  | .decision => reader .expression
  | .declaration => do
      let trees ← assignmentsReader true
      pure (.sequence trees)
  | .assignment => do
      let trees ← assignmentsReader false
      pure (.sequence trees)

def ended (p : Tree × List PlacedToken) : Except Cause Tree :=
  match p.2 with
  | ⟨.endOfInput, _⟩ :: _ => .ok p.1
  | rest => .error (.unexpectedToken (front rest))

theorem finish_eq {outcome : Except Cause (Parsed α n)} {f : α → Tree} :
    (outcome >>= fun p => finish (p.map f)) =
      ((plain outcome >>= fun p => pure (f p.1, p.2)) >>= ended) := by
  cases outcome <;> rfl

theorem block_eq (role : Role) (ts : List PlacedToken) :
    block role ts = blockReader role ts >>= ended := by
  cases role with
  | start => rfl
  | finish => rfl
  | input =>
      have hblock : block .input ts = (expectKeyword .read ts >>= fun p =>
          reads p.rest >>= fun trees => finish (trees.map .sequence)) := rfl
      have hreader : blockReader .input ts = (plain (expectKeyword .read ts) >>= fun p =>
          (readsReader >>= fun trees => pure (.sequence trees)) p.2) := rfl
      rw [hblock, hreader]
      cases expectKeyword .read ts with
      | error cause => rfl
      | ok p => exact finish_eq
  | output => exact finish_eq
  | decision =>
      rw [block_decision, finish_eq]
      change _ = plain (expr ts) >>= ended
      cases plain (expr ts) <;> rfl
  | declaration => exact finish_eq
  | assignment => exact finish_eq

end Grammar
end Blockwise
