import Blockwise.Token.Lexer
import Blockwise.Tree

/-!
# From tokens to trees

Expressions are read by levels, from the loosest operator to the tightest: `or`, `and`, `not`,
comparisons, sums, products, powers, casts, and last the primary expressions.  Every binary
operator associates to the left.  A sign belongs to the primary expression after it, so `-2 ^ 2`
is the square of minus two.

Each reader returns what is left of the tokens, with a bound on its length.  Either a reader
consumes a token or it hands its tokens to a tighter level, and so reading ends.
-/

namespace Blockwise
namespace Parser

structure Parsed (α : Type) (bound : Nat) where
  result : α
  rest : List PlacedToken
  within : rest.length < bound

namespace Parsed

variable {α β : Type} {m n : Nat}

def map (f : α → β) (p : Parsed α n) : Parsed β n where
  result := f p.result
  rest := p.rest
  within := p.within

def weaken (h : m ≤ n) (p : Parsed α m) : Parsed α n where
  result := p.result
  rest := p.rest
  within := Nat.lt_of_lt_of_le p.within h

end Parsed

/-- The token at the front; a list that has run out counts as the end of the input. -/
def front : List PlacedToken → PlacedToken
  | [] => ⟨.endOfInput, 0⟩
  | t :: _ => t

/-!
# Required tokens

A reader fails with the token that stands where another one is required.
-/

def expectSymbol (symbol : Symbol) (ts : List PlacedToken) :
    Except Cause (Parsed Unit ts.length) :=
  match ts with
  | t :: rest =>
      if t.token = .symbol symbol then .ok ⟨(), rest, by simp⟩
      else .error (.expectedSymbol symbol t)
  | [] => .error (.expectedSymbol symbol (front []))

def expectKeyword (keyword : Keyword) (ts : List PlacedToken) :
    Except Cause (Parsed Unit ts.length) :=
  match ts with
  | t :: rest =>
      if t.token = .keyword keyword then .ok ⟨(), rest, by simp⟩
      else .error (.expectedKeyword keyword t)
  | [] => .error (.expectedKeyword keyword (front []))

def expectName (ts : List PlacedToken) : Except Cause (Parsed String ts.length) :=
  match ts with
  | ⟨.name s, _⟩ :: rest => .ok ⟨s, rest, by simp⟩
  | ts => .error (.expectedName (front ts))

def afterComma? (ts : List PlacedToken) : Option (Parsed Unit ts.length) :=
  match ts with
  | ⟨.symbol .comma, _⟩ :: rest => some ⟨(), rest, by simp⟩
  | _ => none

def expectType (ts : List PlacedToken) : Except Cause (Parsed ValueType ts.length) :=
  match ts with
  | ⟨.type t, _⟩ :: rest => .ok ⟨t, rest, by simp⟩
  | ts => .error (.expectedType (front ts))

/-!
# Levels

Each level of binary operators is tighter than the one before.
-/

inductive Level where
  | disjunction
  | conjunction
  | comparison
  | sum
  | product
  | power
  deriving DecidableEq, Repr

namespace Level

/-- How many readers stand between the level and the primary expressions. -/
def height : Level → Nat
  | disjunction => 13
  | conjunction => 11
  | comparison => 8
  | sum => 6
  | product => 4
  | power => 2

def operator? : Level → Token → Option BinaryOp
  | disjunction, .keyword .or => some .or
  | conjunction, .keyword .and => some .and
  | comparison, .symbol .equal => some .eq
  | comparison, .symbol .notEqual => some .ne
  | comparison, .symbol .greater => some .gt
  | comparison, .symbol .less => some .lt
  | comparison, .symbol .greaterEqual => some .ge
  | comparison, .symbol .lessEqual => some .le
  | sum, .symbol .plus => some .add
  | sum, .symbol .minus => some .sub
  | product, .symbol .star => some .mul
  | product, .symbol .slash => some .div
  | product, .symbol .percent => some .mod
  | power, .symbol .caret => some .pow
  | _, _ => none

end Level

/-!
# Expressions

A chain of operands is read with the operators between them, from left to right.
-/

def castTail (tree : Tree) (ts : List PlacedToken) :
    Except Cause (Parsed Tree (ts.length + 1)) :=
  match ts with
  | ⟨.keyword .as, _⟩ :: rest => do
      let ⟨target, rest', h⟩ ← expectType rest
      let tail ← castTail (.cast tree target) rest'
      return tail.weaken (by simp; omega)
  | ts => .ok ⟨tree, ts, by simp⟩
termination_by ts.length
decreasing_by simp; omega

mutual

def expression (level : Level) (ts : List PlacedToken) :
    Except Cause (Parsed Tree ts.length) := do
  let ⟨left, rest, h⟩ ← operand level ts
  let tail ← expressionTail level left rest
  return tail.weaken (by omega)
termination_by 20 * ts.length + level.height + 1
decreasing_by
  · omega
  · have := level.height; omega

/-- The operators and operands after the first operand, which is `left`. -/
def expressionTail (level : Level) (left : Tree) (ts : List PlacedToken) :
    Except Cause (Parsed Tree (ts.length + 1)) :=
  match ts with
  | [] => .ok ⟨left, [], by simp⟩
  | t :: rest =>
      match level.operator? t.token with
      | some op => do
          let ⟨right, rest', h⟩ ← operand level rest
          let tail ← expressionTail level (.binary op left right) rest'
          return tail.weaken (by simp; omega)
      | none => .ok ⟨left, t :: rest, by simp⟩
termination_by 20 * ts.length
decreasing_by
  · cases level <;> simp [Level.height] <;> omega
  · simp; omega

def operand (level : Level) (ts : List PlacedToken) : Except Cause (Parsed Tree ts.length) :=
  match level with
  | .disjunction => expression .conjunction ts
  | .conjunction => negation ts
  | .comparison => expression .sum ts
  | .sum => expression .product ts
  | .product => expression .power ts
  | .power => cast ts
termination_by 20 * ts.length + level.height
decreasing_by all_goals simp [Level.height]

def negation (ts : List PlacedToken) : Except Cause (Parsed Tree ts.length) :=
  match ts with
  | ⟨.keyword .not, _⟩ :: rest => do
      let tree ← negation rest
      return (tree.map (Tree.unary .not)).weaken (by simp)
  | ts => expression .comparison ts
termination_by 20 * ts.length + 10
decreasing_by
  · simp
  · simp [Level.height]

def cast (ts : List PlacedToken) : Except Cause (Parsed Tree ts.length) := do
  let ⟨tree, rest, h⟩ ← primary ts
  let tail ← castTail tree rest
  return tail.weaken (by omega)
termination_by 20 * ts.length + 1
decreasing_by omega

def primary (ts : List PlacedToken) : Except Cause (Parsed Tree ts.length) :=
  match ts with
  | ⟨.number x, _⟩ :: rest => .ok ⟨.literal (.number x), rest, by simp⟩
  | ⟨.boolean b, _⟩ :: rest => .ok ⟨.literal (.boolean b), rest, by simp⟩
  | ⟨.string s, _⟩ :: rest => .ok ⟨.literal (.string s), rest, by simp⟩
  | ⟨.template segments, _⟩ :: rest => .ok ⟨.template segments, rest, by simp⟩
  | ⟨.symbol .minus, _⟩ :: rest => do
      let tree ← primary rest
      return (tree.map (Tree.unary .negate)).weaken (by simp)
  | ⟨.symbol .plus, _⟩ :: rest => do
      let tree ← primary rest
      return (tree.map (Tree.unary .affirm)).weaken (by simp)
  | ⟨.symbol .openParen, _⟩ :: rest => do
      let ⟨tree, rest', h⟩ ← expression .disjunction rest
      let ⟨_, rest'', h'⟩ ← expectSymbol .closeParen rest'
      return ⟨tree, rest'', by simp; omega⟩
  | ⟨.function f, _⟩ :: rest => do
      let ⟨_, rest', h⟩ ← expectSymbol .openParen rest
      let args ← arguments rest'
      return (args.map (Tree.call f.name)).weaken (by simp; omega)
  | ⟨.name s, _⟩ :: ⟨.symbol .openParen, _⟩ :: rest => do
      let args ← arguments rest
      return (args.map (Tree.call s)).weaken (by simp; omega)
  | ⟨.name s, _⟩ :: rest => .ok ⟨.get s, rest, by simp⟩
  | ts => .error (.expectedValue (front ts))
termination_by 20 * ts.length
decreasing_by
  all_goals simp [Level.height]
  all_goals omega

def arguments (ts : List PlacedToken) : Except Cause (Parsed (List Tree) ts.length) :=
  match ts with
  | ⟨.symbol .closeParen, _⟩ :: rest => .ok ⟨[], rest, by simp⟩
  | ts => argumentList ts
termination_by 20 * ts.length + 16
decreasing_by omega

def argumentList (ts : List PlacedToken) : Except Cause (Parsed (List Tree) ts.length) := do
  let ⟨first, rest, h⟩ ← expression .disjunction ts
  match afterComma? rest with
  | some ⟨_, rest', h'⟩ =>
      let more ← argumentList rest'
      return (more.map (first :: ·)).weaken (by omega)
  | none =>
      let ⟨_, rest', h'⟩ ← expectSymbol .closeParen rest
      return ⟨[first], rest', by omega⟩
termination_by 20 * ts.length + 15
decreasing_by
  · simp [Level.height]
  · omega

end

def expr (ts : List PlacedToken) : Except Cause (Parsed Tree ts.length) :=
  expression .disjunction ts

/-!
# Blocks

All tokens of a block are read with its role.  The blocks that hold no source are refused before
their content is looked at.
-/

def reads (ts : List PlacedToken) : Except Cause (Parsed (List Tree) ts.length) := do
  let ⟨name, rest, h⟩ ← expectName ts
  let ⟨_, rest', h'⟩ ← expectKeyword .as rest
  let ⟨target, rest'', h''⟩ ← expectType rest'
  let first := Tree.set name (.read name target) true
  match afterComma? rest'' with
  | some ⟨_, more, shorter⟩ =>
      let others ← reads more
      return (others.map (first :: ·)).weaken (by omega)
  | none => return ⟨[first], rest'', by omega⟩
termination_by ts.length
decreasing_by omega

/-- The assignments of a block, each to a new variable if `declares`. -/
def assignments (declares : Bool) (ts : List PlacedToken) :
    Except Cause (Parsed (List Tree) ts.length) := do
  let ⟨name, rest, h⟩ ← expectName ts
  let ⟨_, rest', h'⟩ ← expectSymbol .assign rest
  let ⟨value, rest'', h''⟩ ← expr rest'
  let first := Tree.set name value declares
  match afterComma? rest'' with
  | some ⟨_, more, shorter⟩ =>
      let others ← assignments declares more
      return (others.map (first :: ·)).weaken (by omega)
  | none => return ⟨[first], rest'', by omega⟩
termination_by ts.length
decreasing_by omega

def finish {n : Nat} (p : Parsed Tree n) : Except Cause Tree :=
  match p.rest with
  | ⟨.endOfInput, _⟩ :: _ => .ok p.result
  | rest => .error (.unexpectedToken (front rest))

/-- Reads all tokens of a block with the role. -/
def block (role : Role) (ts : List PlacedToken) : Except Cause Tree :=
  match role with
  | .start | .finish => .error (.noSource role)
  | .input => do
      let ⟨_, rest, _⟩ ← expectKeyword .read ts
      let trees ← reads rest
      finish (trees.map Tree.sequence)
  | .output => do
      let tree ← expr ts
      finish (tree.map Tree.write)
  | .decision => do
      let tree ← expr ts
      finish tree
  | .declaration => do
      let trees ← assignments true ts
      finish (trees.map Tree.sequence)
  | .assignment => do
      let trees ← assignments false ts
      finish (trees.map Tree.sequence)

end Parser

namespace Tree

def ofSource (role : Role) (source : String) : Except Cause Tree :=
  if role.isTerminal then .error (.noSource role)
  else do
    let tokens ← Lexer.tokens source
    Parser.block role tokens

end Tree

end Blockwise
