import Blockwise.Tree.Parser

/-!
# The grammar of blocks

Which sequences of tokens stand for which trees, said without a reader of tokens.  Binary
operators come in levels, each a chain of operands folded to the left, whose operands belong to
the next tighter category: `or`, `and`, the prefix `not`, comparisons, sums, products, powers,
casts, and primary expressions.
-/

namespace Blockwise
namespace Grammar

open Blockwise.Parser (Level)

/-!
# Expressions

A chain of a level is a row of operands with binary operators of the level between them.  Its
operands belong to the next tighter category, and the loosest category is any expression.
-/

inductive Infix : Level → Token → BinaryOp → Prop where
  | or : Infix .disjunction (.keyword .or) .or
  | and : Infix .conjunction (.keyword .and) .and
  | equal : Infix .comparison (.symbol .equal) .eq
  | notEqual : Infix .comparison (.symbol .notEqual) .ne
  | greater : Infix .comparison (.symbol .greater) .gt
  | less : Infix .comparison (.symbol .less) .lt
  | greaterEqual : Infix .comparison (.symbol .greaterEqual) .ge
  | lessEqual : Infix .comparison (.symbol .lessEqual) .le
  | plus : Infix .sum (.symbol .plus) .add
  | minus : Infix .sum (.symbol .minus) .sub
  | star : Infix .product (.symbol .star) .mul
  | slash : Infix .product (.symbol .slash) .div
  | percent : Infix .product (.symbol .percent) .mod
  | caret : Infix .power (.symbol .caret) .pow

inductive Category where
  | chain (level : Level)
  | negation
  | cast
  | primary

namespace Category

def operands : Level → Category
  | .disjunction => chain .conjunction
  | .conjunction => negation
  | .comparison => chain .sum
  | .sum => chain .product
  | .product => chain .power
  | .power => cast

def expression : Category := chain .disjunction

end Category

def separated : List (List Token) → List Token
  | [] => []
  | [tokens] => tokens
  | tokens :: next :: rest => tokens ++ .symbol .comma :: separated (next :: rest)

def parenthesized (args : List (List Token)) : List Token :=
  .symbol .openParen :: separated args ++ [.symbol .closeParen]

/-- The tokens are an expression of the category and stand for the tree. -/
inductive Derives : Category → List Token → Tree → Prop where
  -- levels of binary operators
  | operand {level : Level} {tokens : List Token} {tree : Tree} :
      Derives (.operands level) tokens tree → Derives (.chain level) tokens tree
  | fold {level : Level} {tokens tokens' : List Token} {token : Token} {op : BinaryOp}
      {left right : Tree} :
      Derives (.chain level) tokens left → Infix level token op →
      Derives (.operands level) tokens' right →
      Derives (.chain level) (tokens ++ token :: tokens') (.binary op left right)
  -- negations
  | comparison {tokens : List Token} {tree : Tree} :
      Derives (.chain .comparison) tokens tree → Derives .negation tokens tree
  | not {tokens : List Token} {tree : Tree} :
      Derives .negation tokens tree →
      Derives .negation (.keyword .not :: tokens) (.unary .not tree)
  -- casts
  | uncast {tokens : List Token} {tree : Tree} :
      Derives .primary tokens tree → Derives .cast tokens tree
  | cast {tokens : List Token} {tree : Tree} {target : ValueType} :
      Derives .cast tokens tree →
      Derives .cast (tokens ++ [.keyword .as, .type target]) (.cast tree target)
  -- primary expressions
  | number {x : Float} : Derives .primary [.number x] (.literal (.number x))
  | boolean {b : Bool} : Derives .primary [.boolean b] (.literal (.boolean b))
  | string {s : String} : Derives .primary [.string s] (.literal (.string s))
  | template {segments : List Segment} :
      Derives .primary [.template segments] (.template segments)
  | negate {tokens : List Token} {tree : Tree} :
      Derives .primary tokens tree →
      Derives .primary (.symbol .minus :: tokens) (.unary .negate tree)
  | affirm {tokens : List Token} {tree : Tree} :
      Derives .primary tokens tree →
      Derives .primary (.symbol .plus :: tokens) (.unary .affirm tree)
  | parentheses {tokens : List Token} {tree : Tree} :
      Derives .expression tokens tree →
      Derives .primary (.symbol .openParen :: tokens ++ [.symbol .closeParen]) tree
  | builtin {f : Function} {args : List (List Token × Tree)} :
      (∀ arg ∈ args, Derives .expression arg.1 arg.2) →
      Derives .primary (.function f :: parenthesized (args.map Prod.fst))
        (.call f.name (args.map Prod.snd))
  | call {s : String} {args : List (List Token × Tree)} :
      (∀ arg ∈ args, Derives .expression arg.1 arg.2) →
      Derives .primary (.name s :: parenthesized (args.map Prod.fst))
        (.call s (args.map Prod.snd))
  | get {s : String} : Derives .primary [.name s] (.get s)

/-!
# Blocks

An input block is a list of readings, and a block of assignments a list of those.  Other blocks are
one expression.  The tokens of a list have a comma between each two items.
-/

inductive Reading : List Token → Tree → Prop where
  | read {s : String} {target : ValueType} :
      Reading [.name s, .keyword .as, .type target] (.set s (.read s target) true)

inductive Assignment (declares : Bool) : List Token → Tree → Prop where
  | assign {s : String} {tokens : List Token} {tree : Tree} :
      Derives .expression tokens tree →
      Assignment declares (.name s :: .symbol .assign :: tokens) (.set s tree declares)

def Listed (item : List Token → Tree → Prop) (tokens : List Token) (trees : List Tree) : Prop :=
  ∃ items : List (List Token × Tree), items ≠ [] ∧ (∀ i ∈ items, item i.1 i.2) ∧
    separated (items.map Prod.fst) = tokens ∧ items.map Prod.snd = trees

/-- The tokens are the source of a block with the role and stand for the tree. -/
inductive BlockDerives : Role → List Token → Tree → Prop where
  | input {tokens : List Token} {trees : List Tree} :
      Listed Reading tokens trees →
      BlockDerives .input (.keyword .read :: tokens) (.sequence trees)
  | output {tokens : List Token} {tree : Tree} :
      Derives .expression tokens tree → BlockDerives .output tokens (.write tree)
  | decision {tokens : List Token} {tree : Tree} :
      Derives .expression tokens tree → BlockDerives .decision tokens tree
  | declaration {tokens : List Token} {trees : List Tree} :
      Listed (Assignment true) tokens trees →
      BlockDerives .declaration tokens (.sequence trees)
  | assignment {tokens : List Token} {trees : List Tree} :
      Listed (Assignment false) tokens trees →
      BlockDerives .assignment tokens (.sequence trees)

def tokensOf (ts : List PlacedToken) : List Token :=
  ts.map PlacedToken.token

@[simp] theorem tokensOf_nil : tokensOf [] = [] := rfl

@[simp] theorem tokensOf_cons (t : PlacedToken) (ts : List PlacedToken) :
    tokensOf (t :: ts) = t.token :: tokensOf ts := rfl

@[simp] theorem tokensOf_append (ts ts' : List PlacedToken) :
    tokensOf (ts ++ ts') = tokensOf ts ++ tokensOf ts' :=
  List.map_append

theorem cons_of_tokensOf {ts : List PlacedToken} {token : Token} {more : List Token}
    (h : tokensOf ts = token :: more) :
    ∃ column ts', ts = ⟨token, column⟩ :: ts' ∧ tokensOf ts' = more := by
  rcases List.map_eq_cons_iff.mp h with ⟨⟨found, column⟩, ts', rfl, rfl, hmore⟩
  exact ⟨column, ts', rfl, hmore⟩

theorem append_of_tokensOf {ts : List PlacedToken} {tokens tokens' : List Token}
    (h : tokensOf ts = tokens ++ tokens') :
    ∃ used used', ts = used ++ used' ∧ tokensOf used = tokens ∧ tokensOf used' = tokens' :=
  List.map_eq_append_iff.mp h

theorem nil_of_tokensOf {ts : List PlacedToken} (h : tokensOf ts = []) : ts = [] :=
  List.map_eq_nil_iff.mp h

theorem front_of_tokensOf {ts rest : List PlacedToken} {token : Token} {more : List Token}
    (h : tokensOf ts = token :: more) : (Parser.front (ts ++ rest)).token = token := by
  rcases cons_of_tokensOf h with ⟨column, ts', rfl, _⟩
  rfl

/-!
# Lists of items

An item of a list is the last of it, or comes before a comma and a shorter list.
-/

theorem separated_cons {items : List (List Token)} (tokens : List Token) (h : items ≠ []) :
    separated (tokens :: items) = tokens ++ .symbol .comma :: separated items := by
  cases items with
  | nil => exact absurd rfl h
  | cons next rest => rfl

theorem head_of_separated {tokens : List Token} {token : Token} {more : List Token}
    (items : List (List Token)) (h : tokens = token :: more) :
    ∃ more', separated (tokens :: items) = token :: more' := by
  subst h
  cases items with
  | nil => exact ⟨more, rfl⟩
  | cons next rest => exact ⟨_, rfl⟩

theorem parentheses_of_tokensOf {ts : List PlacedToken} {items : List (List Token)}
    (h : tokensOf ts = parenthesized items) :
    ∃ column column' used,
      ts = ⟨.symbol .openParen, column⟩ :: (used ++ [⟨.symbol .closeParen, column'⟩]) ∧
      tokensOf used = separated items := by
  rcases cons_of_tokensOf h with ⟨column, inner, rfl, hinner⟩
  rcases append_of_tokensOf hinner with ⟨used, close, rfl, hused, hclose⟩
  rcases cons_of_tokensOf hclose with ⟨column', after, rfl, hafter⟩
  rw [nil_of_tokensOf hafter]
  exact ⟨column, column', used, rfl, hused⟩

theorem Listed.one {item : List Token → Tree → Prop} {tokens : List Token} {tree : Tree}
    (h : item tokens tree) : Listed item tokens [tree] := by
  refine ⟨[(tokens, tree)], by simp, ?_, rfl, rfl⟩
  intro i hi
  rw [List.mem_singleton.mp hi]
  exact h

theorem Listed.more {item : List Token → Tree → Prop} {tokens tokens' : List Token} {tree : Tree}
    {trees : List Tree} (h : item tokens tree) (hmore : Listed item tokens' trees) :
    Listed item (tokens ++ .symbol .comma :: tokens') (tree :: trees) := by
  rcases hmore with ⟨items, hnonempty, hitems, rfl, rfl⟩
  refine ⟨(tokens, tree) :: items, by simp, ?_, ?_, rfl⟩
  · intro i hi
    rcases List.mem_cons.mp hi with rfl | hrest
    · exact h
    · exact hitems i hrest
  · exact separated_cons tokens (by simpa using hnonempty)

theorem Listed.induct {item : List Token → Tree → Prop}
    {motive : (tokens : List Token) → (trees : List Tree) → Listed item tokens trees → Prop}
    (one : ∀ tokens tree (h : item tokens tree), motive tokens [tree] (Listed.one h))
    (more : ∀ tokens tokens' tree trees (h : item tokens tree)
      (hmore : Listed item tokens' trees), motive tokens' trees hmore →
      motive (tokens ++ .symbol .comma :: tokens') (tree :: trees) (Listed.more h hmore))
    {tokens : List Token} {trees : List Tree} (h : Listed item tokens trees) :
    motive tokens trees h := by
  rcases h with ⟨items, hnonempty, hitems, rfl, rfl⟩
  induction items with
  | nil => exact absurd rfl hnonempty
  | cons first rest ih =>
      have hfirst := hitems first List.mem_cons_self
      have hrest : ∀ i ∈ rest, item i.1 i.2 := fun i hi => hitems i (List.mem_cons_of_mem first hi)
      cases rest with
      | nil => exact one first.1 first.2 hfirst
      | cons next others =>
          exact more first.1 _ first.2 _ hfirst ⟨next :: others, by simp, hrest, rfl, rfl⟩
            (ih (by simp) hrest)

end Grammar
end Blockwise
