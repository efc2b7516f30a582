import Blockwise.Proofs.Grammar
import Blockwise.Proofs.Grammar.Outcome

/-!
# What the parser reads is derived

Every reader consumes tokens that derive its result, and leaves the others untouched.  The
readers call each other on shorter lists of tokens, or on the same list at a tighter category, so
the categories are treated from the tightest to the loosest for lists of each length.
-/

namespace Blockwise
namespace Grammar

open Blockwise.Parser

def Reads : Category → List PlacedToken → Tree → List PlacedToken → Prop
  | .chain level, ts, tree, rest => Yields (expression level ts) tree rest
  | .negation, ts, tree, rest => Yields (negation ts) tree rest
  | .cast, ts, tree, rest => Yields (Parser.cast ts) tree rest
  | .primary, ts, tree, rest => Yields (primary ts) tree rest

theorem yields_operand {level : Level} {ts rest : List PlacedToken} {tree : Tree} :
    Yields (operand level ts) tree rest ↔ Reads (.operands level) ts tree rest := by
  cases level <;> rw [operand] <;> rfl

theorem operator?_eq_some_iff {level : Level} {token : Token} {op : BinaryOp} :
    level.operator? token = some op ↔ Infix level token op := by
  constructor
  · intro h
    unfold Level.operator? at h
    split at h <;> cases h <;> constructor
  · intro h
    cases h <;> rfl

/-- What a reader consumes derives what it yields. -/
def Sound (category : Category) (ts : List PlacedToken) : Prop :=
  ∀ tree rest, Reads category ts tree rest →
    ∃ used, ts = used ++ rest ∧ Derives category (tokensOf used) tree

/-!
# Lists

A reader of items and commas consumes a list, if its reader of one item consumes an item.
-/

section Lists

variable (reader : List PlacedToken → List Tree → List PlacedToken → Prop)
  (entry : List PlacedToken → Tree → List PlacedToken → Prop)
  {stop : List PlacedToken → List PlacedToken → Prop} (item : List Token → Tree → Prop)

theorem listed_of_reader {bound : Nat}
    (hreader : ∀ ts trees rest, reader ts trees rest →
      ∃ tree mid, entry ts tree mid ∧ ListForm reader stop tree mid trees rest)
    (hentry : ∀ ts tree mid, ts.length ≤ bound → entry ts tree mid →
      ∃ used, ts = used ++ mid ∧ item (tokensOf used) tree)
    {ts : List PlacedToken} {trees : List Tree} {rest : List PlacedToken}
    (hlength : ts.length ≤ bound) (h : reader ts trees rest) :
    ∃ used mid, ts = used ++ mid ∧ stop mid rest ∧ Listed item (tokensOf used) trees := by
  induction hn : ts.length using Nat.strongRecOn generalizing ts trees with
  | ind n ih =>
      rcases hreader ts trees rest h with ⟨tree, mid, htree, hform⟩
      rcases hentry ts tree mid hlength htree with ⟨used, rfl, hitem⟩
      cases hform with
      | @comma column more _ others hothers =>
          rw [List.length_append, List.length_cons] at hn hlength
          rcases ih more.length (by omega) (by omega) hothers rfl with
            ⟨used', mid', rfl, hstop, hlisted⟩
          refine ⟨used ++ ⟨.symbol .comma, column⟩ :: used', mid', by simp, hstop, ?_⟩
          rw [tokensOf_append, tokensOf_cons]
          exact Listed.more hitem hlisted
      | last _ hstop => exact ⟨used, mid, rfl, hstop, Listed.one hitem⟩

end Lists

/-!
# Expressions

A chain is read soundly if its first operand is, and all shorter ones are.
-/

variable {ts rest : List PlacedToken} {tree : Tree}

theorem tail_sound {level : Level} {bound : Nat}
    (hoperand : ∀ ts, ts.length < bound → Sound (.operands level) ts)
    {left : Tree} {used mid : List PlacedToken} (hlength : mid.length ≤ bound)
    (hleft : Derives (.chain level) (tokensOf used) left)
    (h : Yields (expressionTail level left mid) tree rest) :
    ∃ used', used ++ mid = used' ++ rest ∧ Derives (.chain level) (tokensOf used') tree := by
  induction hn : mid.length using Nat.strongRecOn generalizing left used mid with
  | ind n ih =>
      cases hop : level.operator? (front mid).token with
      | none =>
          rcases (yields_expressionTail_end hop).mp h with ⟨rfl, rfl⟩
          exact ⟨used, rfl, hleft⟩
      | some op =>
          cases mid with
          | nil => cases level <;> cases hop
          | cons t more =>
              rw [List.length_cons] at hn hlength
              rcases (yields_expressionTail_operator hop).mp h with ⟨right, mid', hright, htail⟩
              rcases hoperand more (by omega) right mid' (yields_operand.mp hright) with
                ⟨usedRight, rfl, hderives⟩
              rw [List.length_append] at hn hlength
              have hfold : Derives (.chain level) (tokensOf (used ++ t :: usedRight))
                  (.binary op left right) := by
                rw [tokensOf_append, tokensOf_cons]
                exact Derives.fold hleft (operator?_eq_some_iff.mp hop) hderives
              rcases ih mid'.length (by omega) (by omega) hfold htail rfl with
                ⟨used', hused, hresult⟩
              refine ⟨used', ?_, hresult⟩
              rw [← hused]
              simp

theorem chain_sound {level : Level} (hfirst : Sound (.operands level) ts)
    (hoperand : ∀ ts', ts'.length < ts.length → Sound (.operands level) ts') :
    Sound (.chain level) ts := by
  intro tree rest h
  rcases yields_expression.mp h with ⟨left, mid, hleft, htail⟩
  have hmid : mid.length < ts.length := hleft.length_lt
  rcases hfirst left mid (yields_operand.mp hleft) with ⟨used, rfl, hderives⟩
  exact tail_sound hoperand (Nat.le_of_lt hmid) (Derives.operand hderives) htail

theorem negation_sound (hcomparison : Sound (.chain .comparison) ts)
    (hshorter : ∀ ts', ts'.length < ts.length → Sound .negation ts') : Sound .negation ts := by
  intro tree rest h
  by_cases hnot : (front ts).token = .keyword .not
  · rcases cons_of_front hnot (by simp) with ⟨column, more, rfl⟩
    rcases yields_negation_not.mp h with ⟨operand, rfl, hoperand⟩
    rcases hshorter more (by simp) operand rest hoperand with ⟨used, rfl, hderives⟩
    exact ⟨⟨.keyword .not, column⟩ :: used, rfl, Derives.not hderives⟩
  · have hsame := negation_comparison hnot
    change Yields (negation ts) tree rest at h
    rw [hsame] at h
    rcases hcomparison tree rest h with ⟨used, hts, hderives⟩
    exact ⟨used, hts, Derives.comparison hderives⟩

theorem castTail_sound {inner : Tree} {used mid : List PlacedToken}
    (hinner : Derives .cast (tokensOf used) inner) (h : Yields (castTail inner mid) tree rest) :
    ∃ used', used ++ mid = used' ++ rest ∧ Derives .cast (tokensOf used') tree := by
  induction hn : mid.length using Nat.strongRecOn generalizing inner used mid with
  | ind n ih =>
      by_cases has : (front mid).token = .keyword .as
      · rcases cons_of_front has (by simp) with ⟨column, more, rfl⟩
        rcases yields_castTail_as.mp h with ⟨target, column', mid', rfl, htail⟩
        rw [List.length_cons, List.length_cons] at hn
        have hcast : Derives .cast
            (tokensOf (used ++ [⟨.keyword .as, column⟩, ⟨.type target, column'⟩]))
            (.cast inner target) := by
          rw [tokensOf_append]
          exact Derives.cast hinner
        rcases ih mid'.length (by omega) hcast htail rfl with ⟨used', hused, hresult⟩
        refine ⟨used', ?_, hresult⟩
        rw [← hused]
        simp
      · rcases (yields_castTail_end has).mp h with ⟨rfl, rfl⟩
        exact ⟨used, rfl, hinner⟩

theorem cast_sound (hprimary : Sound .primary ts) : Sound .cast ts := by
  intro tree rest h
  rcases yields_cast.mp h with ⟨inner, mid, hinner, htail⟩
  rcases hprimary inner mid hinner with ⟨used, rfl, hderives⟩
  exact castTail_sound (Derives.uncast hderives) htail

theorem arguments_sound {column : Nat} {args : List Tree}
    (hexpression : ∀ ts', ts'.length ≤ ts.length → Sound .expression ts')
    (h : Yields (arguments ts) args rest) :
    ∃ used, ∃ items : List (List Token × Tree),
      ⟨.symbol .openParen, column⟩ :: ts = used ++ rest ∧
      (∀ i ∈ items, Derives .expression i.1 i.2) ∧
      parenthesized (items.map Prod.fst) = tokensOf used ∧ items.map Prod.snd = args := by
  cases yields_arguments.mp h with
  | @none column' =>
      exact ⟨[⟨.symbol .openParen, column⟩, ⟨.symbol .closeParen, column'⟩], [], rfl, by simp, rfl,
        rfl⟩
  | some hfront hlist =>
      rcases listed_of_reader (fun ts args rest => Yields (argumentList ts) args rest)
          (Reads .expression) (Derives .expression) (fun _ _ _ => yields_argumentList.mp)
          (fun ts' tree mid hlength => hexpression ts' hlength tree mid)
          (Nat.le_refl ts.length) hlist with
        ⟨used, mid, rfl, ⟨column', rfl⟩, items, _, hitems, htokens, htrees⟩
      refine ⟨⟨.symbol .openParen, column⟩ :: used ++ [⟨.symbol .closeParen, column'⟩], items,
        by simp, hitems, ?_, htrees⟩
      rw [tokensOf_append, tokensOf_cons, ← htokens]
      rfl

theorem primary_sound (hshorter : ∀ category ts', ts'.length < ts.length → Sound category ts') :
    Sound .primary ts := by
  intro tree rest h
  cases primaryForm_of_yields h with
  | @number x column => exact ⟨[⟨.number x, column⟩], rfl, Derives.number⟩
  | @boolean b column => exact ⟨[⟨.boolean b, column⟩], rfl, Derives.boolean⟩
  | @string s column => exact ⟨[⟨.string s, column⟩], rfl, Derives.string⟩
  | @template segments column => exact ⟨[⟨.template segments, column⟩], rfl, Derives.template⟩
  | @negate column more _ operand hoperand =>
      rcases hshorter .primary more (by simp) operand rest hoperand with ⟨used, rfl, hderives⟩
      exact ⟨⟨.symbol .minus, column⟩ :: used, rfl, Derives.negate hderives⟩
  | @affirm column more _ operand hoperand =>
      rcases hshorter .primary more (by simp) operand rest hoperand with ⟨used, rfl, hderives⟩
      exact ⟨⟨.symbol .plus, column⟩ :: used, rfl, Derives.affirm hderives⟩
  | @parentheses column column' more _ _ hinner =>
      rcases hshorter .expression more (by simp) tree _ hinner with ⟨used, rfl, hderives⟩
      refine ⟨⟨.symbol .openParen, column⟩ :: used ++ [⟨.symbol .closeParen, column'⟩], by simp, ?_⟩
      rw [tokensOf_append]
      exact Derives.parentheses hderives
  | @builtin f column column' more _ args hargs =>
      rcases arguments_sound (fun ts' hlength => hshorter .expression ts' (by grind)) hargs with
        ⟨used, items, hused, hitems, htokens, rfl⟩
      rw [hused]
      refine ⟨⟨.function f, column⟩ :: used, rfl, ?_⟩
      rw [tokensOf_cons, ← htokens]
      exact Derives.builtin hitems
  | @call s column column' more _ args hargs =>
      rcases arguments_sound (fun ts' hlength => hshorter .expression ts' (by grind)) hargs with
        ⟨used, items, hused, hitems, htokens, rfl⟩
      rw [hused]
      refine ⟨⟨.name s, column⟩ :: used, rfl, ?_⟩
      rw [tokensOf_cons, ← htokens]
      exact Derives.call hitems
  | @get s column => exact ⟨[⟨.name s, column⟩], rfl, Derives.get⟩

/-- Every reader of expressions is sound. -/
theorem reads_sound (category : Category) (ts : List PlacedToken) : Sound category ts := by
  induction hn : ts.length using Nat.strongRecOn generalizing category ts with
  | ind n ih =>
      have hshorter : ∀ category ts', ts'.length < ts.length → Sound category ts' := by
        intro category ts' hlength
        exact ih ts'.length (by omega) category ts' rfl
      have hprimary : Sound .primary ts := primary_sound hshorter
      have hcast : Sound .cast ts := cast_sound hprimary
      have hpower : Sound (.chain .power) ts := chain_sound hcast (hshorter _)
      have hproduct : Sound (.chain .product) ts := chain_sound hpower (hshorter _)
      have hsum : Sound (.chain .sum) ts := chain_sound hproduct (hshorter _)
      have hcomparison : Sound (.chain .comparison) ts := chain_sound hsum (hshorter _)
      have hnegation : Sound .negation ts := negation_sound hcomparison (hshorter _)
      have hconjunction : Sound (.chain .conjunction) ts := chain_sound hnegation (hshorter _)
      have hdisjunction : Sound (.chain .disjunction) ts := chain_sound hconjunction (hshorter _)
      cases category with
      | primary => exact hprimary
      | cast => exact hcast
      | negation => exact hnegation
      | chain level =>
          cases level with
          | power => exact hpower
          | product => exact hproduct
          | sum => exact hsum
          | comparison => exact hcomparison
          | conjunction => exact hconjunction
          | disjunction => exact hdisjunction

/-!
# Blocks

The blocks are read from lists of readings and assignments, or from one expression.
-/

theorem expression_sound (h : Yields (expression .disjunction ts) tree rest) :
    ∃ used, ts = used ++ rest ∧ Derives .expression (tokensOf used) tree :=
  reads_sound .expression ts tree rest h

theorem listed_of_reads {trees : List Tree} (h : Yields (reads ts) trees rest) :
    ∃ used, ts = used ++ rest ∧ Listed Reading (tokensOf used) trees := by
  have hentry : ∀ ts' tree mid, ts'.length ≤ ts.length → ReadForm ts' tree mid →
      ∃ used, ts' = used ++ mid ∧ Reading (tokensOf used) tree := by
    intro ts' tree mid _ hform
    cases hform with
    | @read s target column column' column'' =>
        exact ⟨[⟨.name s, column⟩, ⟨.keyword .as, column'⟩, ⟨.type target, column''⟩], rfl,
          Reading.read⟩
  rcases listed_of_reader (fun ts trees rest => Yields (reads ts) trees rest) ReadForm Reading
      (fun _ _ _ => yields_reads.mp) hentry (Nat.le_refl ts.length) h with
    ⟨used, mid, rfl, rfl, hlisted⟩
  exact ⟨used, rfl, hlisted⟩

theorem listed_of_assignments {declares : Bool} {trees : List Tree}
    (h : Yields (assignments declares ts) trees rest) :
    ∃ used, ts = used ++ rest ∧ Listed (Assignment declares) (tokensOf used) trees := by
  have hentry : ∀ ts' tree mid, ts'.length ≤ ts.length → AssignForm declares ts' tree mid →
      ∃ used, ts' = used ++ mid ∧ Assignment declares (tokensOf used) tree := by
    intro ts' tree mid _ hform
    cases hform with
    | @assign s column column' source _ value hvalue =>
        rcases expression_sound hvalue with ⟨used, rfl, hderives⟩
        exact ⟨⟨.name s, column⟩ :: ⟨.symbol .assign, column'⟩ :: used, rfl,
          Assignment.assign hderives⟩
  rcases listed_of_reader (fun ts trees rest => Yields (assignments declares ts) trees rest)
      (AssignForm declares) (Assignment declares) (fun _ _ _ => yields_assignments.mp) hentry
      (Nat.le_refl ts.length) h with
    ⟨used, mid, rfl, rfl, hlisted⟩
  exact ⟨used, rfl, hlisted⟩

theorem block_sound {role : Role} (h : block role ts = .ok tree) :
    ∃ used rest, ts = used ++ rest ∧ AtEnd rest ∧ BlockDerives role (tokensOf used) tree := by
  cases block_eq_ok_iff.mp h with
  | @input column more rest trees htrees hend =>
      rcases listed_of_reads htrees with ⟨used, rfl, hlisted⟩
      exact ⟨⟨.keyword .read, column⟩ :: used, rest, rfl, hend, BlockDerives.input hlisted⟩
  | output hinner hend =>
      rcases expression_sound hinner with ⟨used, hts, hderives⟩
      exact ⟨used, _, hts, hend, BlockDerives.output hderives⟩
  | decision hinner hend =>
      rcases expression_sound hinner with ⟨used, hts, hderives⟩
      exact ⟨used, _, hts, hend, BlockDerives.decision hderives⟩
  | declaration htrees hend =>
      rcases listed_of_assignments htrees with ⟨used, hts, hlisted⟩
      exact ⟨used, _, hts, hend, BlockDerives.declaration hlisted⟩
  | assignment htrees hend =>
      rcases listed_of_assignments htrees with ⟨used, hts, hlisted⟩
      exact ⟨used, _, hts, hend, BlockDerives.assignment hlisted⟩

end Grammar

/-- A source that compiles is read, and the tokens before its end derive its tree. -/
theorem Tree.derives_of_ofSource {role : Role} {source : String} {tree : Tree}
    (h : Tree.ofSource role source = .ok tree) :
    ∃ used rest, Lexer.tokens source = .ok (used ++ rest) ∧
      Grammar.BlockDerives role (Grammar.tokensOf used) tree := by
  unfold Tree.ofSource at h
  split at h
  · cases h
  · cases htokens : Lexer.tokens source with
    | error cause =>
        rw [htokens] at h
        cases h
    | ok tokens =>
        rw [htokens] at h
        rcases Grammar.block_sound h with ⟨used, rest, rfl, _, hderives⟩
        exact ⟨used, rest, rfl, hderives⟩

end Blockwise
