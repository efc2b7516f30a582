import Blockwise.Proofs.Grammar.Soundness

/-!
# Shapes of compiled trees

Trees are more than what a source can be compiled to.  In a compiled tree, reads, writes and
assignments stand only where the role of the block puts them, everything below them is an
expression, no value is written down but numbers, strings and Booleans, and no type is named but
theirs.
-/

namespace Blockwise

inductive Value.Written : Value → Prop where
  | number (x : Float) : Value.Written (.number x)
  | string (s : String) : Value.Written (.string s)
  | boolean (b : Bool) : Value.Written (.boolean b)

def ValueType.isNamed : ValueType → Bool
  | number | string | boolean => true
  | empty | error => false

/-!
# Types in a source

A type in a source is that of a literal or of a keyword, and none other can be named.
-/

namespace Token

def Named (token : Token) : Prop :=
  ∀ target, token = type target → target.isNamed = true

theorem named_ofWord (s : String) : (ofWord s).Named := by
  intro target h
  unfold ofWord at h
  split at h
  all_goals
    first
      | cases h; rfl
      | cases h
      | split at h <;> cases h

end Token

namespace Lexer

theorem named_ofPieces (ps : List Piece) : (ofPieces ps).Named := by
  intro target h
  unfold ofPieces at h
  split at h <;> cases h

theorem named_startNumber {column taken : Nat} {c : Char} {cs : List Char} {token : Token}
    (h : startNumber column c cs = .ok (token, taken)) : token.Named := by
  have hclose : ∀ (test : Prop) [Decidable test] (cause : Cause) (x : Float) (n : Nat),
      (if test then .error cause else .ok (Token.number x, n)) =
        (Except.ok (token, taken) : Except Cause (Token × Nat)) → token.Named := by
    intro test _ cause x n hif target htype
    split at hif
    · cases hif
    · cases hif
      cases htype
  unfold startNumber at h
  dsimp only at h
  split at h
  · split at h
    · cases h
    · exact hclose _ _ _ _ h
  · exact hclose _ _ _ _ h

theorem named_start {column taken : Nat} {c : Char} {cs : List Char} {token : Token}
    (h : start column c cs = .ok (token, taken)) : token.Named := by
  have hsymbol : ∀ s, (Token.symbol s).Named := by
    intro s target htype
    cases htype
  have hcomparison : ∀ short long, startComparison short long cs = (token, taken) →
      token.Named := by
    intro short long heq
    unfold startComparison at heq
    split at heq
    · cases heq
      exact hsymbol long
    · cases heq
      exact hsymbol short
  unfold start at h
  split at h
  all_goals
    first
      | exact hcomparison _ _ (Except.ok.inj h)
      | cases h; exact hsymbol _
      | skip
  · split at h
    · cases h
      exact hsymbol _
    · cases h
    · cases h
  · split at h
    · cases h
      exact named_ofPieces _
    · cases h
  · split at h
    · exact named_startNumber h
    · split at h
      · cases h
        exact Token.named_ofWord _
      · cases h

theorem named_scan {column : Nat} {cs : List Char} {ts : List PlacedToken}
    (h : scan column cs = .ok ts) : ∀ t ∈ ts, t.token.Named := by
  fun_induction scan column cs generalizing ts with
  | case1 column =>
      cases h
      intro t ht
      rw [List.mem_singleton.mp ht]
      intro target htype
      cases htype
  | case2 column c cs hblank ih => exact ih h
  | case3 column c cs hblank ih =>
      cases hstart : start column c cs with
      | error cause =>
          rw [hstart] at h
          cases h
      | ok first =>
          rw [hstart] at h
          cases hrest : scan (column + 1 + first.2) (cs.drop first.2) with
          | error cause =>
              simp only [bind, Except.bind, hrest] at h
              cases h
          | ok rest =>
              simp only [bind, Except.bind, hrest] at h
              cases h
              intro t ht
              rcases List.mem_cons.mp ht with rfl | ht
              · exact named_start hstart
              · exact ih first.2 hrest t ht

end Lexer

/-!
# Expressions

An expression computes a value from variables and literals and does nothing else.  A statement gives
a value to a variable.
-/

namespace Tree

mutual

def Expression : Tree → Prop
  | literal value => value.Written
  | get _ => True
  | template _ => True
  | unary _ operand => operand.Expression
  | binary _ left right => left.Expression ∧ right.Expression
  | cast operand target => operand.Expression ∧ target.isNamed = true
  | call _ args => AllExpressions args
  | set _ _ _ => False
  | sequence _ => False
  | write _ => False
  | read _ _ => False

def AllExpressions : List Tree → Prop
  | [] => True
  | tree :: rest => tree.Expression ∧ AllExpressions rest

end

theorem allExpressions_iff {trees : List Tree} :
    AllExpressions trees ↔ ∀ tree ∈ trees, tree.Expression := by
  induction trees with
  | nil => simp [AllExpressions]
  | cons tree rest ih => simp [AllExpressions, ih]

/-- One item of a block that gives values to variables. -/
inductive Statement : Tree → Prop where
  | assign {name : String} {value : Tree} {declares : Bool} :
      value.Expression → Statement (.set name value declares)
  | read {name : String} {target : ValueType} :
      target.isNamed = true → Statement (.set name (.read name target) true)

inductive Shaped : Role → Tree → Prop where
  | statements {role : Role} {trees : List Tree} :
      role ≠ .decision → (∀ tree ∈ trees, tree.Statement) → Shaped role (.sequence trees)
  | output {tree : Tree} : tree.Expression → Shaped .output (.write tree)
  | decision {tree : Tree} : tree.Expression → Shaped .decision tree

end Tree

namespace Grammar

open Blockwise.Tree

theorem mem_separated {items : List (List Token)} {tokens : List Token} {token : Token}
    (hitem : tokens ∈ items) (h : token ∈ tokens) : token ∈ separated items := by
  induction items with
  | nil => cases hitem
  | cons first rest ih =>
      cases rest with
      | nil =>
          rw [List.mem_singleton.mp hitem] at h
          exact h
      | cons next others =>
          rw [separated_cons first (List.cons_ne_nil next others)]
          rcases List.mem_cons.mp hitem with rfl | hrest
          · exact List.mem_append_left _ h
          · exact List.mem_append_right _ (List.mem_cons_of_mem _ (ih hrest))

theorem mem_parenthesized {items : List (List Token)} {tokens : List Token} {token : Token}
    (hitem : tokens ∈ items) (h : token ∈ tokens) : token ∈ parenthesized items := by
  apply List.mem_cons_of_mem
  apply List.mem_append_left
  exact mem_separated hitem h

theorem Derives.expression {category : Category} {tokens : List Token} {tree : Tree}
    (h : Derives category tokens tree) :
    (∀ token ∈ tokens, token.Named) → tree.Expression := by
  induction h with
  | operand _ ih => exact ih
  | fold _ _ _ ihleft ihright =>
      intro hnamed
      constructor
      · apply ihleft
        intro token htoken
        exact hnamed token (List.mem_append_left _ htoken)
      · apply ihright
        intro token htoken
        exact hnamed token (List.mem_append_right _ (List.mem_cons_of_mem _ htoken))
  | comparison _ ih => exact ih
  | not _ ih | negate _ ih | affirm _ ih =>
      intro hnamed
      apply ih
      intro token htoken
      exact hnamed token (List.mem_cons_of_mem _ htoken)
  | uncast _ ih => exact ih
  | @cast tokens tree target _ ih =>
      intro hnamed
      constructor
      · apply ih
        intro token htoken
        exact hnamed token (List.mem_append_left _ htoken)
      · exact hnamed (.type target) (by simp) target rfl
  | number => exact fun _ => Value.Written.number _
  | boolean => exact fun _ => Value.Written.boolean _
  | string => exact fun _ => Value.Written.string _
  | template => exact fun _ => trivial
  | parentheses _ ih =>
      intro hnamed
      apply ih
      intro token htoken
      exact hnamed token (List.mem_cons_of_mem _ (List.mem_append_left _ htoken))
  | builtin _ ih | call _ ih =>
      intro hnamed
      apply allExpressions_iff.mpr
      intro tree htree
      rcases List.mem_map.mp htree with ⟨arg, harg, rfl⟩
      apply ih arg harg
      intro token htoken
      exact hnamed token
        (List.mem_cons_of_mem _ (mem_parenthesized (List.mem_map_of_mem harg) htoken))
  | get => exact fun _ => trivial

theorem Reading.statement {tokens : List Token} {tree : Tree} (h : Reading tokens tree)
    (hnamed : ∀ token ∈ tokens, token.Named) : tree.Statement := by
  cases h with
  | @read s target =>
      apply Statement.read
      exact hnamed (.type target) (by simp) target rfl

theorem Assignment.statement {declares : Bool} {tokens : List Token} {tree : Tree}
    (h : Assignment declares tokens tree) (hnamed : ∀ token ∈ tokens, token.Named) :
    tree.Statement := by
  cases h with
  | assign hvalue =>
      apply Statement.assign
      apply hvalue.expression
      intro token htoken
      exact hnamed token (List.mem_cons_of_mem _ (List.mem_cons_of_mem _ htoken))

theorem Listed.statements {item : List Token → Tree → Prop} {tokens : List Token}
    {trees : List Tree} (h : Listed item tokens trees)
    (hitem : ∀ tokens tree, item tokens tree → (∀ token ∈ tokens, token.Named) → tree.Statement)
    (hnamed : ∀ token ∈ tokens, token.Named) : ∀ tree ∈ trees, tree.Statement := by
  rcases h with ⟨items, _, hitems, rfl, rfl⟩
  intro tree htree
  rcases List.mem_map.mp htree with ⟨i, hi, rfl⟩
  apply hitem i.1 i.2 (hitems i hi)
  intro token htoken
  exact hnamed token (mem_separated (List.mem_map_of_mem hi) htoken)

theorem BlockDerives.shaped {role : Role} {tokens : List Token} {tree : Tree}
    (h : BlockDerives role tokens tree) (hnamed : ∀ token ∈ tokens, token.Named) :
    Shaped role tree := by
  cases h with
  | input hlisted =>
      apply Shaped.statements (by decide)
      apply hlisted.statements (fun _ _ => Reading.statement)
      intro token htoken
      exact hnamed token (List.mem_cons_of_mem _ htoken)
  | output hinner => exact Shaped.output (hinner.expression hnamed)
  | decision hinner => exact Shaped.decision (hinner.expression hnamed)
  | declaration hlisted =>
      exact Shaped.statements (by decide)
        (hlisted.statements (fun _ _ => Assignment.statement) hnamed)
  | assignment hlisted =>
      exact Shaped.statements (by decide)
        (hlisted.statements (fun _ _ => Assignment.statement) hnamed)

end Grammar

theorem Tree.named_of_ofSource {role : Role} {source : String} {tree : Tree}
    (h : Tree.ofSource role source = .ok tree) :
    ∃ tokens, Grammar.BlockDerives role tokens tree ∧ ∀ token ∈ tokens, token.Named := by
  rcases Tree.derives_of_ofSource h with ⟨used, rest, htokens, hderives⟩
  refine ⟨Grammar.tokensOf used, hderives, ?_⟩
  intro token htoken
  rcases List.mem_map.mp htoken with ⟨t, ht, rfl⟩
  exact Lexer.named_scan htokens t (List.mem_append_left _ ht)

/-- A source compiles to a tree of the shape that goes with the block's role. -/
theorem Tree.shaped_of_ofSource {role : Role} {source : String} {tree : Tree}
    (h : Tree.ofSource role source = .ok tree) : Tree.Shaped role tree := by
  rcases Tree.named_of_ofSource h with ⟨tokens, hderives, hnamed⟩
  exact hderives.shaped hnamed

end Blockwise
