import Blockwise.Proofs.Grammar.Soundness

/-!
# The parser accepts exactly the grammar

What is derived is read, provided that no token after it would be taken into it.  Together with
soundness this makes the parser and the grammar agree on every list of tokens, and since a
reader has one outcome, the grammar gives no list two trees.
-/

namespace Blockwise
namespace Grammar

open Blockwise.Parser

/-!
# Tokens that end an expression

A token binds to an expression before it more or less tightly, or never goes on with one.  An
expression ends before a token that binds less tightly than its category asks for.
-/

def binding : Token → Nat
  | .symbol .openParen => 9
  | .keyword .as => 8
  | .symbol .caret => 7
  | .symbol .star | .symbol .slash | .symbol .percent => 6
  | .symbol .plus | .symbol .minus => 5
  | .symbol .equal | .symbol .notEqual => 4
  | .symbol .greater | .symbol .less | .symbol .greaterEqual | .symbol .lessEqual => 4
  | .keyword .and => 3
  | .keyword .or => 2
  | _ => 0

def strength : Category → Nat
  | .primary => 9
  | .cast => 8
  | .chain .power => 7
  | .chain .product => 6
  | .chain .sum => 5
  | .chain .comparison => 4
  | .negation => 4
  | .chain .conjunction => 3
  | .chain .disjunction => 2

/-- An expression of the category ends before the tokens. -/
def Ends (category : Category) (ts : List PlacedToken) : Prop :=
  binding (front ts).token < strength category

theorem binding_of_operator {level : Level} {token : Token} {op : BinaryOp}
    (h : Infix level token op) : binding token = strength (.chain level) := by
  cases h <;> rfl

theorem strength_lt_operands (level : Level) :
    strength (.chain level) < strength (.operands level) := by
  cases level <;> decide

theorem operator?_of_ends {level : Level} {ts : List PlacedToken} (h : Ends (.chain level) ts) :
    level.operator? (front ts).token = none := by
  cases hop : level.operator? (front ts).token with
  | none => rfl
  | some op =>
      have hbinding := binding_of_operator (operator?_eq_some_iff.mp hop)
      unfold Ends at h
      omega

theorem ends_of_binding_zero {category : Category} {ts : List PlacedToken}
    (h : binding (front ts).token = 0) : Ends category ts := by
  unfold Ends
  rw [h]
  cases category with
  | chain level => cases level <;> decide
  | negation => decide
  | cast => decide
  | primary => decide

theorem Derives.head {category : Category} {tokens : List Token} {tree : Tree}
    (h : Derives category tokens tree) :
    ∃ token more, tokens = token :: more ∧ token ≠ .symbol .closeParen ∧
      (token = .keyword .not → category = .negation ∨ strength category < 4) := by
  induction h with
  | @operand level _ _ _ ih =>
      rcases ih with ⟨token, more, rfl, hclose, hnot⟩
      refine ⟨token, more, rfl, hclose, ?_⟩
      intro htoken
      have hoperands := hnot htoken
      cases level <;> simp_all [Category.operands, strength]
  | fold _ _ _ ih _ =>
      rcases ih with ⟨token, more, rfl, hclose, hnot⟩
      exact ⟨token, _, rfl, hclose, hnot⟩
  | comparison _ ih =>
      rcases ih with ⟨token, more, rfl, hclose, _⟩
      exact ⟨token, more, rfl, hclose, fun _ => Or.inl rfl⟩
  | not _ _ => exact ⟨_, _, rfl, by simp, fun _ => Or.inl rfl⟩
  | uncast _ ih =>
      rcases ih with ⟨token, more, rfl, hclose, hnot⟩
      refine ⟨token, more, rfl, hclose, ?_⟩
      intro htoken
      have hprimary := hnot htoken
      simp_all [strength]
  | cast _ ih =>
      rcases ih with ⟨token, more, rfl, hclose, hnot⟩
      exact ⟨token, _, rfl, hclose, hnot⟩
  | number => exact ⟨_, _, rfl, by simp, by simp⟩
  | boolean => exact ⟨_, _, rfl, by simp, by simp⟩
  | string => exact ⟨_, _, rfl, by simp, by simp⟩
  | template => exact ⟨_, _, rfl, by simp, by simp⟩
  | negate _ _ => exact ⟨_, _, rfl, by simp, by simp⟩
  | affirm _ _ => exact ⟨_, _, rfl, by simp, by simp⟩
  | parentheses _ _ => exact ⟨_, _, rfl, by simp, by simp⟩
  | builtin _ _ => exact ⟨_, _, rfl, by simp, by simp⟩
  | call _ _ => exact ⟨_, _, rfl, by simp, by simp⟩
  | get => exact ⟨_, _, rfl, by simp, by simp⟩

/-!
# Lists

A reader of items and commas reads every list, if its reader of one item reads every item that a
comma or the end of the list follows.
-/

section Lists

variable (reader : List PlacedToken → List Tree → List PlacedToken → Prop)
  (entry : List PlacedToken → Tree → List PlacedToken → Prop)
  {stop : List PlacedToken → List PlacedToken → Prop} (item : List Token → Tree → Prop)

theorem reader_of_listed
    (hreader : ∀ ts trees rest,
      (∃ tree mid, entry ts tree mid ∧ ListForm reader stop tree mid trees rest) →
      reader ts trees rest)
    (hentry : ∀ used tree rest, item (tokensOf used) tree → binding (front rest).token = 0 →
      entry (used ++ rest) tree rest)
    {used mid rest : List PlacedToken} {trees : List Tree}
    (hbinding : binding (front mid).token = 0) (hcomma : (front mid).token ≠ .symbol .comma)
    (hstop : stop mid rest) (h : Listed item (tokensOf used) trees) :
    reader (used ++ mid) trees rest := by
  generalize htokens : tokensOf used = tokens at h
  induction h using Listed.induct generalizing used with
  | one tokens tree hitem =>
      rw [← htokens] at hitem
      exact hreader _ _ _ ⟨tree, mid, hentry used tree mid hitem hbinding,
        ListForm.last hcomma hstop⟩
  | more tokens tokens' tree trees hitem _ ih =>
      rcases append_of_tokensOf htokens with ⟨first, others, rfl, rfl, hothers⟩
      rcases cons_of_tokensOf hothers with ⟨column, others, rfl, rfl⟩
      have hfirst := hentry first tree (⟨.symbol .comma, column⟩ :: others ++ mid) hitem rfl
      rw [List.append_assoc]
      exact hreader _ _ _ ⟨tree, _, hfirst, ListForm.comma (ih rfl)⟩

end Lists

/-!
# Expressions

A reader that is given the tokens comes to the tree, and then goes on from there.
-/

def Tail : Category → Tree → List PlacedToken → Tree → List PlacedToken → Prop
  | .chain level, left, ts, tree, rest => Yields (expressionTail level left ts) tree rest
  | .cast, inner, ts, tree, rest => Yields (castTail inner ts) tree rest
  | .negation, found, ts, tree, rest => found = tree ∧ ts = rest
  | .primary, found, ts, tree, rest => found = tree ∧ ts = rest

def innerStrength : Category → Nat
  | .chain level => strength (.operands level)
  | .cast => strength .primary
  | .negation => strength .negation
  | .primary => strength .primary

/-- A reader that is given the tokens comes to the tree, and then goes on from there. -/
def Complete (category : Category) (tokens : List Token) (tree : Tree) : Prop :=
  ∀ used rest result final, tokensOf used = tokens →
    binding (front rest).token < innerStrength category →
    Tail category tree rest result final → Reads category (used ++ rest) result final

theorem strength_le_innerStrength (category : Category) :
    strength category ≤ innerStrength category := by
  cases category with
  | chain level => exact Nat.le_of_lt (strength_lt_operands level)
  | negation => exact Nat.le_refl _
  | cast => decide
  | primary => exact Nat.le_refl _

theorem tail_of_ends {category : Category} {tree : Tree} {rest : List PlacedToken}
    (h : Ends category rest) : Tail category tree rest tree rest := by
  cases category with
  | chain level => exact (yields_expressionTail_end (operator?_of_ends h)).mpr ⟨rfl, rfl⟩
  | negation => exact ⟨rfl, rfl⟩
  | cast =>
      refine (yields_castTail_end ?_).mpr ⟨rfl, rfl⟩
      intro has
      unfold Ends at h
      rw [has] at h
      exact absurd h (by decide)
  | primary => exact ⟨rfl, rfl⟩

theorem Complete.reads {category : Category} {tree : Tree} {used rest : List PlacedToken}
    (h : Complete category (tokensOf used) tree) (hends : Ends category rest) :
    Reads category (used ++ rest) tree rest :=
  h used rest tree rest rfl (Nat.lt_of_lt_of_le hends (strength_le_innerStrength category))
    (tail_of_ends hends)

theorem complete_token {token : Token} {tree : Tree}
    (h : ∀ column rest, PrimaryForm (⟨token, column⟩ :: rest) tree rest) :
    Complete .primary [token] tree := by
  intro used rest result final htokens _ hgiven
  rcases hgiven with ⟨rfl, rfl⟩
  rcases cons_of_tokensOf htokens with ⟨column, more, rfl, hmore⟩
  rw [nil_of_tokensOf hmore]
  exact yields_of_primaryForm (h column rest)

theorem arguments_complete {args : List (List Token × Tree)} {used rest : List PlacedToken}
    {column : Nat} (hderives : ∀ arg ∈ args, Derives .expression arg.1 arg.2)
    (hcomplete : ∀ arg ∈ args, Complete .expression arg.1 arg.2)
    (htokens : tokensOf used = separated (args.map Prod.fst)) :
    Yields (arguments (used ++ ⟨.symbol .closeParen, column⟩ :: rest)) (args.map Prod.snd)
      rest := by
  rw [yields_arguments]
  cases args with
  | nil =>
      rw [nil_of_tokensOf htokens]
      exact ArgumentsForm.none
  | cons first others =>
      have hlisted : Listed (Complete .expression) (tokensOf used)
          ((first :: others).map Prod.snd) :=
        ⟨first :: others, by simp, hcomplete, htokens.symm, rfl⟩
      refine ArgumentsForm.some ?_ ?_
      · rcases (hderives first List.mem_cons_self).head with ⟨token, more, hfirst, hclose, _⟩
        rcases head_of_separated (others.map Prod.fst) hfirst with ⟨more', hmore⟩
        rw [List.map_cons, hmore] at htokens
        rw [front_of_tokensOf htokens]
        exact hclose
      · exact reader_of_listed (fun ts args rest => Yields (argumentList ts) args rest)
          (Reads .expression) (Complete .expression) (fun _ _ _ => yields_argumentList.mpr)
          (fun used tree rest hitem hbinding => hitem.reads (ends_of_binding_zero hbinding))
          rfl (by simp [front]) ⟨column, rfl⟩ hlisted

theorem Derives.complete {category : Category} {tokens : List Token} {tree : Tree}
    (h : Derives category tokens tree) : Complete category tokens tree := by
  induction h with
  | operand _ ih =>
      intro used rest result final hgiven hbinding htail
      subst hgiven
      exact yields_expression.mpr ⟨_, rest, yields_operand.mpr (ih.reads hbinding), htail⟩
  | @fold level _ _ token op left right _ hinfix _ ihLeft ihRight =>
      intro used rest result final htokens hbinding htail
      rcases append_of_tokensOf htokens with ⟨usedLeft, others, rfl, rfl, hothers⟩
      rcases cons_of_tokensOf hothers with ⟨column, usedRight, rfl, rfl⟩
      have hright : Yields (Parser.operand level (usedRight ++ rest)) right rest :=
        yields_operand.mpr (ihRight.reads hbinding)
      rw [List.append_assoc]
      refine ihLeft usedLeft _ result final rfl ?_ ?_
      · change binding token < strength (.operands level)
        rw [binding_of_operator hinfix]
        exact strength_lt_operands level
      · exact (yields_expressionTail_operator (operator?_eq_some_iff.mpr hinfix)).mpr
          ⟨right, rest, hright, htail⟩
  | comparison hderives ih =>
      intro used rest result final hgiven hbinding hgiven'
      subst hgiven
      rcases hgiven' with ⟨rfl, rfl⟩
      rcases hderives.head with ⟨token, more, htokens, _, hnot⟩
      have hfront : (front (used ++ rest)).token ≠ .keyword .not := by
        rw [front_of_tokensOf htokens]
        intro htoken
        rcases hnot htoken with hcategory | hstrength
        · cases hcategory
        · exact absurd hstrength (by decide)
      change Yields (negation (used ++ rest)) _ rest
      rw [negation_comparison hfront]
      exact ih.reads hbinding
  | not _ ih =>
      intro used rest result final htokens hbinding hgiven
      rcases hgiven with ⟨rfl, rfl⟩
      rcases cons_of_tokensOf htokens with ⟨column, more, rfl, rfl⟩
      exact yields_negation_not.mpr ⟨_, rfl, ih.reads hbinding⟩
  | uncast _ ih =>
      intro used rest result final hgiven hbinding htail
      subst hgiven
      exact yields_cast.mpr ⟨_, rest, ih.reads hbinding, htail⟩
  | cast _ ih =>
      intro used rest result final htokens hbinding htail
      rcases append_of_tokensOf htokens with ⟨usedInner, others, rfl, rfl, hothers⟩
      rcases cons_of_tokensOf hothers with ⟨column, others, rfl, htype⟩
      rcases cons_of_tokensOf htype with ⟨column', others, rfl, hnil⟩
      rw [nil_of_tokensOf hnil, List.append_assoc]
      have has : binding (.keyword .as) < innerStrength .cast := by decide
      refine ih usedInner _ result final rfl has ?_
      exact yields_castTail_as.mpr ⟨_, column', rest, rfl, htail⟩
  | number => exact complete_token fun _ _ => PrimaryForm.number
  | boolean => exact complete_token fun _ _ => PrimaryForm.boolean
  | string => exact complete_token fun _ _ => PrimaryForm.string
  | template => exact complete_token fun _ _ => PrimaryForm.template
  | negate _ ih =>
      intro used rest result final htokens hbinding hgiven
      rcases hgiven with ⟨rfl, rfl⟩
      rcases cons_of_tokensOf htokens with ⟨column, more, rfl, rfl⟩
      exact yields_of_primaryForm (PrimaryForm.negate (ih.reads hbinding))
  | affirm _ ih =>
      intro used rest result final htokens hbinding hgiven
      rcases hgiven with ⟨rfl, rfl⟩
      rcases cons_of_tokensOf htokens with ⟨column, more, rfl, rfl⟩
      exact yields_of_primaryForm (PrimaryForm.affirm (ih.reads hbinding))
  | parentheses _ ih =>
      intro used rest result final htokens hbinding hgiven
      rcases hgiven with ⟨rfl, rfl⟩
      rcases cons_of_tokensOf htokens with ⟨column, more, rfl, hmore⟩
      rcases append_of_tokensOf hmore with ⟨inner, close, rfl, rfl, hclose⟩
      rcases cons_of_tokensOf hclose with ⟨column', close, rfl, hnil⟩
      rw [nil_of_tokensOf hnil]
      refine yields_of_primaryForm ?_
      rw [List.cons_append, List.append_assoc]
      exact PrimaryForm.parentheses (ih.reads (ends_of_binding_zero rfl))
  | builtin hderives ih =>
      intro used rest result final htokens hbinding hgiven
      rcases hgiven with ⟨rfl, rfl⟩
      rcases cons_of_tokensOf htokens with ⟨column, more, rfl, hmore⟩
      rcases parentheses_of_tokensOf hmore with ⟨column', column'', inner, rfl, hinner⟩
      refine yields_of_primaryForm ?_
      rw [List.cons_append, List.cons_append, List.append_assoc]
      exact PrimaryForm.builtin (arguments_complete hderives ih hinner)
  | call hderives ih =>
      intro used rest result final htokens hbinding hgiven
      rcases hgiven with ⟨rfl, rfl⟩
      rcases cons_of_tokensOf htokens with ⟨column, more, rfl, hmore⟩
      rcases parentheses_of_tokensOf hmore with ⟨column', column'', inner, rfl, hinner⟩
      refine yields_of_primaryForm ?_
      rw [List.cons_append, List.cons_append, List.append_assoc]
      exact PrimaryForm.call (arguments_complete hderives ih hinner)
  | get =>
      intro used rest result final htokens hbinding hgiven
      rcases hgiven with ⟨rfl, rfl⟩
      rcases cons_of_tokensOf htokens with ⟨column, more, rfl, hmore⟩
      rw [nil_of_tokensOf hmore]
      refine yields_of_primaryForm (PrimaryForm.get ?_)
      intro hopen
      change (front rest).token = .symbol .openParen at hopen
      rw [hopen] at hbinding
      exact absurd hbinding (by decide)

/-!
# Blocks

The only end of the input in a list is where the tokens before it end.
-/

theorem expression_complete {tree : Tree} {used rest : List PlacedToken}
    (h : Derives .expression (tokensOf used) tree) (hbinding : binding (front rest).token = 0) :
    Yields (expression .disjunction (used ++ rest)) tree rest :=
  h.complete.reads (ends_of_binding_zero hbinding)

theorem yields_reads_of_listed {trees : List Tree} {used rest : List PlacedToken}
    (h : Listed Reading (tokensOf used) trees) (hend : AtEnd rest) :
    Yields (reads (used ++ rest)) trees rest := by
  rcases hend with ⟨column, more, rfl⟩
  refine reader_of_listed (fun ts trees rest => Yields (reads ts) trees rest) ReadForm Reading
    (fun _ _ _ => yields_reads.mpr) ?_ rfl (by simp [front]) rfl h
  intro used tree rest hitem _
  generalize htokens : tokensOf used = tokens at hitem
  cases hitem with
  | read =>
      rcases cons_of_tokensOf htokens with ⟨column, afterName, rfl, has⟩
      rcases cons_of_tokensOf has with ⟨column', afterAs, rfl, htype⟩
      rcases cons_of_tokensOf htype with ⟨column'', afterType, rfl, hnil⟩
      rw [nil_of_tokensOf hnil]
      exact ReadForm.read

theorem yields_assignments_of_listed {declares : Bool} {trees : List Tree}
    {used rest : List PlacedToken} (h : Listed (Assignment declares) (tokensOf used) trees)
    (hend : AtEnd rest) : Yields (assignments declares (used ++ rest)) trees rest := by
  rcases hend with ⟨column, more, rfl⟩
  refine reader_of_listed (fun ts trees rest => Yields (assignments declares ts) trees rest)
    (AssignForm declares) (Assignment declares) (fun _ _ _ => yields_assignments.mpr) ?_ rfl
    (by simp [front]) rfl h
  intro used tree rest hitem hbinding
  generalize htokens : tokensOf used = tokens at hitem
  cases hitem with
  | assign hderives =>
      rcases cons_of_tokensOf htokens with ⟨column, afterName, rfl, hassign⟩
      rcases cons_of_tokensOf hassign with ⟨column', source, rfl, rfl⟩
      exact AssignForm.assign (expression_complete hderives hbinding)

theorem block_complete {role : Role} {used rest : List PlacedToken} {tree : Tree}
    (h : BlockDerives role (tokensOf used) tree) (hend : AtEnd rest) :
    block role (used ++ rest) = .ok tree := by
  rw [block_eq_ok_iff]
  have hbinding : binding (front rest).token = 0 := by
    rcases hend with ⟨column, more, rfl⟩
    rfl
  generalize htokens : tokensOf used = tokens at h
  cases h with
  | input hlisted =>
      rcases cons_of_tokensOf htokens with ⟨column, more, rfl, rfl⟩
      exact BlockForm.input (yields_reads_of_listed hlisted hend) hend
  | output hderives =>
      rw [← htokens] at hderives
      exact BlockForm.output (expression_complete hderives hbinding) hend
  | decision hderives =>
      rw [← htokens] at hderives
      exact BlockForm.decision (expression_complete hderives hbinding) hend
  | declaration hlisted =>
      rw [← htokens] at hlisted
      exact BlockForm.declaration (yields_assignments_of_listed hlisted hend) hend
  | assignment hlisted =>
      rw [← htokens] at hlisted
      exact BlockForm.assignment (yields_assignments_of_listed hlisted hend) hend

theorem eq_of_append_end {source used rest : List PlacedToken} {column : Nat}
    (honly : ∀ t ∈ source, t.token ≠ .endOfInput) (hend : AtEnd rest)
    (h : source ++ [⟨.endOfInput, column⟩] = used ++ rest) : used = source := by
  rcases hend with ⟨column', more, rfl⟩
  rcases List.append_eq_append_iff.mp h with ⟨between, rfl, hrest⟩ | ⟨between, rfl, hrest⟩
  · cases between with
    | nil => simp
    | cons t others =>
        rw [List.cons_append, List.cons.injEq] at hrest
        have hlength := congrArg List.length hrest.2
        simp at hlength
  · cases between with
    | nil => simp
    | cons t others =>
        rw [List.cons_append, List.cons.injEq] at hrest
        exact absurd (congrArg PlacedToken.token hrest.1).symm
          (honly t (by simp))

/-- A block is read from tokens that end in their only end of input if and only if the tokens
before it derive the block's tree, and they derive at most one. -/
theorem block_exact (role : Role) (source : List PlacedToken) (column : Nat)
    (honly : ∀ t ∈ source, t.token ≠ .endOfInput) :
    (∀ tree, block role (source ++ [⟨.endOfInput, column⟩]) = .ok tree ↔
      BlockDerives role (tokensOf source) tree) ∧
    ∀ tree tree', BlockDerives role (tokensOf source) tree →
      BlockDerives role (tokensOf source) tree' → tree = tree' := by
  have hend : AtEnd [⟨.endOfInput, column⟩] := ⟨column, [], rfl⟩
  constructor
  · intro tree
    constructor
    · intro h
      rcases block_sound h with ⟨used, rest, hts, hrest, hderives⟩
      rw [eq_of_append_end honly hrest hts] at hderives
      exact hderives
    · intro h
      exact block_complete h hend
  · intro tree tree' h h'
    have hread := block_complete h hend
    rw [block_complete h' hend] at hread
    exact (Except.ok.inj hread).symm

theorem Derives.of_power {tokens : List Token} {tree : Tree}
    (h : Derives (.chain .power) tokens tree) : Derives .expression tokens tree := by
  have hsum : Derives (.chain .sum) tokens tree := Derives.operand (Derives.operand h)
  have hnegation : Derives .negation tokens tree := Derives.comparison (Derives.operand hsum)
  exact Derives.operand (Derives.operand hnegation)

theorem block_exact_two_assignments :
    let source : List PlacedToken :=
      [⟨.name "x", 1⟩, ⟨.symbol .assign, 3⟩, ⟨.symbol .minus, 5⟩, ⟨.name "y", 6⟩,
        ⟨.symbol .caret, 8⟩, ⟨.number 2, 10⟩, ⟨.symbol .comma, 11⟩, ⟨.name "z", 13⟩,
        ⟨.symbol .assign, 15⟩, ⟨.function .max, 17⟩, ⟨.symbol .openParen, 20⟩, ⟨.name "x", 21⟩,
        ⟨.symbol .comma, 22⟩, ⟨.number 1, 24⟩, ⟨.symbol .closeParen, 25⟩]
    (∀ t ∈ source, t.token ≠ .endOfInput) ∧
    block .assignment (source ++ [⟨.endOfInput, 26⟩]) =
      .ok (.sequence
        [.set "x" (.binary .pow (.unary .negate (.get "y")) (.literal (.number 2))) false,
          .set "z" (.call "max" [.get "x", .literal (.number 1)]) false]) := by
  intro source
  have honly : ∀ t ∈ source, t.token ≠ .endOfInput := by simp [source]
  refine ⟨honly, ((block_exact .assignment source 26 honly).1 _).mpr ?_⟩
  have hsigned : Derives (.chain .power) [.symbol .minus, .name "y"] (.unary .negate (.get "y")) :=
    Derives.operand (Derives.uncast (Derives.negate Derives.get))
  have hpower : Derives (.chain .power)
      ([.symbol .minus, .name "y"] ++ .symbol .caret :: [.number 2])
      (.binary .pow (.unary .negate (.get "y")) (.literal (.number 2))) :=
    Derives.fold hsigned Infix.caret (Derives.uncast Derives.number)
  have hargs : ∀ arg ∈ [([Token.name "x"], Tree.get "x"),
      ([Token.number 1], Tree.literal (.number 1))], Derives .expression arg.1 arg.2 := by
    intro arg harg
    simp only [List.mem_cons, List.not_mem_nil, or_false] at harg
    rcases harg with rfl | rfl
    · exact Derives.of_power (Derives.operand (Derives.uncast Derives.get))
    · exact Derives.of_power (Derives.operand (Derives.uncast Derives.number))
  have hcall : Derives (.chain .power)
      (.function .max :: parenthesized [[.name "x"], [.number 1]])
      (.call Function.max.name [.get "x", .literal (.number 1)]) :=
    Derives.operand (Derives.uncast (Derives.builtin hargs))
  exact BlockDerives.assignment
    (Listed.more (Assignment.assign hpower.of_power)
      (Listed.one (Assignment.assign hcall.of_power)))

end Grammar
end Blockwise
