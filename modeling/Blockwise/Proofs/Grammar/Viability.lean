import Blockwise.Proofs.Dictionary
import Blockwise.Proofs.Grammar.Exactness
import Blockwise.Proofs.Grammar.Readers
import Blockwise.Proofs.Phrase.RoundTrip
import Mathlib.Order.Bounds.Basic

/-!
# Faults stand at the first wrong token

Every reader of the parser decides the language that the grammar gives it.  So a block that is
refused names the first token after which no source of such a block goes on: the tokens before it
are the start of one, and with it they are not.
-/

namespace Blockwise
namespace Grammar

open Blockwise.Parser

variable {category : Category} {level : Level} {ts : List PlacedToken}

/-!
# Single tokens

A reader of a single token decides the tokens of its kind.
-/

theorem decides_symbol (symbol : Symbol) (ts : List PlacedToken) :
    Decides (fun tokens => tokens = [.symbol symbol]) (symbolReader symbol) ts :=
  Decides.expect_one () Token.noConfusion (symbolReader_self symbol)
    fun _ => symbolReader_blames

theorem decides_keyword (keyword : Keyword) (ts : List PlacedToken) :
    Decides (fun tokens => tokens = [.keyword keyword]) (keywordReader keyword) ts :=
  Decides.expect_one () Token.noConfusion (keywordReader_self keyword)
    fun _ => keywordReader_blames

theorem decides_name (ts : List PlacedToken) :
    Decides (fun tokens => ∃ s, tokens = [.name s]) nameReader ts :=
  Decides.expect Token.name "x" id (fun _ => Token.noConfusion) (fun _ _ _ => rfl)
    fun _ => nameReader_blames

theorem decides_type (ts : List PlacedToken) :
    Decides (fun tokens => ∃ target, tokens = [.type target]) typeReader ts :=
  Decides.expect Token.type .number id (fun _ => Token.noConfusion) (fun _ _ _ => rfl)
    fun _ => typeReader_blames

/-!
# Lists

A reader of items and commas decides the lists, if its reader of one item decides the items.
-/

section Lists

variable {item : List Token → Tree → Prop} {itemReader : Reader Tree}
  {list : Reader (List Tree)} {stop : Reader Unit} {closing : List Token} {bound : Nat}

def IsList (item : List Token → Tree → Prop) (closing tokens : List Token) : Prop :=
  ∃ inner trees, Listed item inner trees ∧ tokens = inner ++ closing

theorem decides_list (hlist : ∀ ts, list ts = (itemReader >>= itemsAfter list stop) ts)
    (hitem : ∀ ts, ts.length ≤ bound →
      Decides (fun tokens => ∃ tree, item tokens tree) itemReader ts)
    (hstop : ∀ ts, (front ts).token ≠ .symbol .comma →
      Decides (fun tokens => tokens = closing) stop ts)
    (hlength : ts.length ≤ bound) : Decides (IsList item closing) list ts := by
  induction hn : ts.length using Nat.strongRecOn generalizing ts with
  | ind n ih =>
      refine Decides.of_front ((hitem ts hlength).bind ?_ ?_) fun ts' _ => hlist ts'
      · rintro tokens ⟨tree, htree⟩
        exact ⟨closing, tokens, [tree], Listed.one htree, rfl⟩
      · rintro first used mid rfl ⟨tree, htree⟩
        by_cases hcomma : (front mid).token = .symbol .comma
        · rcases cons_of_front hcomma Token.noConfusion with ⟨column, more, rfl⟩
          rw [List.length_append, List.length_cons] at hn hlength
          have hmore : Decides (IsList item closing) list more :=
            ih more.length (by omega) (by omega) rfl
          refine (hmore.map.mono ?_).skip fun column' ts' =>
            itemsAfter_comma list stop first column'
          rintro tokens ⟨inner, trees, hlisted, rfl⟩
          exact ⟨_, _, Listed.more htree hlisted, by simp⟩
        · refine ((hstop mid hcomma).map.mono ?_).of_front fun ts' hfront =>
            itemsAfter_end list stop first (hfront ▸ hcomma)
          rintro tokens rfl
          exact ⟨tokensOf used, [tree], Listed.one htree, rfl⟩

end Lists

/-!
# Expressions

By induction on how many tokens there are, and from the tightest category to the loosest, every
reader of expressions decides its category.
-/

def IsExpression (category : Category) (tokens : List Token) : Prop :=
  ∃ tree, Derives category tokens tree

def DecidesShorter (ts : List PlacedToken) : Prop :=
  ∀ category ts', ts'.length < ts.length → Decides (IsExpression category) (reader category) ts'

theorem IsExpression.ne_nil {tokens : List Token} (h : IsExpression category tokens) :
    tokens ≠ [] := by
  rcases h with ⟨tree, hderives⟩
  rcases hderives.head with ⟨token, more, rfl, _⟩
  exact List.cons_ne_nil token more

theorem IsExpression.fold {tokens tokens' : List Token} {token : Token} {op : BinaryOp}
    (hleft : IsExpression (.chain level) tokens) (hop : level.operator? token = some op)
    (hright : IsExpression (.operands level) tokens') :
    IsExpression (.chain level) (tokens ++ token :: tokens') := by
  rcases hleft with ⟨left, hleft⟩
  rcases hright with ⟨right, hright⟩
  exact ⟨_, Derives.fold hleft (operator?_eq_some_iff.mp hop) hright⟩

theorem length_lt_of_used {used : List PlacedToken} (h : tokensOf used ≠ [])
    (mid : List PlacedToken) :
    mid.length < (used ++ mid).length := by
  cases used with
  | nil => exact absurd rfl h
  | cons t more =>
      rw [List.length_append, List.length_cons]
      omega

theorem decides_operators {before : List Token} {bound : Nat}
    (hoperand : ∀ ts', ts'.length < bound →
      Decides (IsExpression (.operands level)) (reader (.operands level)) ts')
    (hlength : ts.length ≤ bound) (hbefore : IsExpression (.chain level) before) (left : Tree) :
    Decides (fun tokens => IsExpression (.chain level) (before ++ tokens))
      (operatorsReader level left) ts := by
  induction hn : ts.length using Nat.strongRecOn generalizing before left ts with
  | ind n ih =>
      cases hop : level.operator? (front ts).token with
      | none =>
          refine (Decides.pure left (by rwa [List.append_nil])).of_front fun ts' hfront => ?_
          exact operatorsReader_end left (by rw [hfront, hop])
      | some op =>
          cases ts with
          | nil => cases level <;> cases hop
          | cons t more =>
              rw [List.length_cons] at hn hlength
              refine Decides.skip ?_ fun column ts' => operatorsReader_operator left column hop
              refine (hoperand more (by omega)).bind ?_ ?_
              · intro tokens htokens
                exact ⟨[], by rw [List.append_nil]; exact hbefore.fold hop htokens⟩
              · rintro right used mid rfl hused
                rw [List.length_append] at hn hlength
                refine (ih mid.length (by omega) (by omega) (hbefore.fold hop hused)
                  (.binary op left right) rfl).mono ?_
                intro tokens htokens
                rwa [List.append_assoc, List.cons_append] at htokens

theorem decides_chain
    (hfirst : Decides (IsExpression (.operands level)) (reader (.operands level)) ts)
    (hshorter : DecidesShorter ts) :
    Decides (IsExpression (.chain level)) (reader (.chain level)) ts := by
  refine Decides.of_front (hfirst.bind ?_ ?_) fun ts' _ => reader_chain level ts'
  · rintro tokens ⟨tree, hderives⟩
    exact ⟨[], tree, by rw [List.append_nil]; exact Derives.operand hderives⟩
  · rintro left used mid rfl ⟨tree, hderives⟩
    have hlength := length_lt_of_used (IsExpression.ne_nil ⟨tree, hderives⟩) mid
    exact decides_operators (hshorter (.operands level)) hlength.le
      ⟨tree, Derives.operand hderives⟩ left

theorem decides_negation
    (hcomparison : Decides (IsExpression (.chain .comparison)) (reader (.chain .comparison)) ts)
    (hshorter : DecidesShorter ts) : Decides (IsExpression .negation) (reader .negation) ts := by
  by_cases hnot : (front ts).token = .keyword .not
  · rcases cons_of_front hnot Token.noConfusion with ⟨column, more, rfl⟩
    have hoperand := hshorter .negation more (by simp)
    refine (hoperand.map.mono ?_).skip fun column' ts' => reader_not column'
    rintro tokens ⟨tree, hderives⟩
    exact ⟨_, Derives.not hderives⟩
  · refine (hcomparison.mono ?_).of_front fun ts' hfront => reader_negation (hfront ▸ hnot)
    rintro tokens ⟨tree, hderives⟩
    exact ⟨tree, Derives.comparison hderives⟩

theorem decides_casts {before : List Token} (hbefore : IsExpression .cast before)
    (inner : Tree) :
    Decides (fun tokens => IsExpression .cast (before ++ tokens)) (castsReader inner) ts := by
  induction hn : ts.length using Nat.strongRecOn generalizing before inner ts with
  | ind n ih =>
      by_cases has : (front ts).token = .keyword .as
      · rcases cons_of_front has Token.noConfusion with ⟨column, more, rfl⟩
        have hcast (target : ValueType) :
            IsExpression .cast (before ++ [.keyword .as, .type target]) := by
          rcases hbefore with ⟨tree, hderives⟩
          exact ⟨_, Derives.cast hderives⟩
        refine Decides.skip ?_ fun column ts' => castsReader_as inner column
        refine (decides_type more).bind ?_ ?_
        · rintro _ ⟨target, rfl⟩
          exact ⟨[], hcast target⟩
        · rintro target used mid rfl ⟨target', hused⟩
          rw [List.length_cons, List.length_append] at hn
          refine (ih mid.length (by omega) (hcast target') (.cast inner target) rfl).mono ?_
          intro tokens htokens
          rw [hused]
          rwa [List.append_assoc] at htokens
      · refine (Decides.pure inner (by rwa [List.append_nil])).of_front fun ts' hfront => ?_
        exact castsReader_end inner (by rwa [hfront])

theorem decides_cast (hprimary : Decides (IsExpression .primary) (reader .primary) ts) :
    Decides (IsExpression .cast) (reader .cast) ts := by
  refine Decides.of_front (hprimary.bind ?_ ?_) fun ts' _ => reader_cast ts'
  · rintro tokens ⟨tree, hderives⟩
    exact ⟨[], tree, by rw [List.append_nil]; exact Derives.uncast hderives⟩
  · rintro inner used mid _ ⟨tree, hderives⟩
    exact decides_casts ⟨tree, Derives.uncast hderives⟩ inner

def IsArguments (tokens : List Token) : Prop :=
  ∃ items : List (List Token × Tree), (∀ i ∈ items, Derives .expression i.1 i.2) ∧
    tokens = separated (items.map Prod.fst) ++ [.symbol .closeParen]

theorem decides_arguments (hexpression : ∀ ts', ts'.length ≤ ts.length →
      Decides (IsExpression .expression) (reader .expression) ts') :
    Decides IsArguments argumentsReader ts := by
  by_cases hclose : (front ts).token = .symbol .closeParen
  · rcases cons_of_front hclose Token.noConfusion with ⟨column, more, rfl⟩
    exact (Decides.pure [] ⟨[], by simp, rfl⟩).skip fun column' ts' =>
      argumentsReader_close column'
  · have hlist : Decides (IsList (Derives .expression) [.symbol .closeParen])
        argumentListReader ts :=
      decides_list argumentListReader_eq hexpression
        (fun ts' _ => decides_symbol .closeParen ts') (Nat.le_refl _)
    refine (hlist.mono ?_).of_front fun ts' hfront =>
      argumentsReader_list (by rwa [hfront])
    rintro tokens ⟨inner, trees, ⟨items, _, hitems, rfl, _⟩, rfl⟩
    exact ⟨items, hitems, rfl⟩

theorem decides_parentheses {column : Nat}
    (h : Decides (IsExpression .expression) (reader .expression) ts) :
    Decides (IsExpression .primary) (reader .primary) (⟨.symbol .openParen, column⟩ :: ts) := by
  refine Decides.skip ?_ fun column' ts' => reader_parentheses column'
  refine h.bind ?_ ?_
  · rintro tokens ⟨tree, hderives⟩
    exact ⟨[.symbol .closeParen], tree, Derives.parentheses hderives⟩
  · rintro tree used mid rfl ⟨tree', hderives⟩
    refine (decides_symbol .closeParen mid).map.mono ?_
    rintro tokens rfl
    exact ⟨tree', Derives.parentheses hderives⟩

theorem decides_builtin {column : Nat} (f : Function)
    (hshorter : DecidesShorter (⟨.function f, column⟩ :: ts)) :
    Decides (IsExpression .primary) (reader .primary) (⟨.function f, column⟩ :: ts) := by
  refine Decides.skip ?_ fun column' ts' => reader_function f column'
  refine (decides_symbol .openParen ts).bind ?_ ?_
  · rintro tokens rfl
    exact ⟨[.symbol .closeParen], _, @Derives.builtin f [] (by simp)⟩
  · rintro _ used mid rfl hused
    have hargs : Decides IsArguments argumentsReader mid := by
      apply decides_arguments
      intro ts' hlength
      apply hshorter .expression ts'
      rw [List.length_cons, List.length_append]
      omega
    refine hargs.map.mono ?_
    rintro tokens ⟨items, hitems, rfl⟩
    rw [hused]
    exact ⟨_, Derives.builtin hitems⟩

theorem decides_name_value {column : Nat} (s : String)
    (hshorter : DecidesShorter (⟨.name s, column⟩ :: ts)) :
    Decides (IsExpression .primary) (reader .primary) (⟨.name s, column⟩ :: ts) := by
  refine Decides.skip ?_ (reader_name s)
  by_cases hopen : (front ts).token = .symbol .openParen
  · rcases cons_of_front hopen Token.noConfusion with ⟨column', more, rfl⟩
    have hargs : Decides IsArguments argumentsReader more := by
      apply decides_arguments
      intro ts' hlength
      apply hshorter .expression ts'
      rw [List.length_cons, List.length_cons]
      omega
    refine (hargs.map.mono ?_).skip fun column' ts' => reader_call s 0 column'
    rintro tokens ⟨items, hitems, rfl⟩
    exact ⟨_, Derives.call hitems⟩
  · refine (Decides.pure (.get s) ⟨_, Derives.get⟩).of_front fun ts' hfront => ?_
    exact reader_primary (PrimaryForm.get (by rwa [hfront]))

theorem decides_primary (hshorter : DecidesShorter ts) :
    Decides (IsExpression .primary) (reader .primary) ts := by
  cases hstarts : startsValue (front ts).token with
  | false =>
      refine Decides.fail [.number 0] ⟨_, Derives.number⟩ fun ts' hfront => ?_
      exact reader_primary_blames (by rw [hfront, hstarts])
  | true =>
      cases ts with
      | nil => cases hstarts
      | cons t more =>
          rcases t with ⟨token, column⟩
          have hmore (category : Category) :
              Decides (IsExpression category) (reader category) more :=
            hshorter category more (by simp)
          change startsValue token = true at hstarts
          unfold startsValue at hstarts
          split at hstarts
          · exact (Decides.pure _ ⟨_, Derives.number⟩).skip fun _ _ =>
              reader_primary PrimaryForm.number
          · exact (Decides.pure _ ⟨_, Derives.boolean⟩).skip fun _ _ =>
              reader_primary PrimaryForm.boolean
          · exact (Decides.pure _ ⟨_, Derives.string⟩).skip fun _ _ =>
              reader_primary PrimaryForm.string
          · exact (Decides.pure _ ⟨_, Derives.template⟩).skip fun _ _ =>
              reader_primary PrimaryForm.template
          · next f => exact decides_builtin f hshorter
          · next s => exact decides_name_value s hshorter
          · refine ((hmore .primary).map.mono ?_).skip fun column' ts' => reader_minus column'
            rintro tokens ⟨tree, hderives⟩
            exact ⟨_, Derives.negate hderives⟩
          · refine ((hmore .primary).map.mono ?_).skip fun column' ts' => reader_plus column'
            rintro tokens ⟨tree, hderives⟩
            exact ⟨_, Derives.affirm hderives⟩
          · exact decides_parentheses (hmore .expression)
          · cases hstarts

theorem decides_expression (category : Category) (ts : List PlacedToken) :
    Decides (IsExpression category) (reader category) ts := by
  induction hn : ts.length using Nat.strongRecOn generalizing category ts with
  | ind n ih =>
      have hshorter : DecidesShorter ts := by
        intro category ts' hlength
        exact ih ts'.length (by omega) category ts' rfl
      have hprimary := decides_primary hshorter
      have hcast := decides_cast hprimary
      have hpower : Decides (IsExpression (.chain .power)) (reader (.chain .power)) ts :=
        decides_chain hcast hshorter
      have hproduct : Decides (IsExpression (.chain .product)) (reader (.chain .product)) ts :=
        decides_chain hpower hshorter
      have hsum : Decides (IsExpression (.chain .sum)) (reader (.chain .sum)) ts :=
        decides_chain hproduct hshorter
      have hcomparison :
          Decides (IsExpression (.chain .comparison)) (reader (.chain .comparison)) ts :=
        decides_chain hsum hshorter
      have hnegation := decides_negation hcomparison hshorter
      have hconjunction :
          Decides (IsExpression (.chain .conjunction)) (reader (.chain .conjunction)) ts :=
        decides_chain hnegation hshorter
      cases category with
      | primary => exact hprimary
      | cast => exact hcast
      | negation => exact hnegation
      | chain level =>
          cases level with
          | power => exact hpower
          | product => exact hproduct
          | sum => exact hsum
          | comparison => exact hcomparison
          | conjunction => exact hconjunction
          | disjunction => exact decides_chain hconjunction hshorter

/-!
# Blocks

The reader of a block decides the sources of such blocks.
-/

def IsSource (role : Role) (tokens : List Token) : Prop :=
  ∃ tree, BlockDerives role tokens tree

theorem decides_reading (ts : List PlacedToken) :
    Decides (fun tokens => ∃ tree, Reading tokens tree) readingReader ts := by
  refine (decides_name ts).bind ?_ ?_
  · rintro _ ⟨s, rfl⟩
    exact ⟨[.keyword .as, .type .number], _, Reading.read⟩
  · rintro name used mid _ ⟨s, hname⟩
    rw [hname]
    refine (decides_keyword .as mid).bind ?_ ?_
    · rintro _ rfl
      exact ⟨[.type .number], _, Reading.read⟩
    · rintro _ used' mid' _ has
      rw [has]
      refine (decides_type mid').map.mono ?_
      rintro _ ⟨target, rfl⟩
      exact ⟨_, Reading.read⟩

theorem decides_assignment (declares : Bool) (ts : List PlacedToken) :
    Decides (fun tokens => ∃ tree, Assignment declares tokens tree) (assignmentReader declares)
      ts := by
  have hzero : Derives .expression [.number 0] (.literal (.number 0)) :=
    Derives.of_power (Derives.operand (Derives.uncast Derives.number))
  refine (decides_name ts).bind ?_ ?_
  · rintro _ ⟨s, rfl⟩
    exact ⟨[.symbol .assign, .number 0], _, Assignment.assign hzero⟩
  · rintro name used mid _ ⟨s, hname⟩
    rw [hname]
    refine (decides_symbol .assign mid).bind ?_ ?_
    · rintro _ rfl
      exact ⟨[.number 0], _, Assignment.assign hzero⟩
    · rintro _ used' mid' _ hassign
      rw [hassign]
      refine (decides_expression .expression mid').map.mono ?_
      rintro tokens ⟨tree, hderives⟩
      exact ⟨_, Assignment.assign hderives⟩

theorem decides_assignments (declares : Bool) (ts : List PlacedToken) :
    Decides (IsList (Assignment declares) []) (assignmentsReader declares) ts :=
  decides_list (assignmentsReader_eq declares) (fun ts' _ => decides_assignment declares ts')
    (fun _ _ => Decides.pure () rfl) (Nat.le_refl _)

theorem decides_block {role : Role} (h : role.isTerminal = false) (ts : List PlacedToken) :
    Decides (IsSource role) (blockReader role) ts := by
  cases role with
  | start => cases h
  | finish => cases h
  | input =>
      refine (decides_keyword .read ts).bind ?_ ?_
      · rintro _ rfl
        exact ⟨[.name "x", .keyword .as, .type .number], _,
          BlockDerives.input (Listed.one Reading.read)⟩
      · rintro _ used mid _ hread
        have hreads : Decides (IsList Reading []) readsReader mid :=
          decides_list readsReader_eq (fun ts' _ => decides_reading ts')
            (fun _ _ => Decides.pure () rfl) (Nat.le_refl _)
        refine hreads.map.mono ?_
        rintro _ ⟨inner, trees, hlisted, rfl⟩
        rw [hread, List.append_nil]
        exact ⟨_, BlockDerives.input hlisted⟩
  | output =>
      refine (decides_expression .expression ts).map.mono ?_
      rintro tokens ⟨tree, hderives⟩
      exact ⟨_, BlockDerives.output hderives⟩
  | decision =>
      refine (decides_expression .expression ts).mono ?_
      rintro tokens ⟨tree, hderives⟩
      exact ⟨_, BlockDerives.decision hderives⟩
  | declaration =>
      refine (decides_assignments true ts).map.mono ?_
      rintro _ ⟨inner, trees, hlisted, rfl⟩
      rw [List.append_nil]
      exact ⟨_, BlockDerives.declaration hlisted⟩
  | assignment =>
      refine (decides_assignments false ts).map.mono ?_
      rintro _ ⟨inner, trees, hlisted, rfl⟩
      rw [List.append_nil]
      exact ⟨_, BlockDerives.assignment hlisted⟩

/-!
# The end of the input

No source has an end of the input in it.
-/

theorem mem_of_mem_separated {items : List (List Token)} {token : Token}
    (h : token ∈ separated items) :
    token = .symbol .comma ∨ ∃ tokens ∈ items, token ∈ tokens := by
  induction items with
  | nil => cases h
  | cons first rest ih =>
      cases rest with
      | nil => exact Or.inr ⟨first, List.mem_cons_self, h⟩
      | cons next others =>
          rcases List.mem_append.mp h with hfirst | hafter
          · exact Or.inr ⟨first, List.mem_cons_self, hfirst⟩
          · rcases List.mem_cons.mp hafter with hcomma | hrest
            · exact Or.inl hcomma
            · rcases ih hrest with hcomma | ⟨tokens, htokens, htoken⟩
              · exact Or.inl hcomma
              · exact Or.inr ⟨tokens, List.mem_cons_of_mem _ htokens, htoken⟩

theorem end_not_mem_separated {items : List (List Token × Tree)}
    (h : ∀ i ∈ items, .endOfInput ∉ i.1) : .endOfInput ∉ separated (items.map Prod.fst) := by
  intro hmem
  rcases mem_of_mem_separated hmem with hcomma | ⟨tokens, htokens, hend⟩
  · cases hcomma
  · rcases List.mem_map.mp htokens with ⟨i, hi, rfl⟩
    exact h i hi hend

theorem Derives.end_not_mem {tokens : List Token} {tree : Tree}
    (h : Derives category tokens tree) : .endOfInput ∉ tokens := by
  induction h with
  | operand _ ih | comparison _ ih | uncast _ ih => exact ih
  | fold _ hinfix _ ihleft ihright =>
      cases hinfix <;> simp [ihleft, ihright]
  | not _ ih | negate _ ih | affirm _ ih => simpa using ih
  | cast _ ih => simpa using ih
  | parentheses _ ih => simpa using ih
  | builtin _ ih | call _ ih => simpa [parenthesized] using end_not_mem_separated ih
  | number | boolean | string | template | get => simp

theorem Listed.end_not_mem {item : List Token → Tree → Prop} {tokens : List Token}
    {trees : List Tree} (h : Listed item tokens trees)
    (hitem : ∀ tokens tree, item tokens tree → .endOfInput ∉ tokens) : .endOfInput ∉ tokens := by
  rcases h with ⟨items, _, hitems, rfl, _⟩
  exact end_not_mem_separated fun i hi => hitem i.1 i.2 (hitems i hi)

theorem BlockDerives.end_not_mem {role : Role} {tokens : List Token} {tree : Tree}
    (h : BlockDerives role tokens tree) : .endOfInput ∉ tokens := by
  have hassignment (declares : Bool) (tokens : List Token) (tree : Tree)
      (h : Assignment declares tokens tree) : .endOfInput ∉ tokens := by
    cases h with
    | assign hderives => simpa using hderives.end_not_mem
  cases h with
  | input hlisted =>
      have hinner := hlisted.end_not_mem fun tokens tree hreading => by
        cases hreading
        simp
      simpa using hinner
  | output hderives => exact hderives.end_not_mem
  | decision hderives => exact hderives.end_not_mem
  | declaration hlisted => exact hlisted.end_not_mem (hassignment true)
  | assignment hlisted => exact hlisted.end_not_mem (hassignment false)

theorem IsSource.end_not_mem {role : Role} {tokens : List Token} (h : IsSource role tokens) :
    .endOfInput ∉ tokens := by
  rcases h with ⟨tree, hderives⟩
  exact hderives.end_not_mem

/-!
# Viable prefixes

Any tokens can be put into columns, so a prefix is viable if some source of a block starts with its
tokens.  A block that is refused blames a token after the start of a source, and a block that starts
with the same tokens is refused as well.
-/

structure WellPlaced (ts : List PlacedToken) : Prop where
  ends : ∃ source column, ts = source ++ [⟨.endOfInput, column⟩] ∧
    .endOfInput ∉ tokensOf source
  increasing : ts.Pairwise fun t t' => t.column < t'.column

theorem lexeme_ne_end (l : Lexeme) : l.token ≠ .endOfInput := by
  cases l with
  | word w =>
      change Token.ofWord w.text ≠ _
      unfold Token.ofWord
      repeat' split
      all_goals exact Token.noConfusion
  | whole => exact Token.noConfusion
  | decimal => exact Token.noConfusion
  | symbol => exact Token.noConfusion
  | literal l =>
      change l.token ≠ _
      unfold Literal.token
      split <;> exact Token.noConfusion

theorem wellPlaced_tokens {source : String} (h : Lexer.tokens source = .ok ts) :
    WellPlaced ts := by
  rcases Lexer.tokens_eq_ok_iff.mp h with ⟨a, _, rfl⟩
  refine ⟨⟨Spaced.tokens 0 a.parts, a.chars.length + 1, rfl, ?_⟩, a.pairwise_column⟩
  rw [Spaced.tokensOf_tokens]
  intro hend
  rcases List.mem_map.mp hend with ⟨s, _, hs⟩
  exact lexeme_ne_end s.lexeme hs

/-- Some source of a block with the role starts with the tokens. -/
def Viable (role : Role) (tokens : List Token) : Prop :=
  ∃ ts tree, WellPlaced ts ∧ block role ts = .ok tree ∧ tokens <+: tokensOf ts

theorem exists_wellPlaced {tokens : List Token} (h : .endOfInput ∉ tokens) (column : Nat) :
    ∃ source last, tokensOf source = tokens ∧ WellPlaced (source ++ [⟨.endOfInput, last⟩]) ∧
      ∀ t ∈ source ++ [⟨.endOfInput, last⟩], column ≤ t.column := by
  induction tokens generalizing column with
  | nil =>
      refine ⟨[], column, rfl, ⟨⟨[], column, rfl, List.not_mem_nil⟩, ?_⟩, ?_⟩
      · exact List.pairwise_singleton _ _
      · simp
  | cons token more ih =>
      rw [List.mem_cons, not_or] at h
      rcases ih h.2 (column + 1) with ⟨source, last, rfl, hplaced, hcolumns⟩
      refine ⟨⟨token, column⟩ :: source, last, rfl, ⟨⟨_, last, rfl, ?_⟩, ?_⟩, ?_⟩
      · exact fun hmem => (List.mem_cons.mp hmem).elim h.1 h.2
      · exact List.Pairwise.cons hcolumns hplaced.increasing
      · intro t ht
        rcases List.mem_cons.mp ht with rfl | hmore
        · exact Nat.le_refl _
        · exact Nat.le_of_succ_le (hcolumns t hmore)

theorem viable_of_isSource {role : Role} {tokens more : List Token}
    (h : IsSource role (tokens ++ more)) : Viable role tokens := by
  rcases exists_wellPlaced h.end_not_mem 1 with ⟨source, last, htokens, hplaced, _⟩
  rcases h with ⟨tree, hderives⟩
  have hread : block role (source ++ [⟨.endOfInput, last⟩]) = .ok tree :=
    block_complete (htokens ▸ hderives) ⟨last, [], rfl⟩
  refine ⟨_, tree, hplaced, hread, ?_⟩
  rw [tokensOf_append, htokens, List.append_assoc]
  exact List.prefix_append tokens _

theorem Viable.shorter {role : Role} {tokens tokens' : List Token} (h : Viable role tokens)
    (hshorter : tokens' <+: tokens) : Viable role tokens' := by
  rcases h with ⟨ts, tree, hplaced, hread, hstarts⟩
  exact ⟨ts, tree, hplaced, hread, hshorter.trans hstarts⟩

theorem WellPlaced.exists_next {used rest : List PlacedToken} (h : WellPlaced (used ++ rest))
    (hused : .endOfInput ∉ tokensOf used) : ∃ t more, rest = t :: more := by
  cases rest with
  | cons t more => exact ⟨t, more, rfl⟩
  | nil =>
      rcases h.ends with ⟨source, column, hsource, _⟩
      rw [List.append_nil] at hsource
      rw [hsource, tokensOf_append] at hused
      exact absurd (List.mem_append_right _ List.mem_cons_self) hused

theorem ended_error {tree : Tree} {rest : List PlacedToken}
    (h : (front rest).token ≠ .endOfInput) :
    ended (tree, rest) = .error (.unexpectedToken (front rest)) := by
  unfold ended
  split
  · next hrest =>
      change rest = _ at hrest
      rw [hrest] at h
      exact absurd rfl h
  · rfl

theorem refused_alike {role : Role} {cause : Cause} (hrole : role.isTerminal = false)
    (hts : WellPlaced ts) (h : block role ts = .error cause) :
    ∃ used t rest more, ts = used ++ t :: rest ∧ cause.found? = some t ∧
      IsSource role (tokensOf used ++ more) ∧
      ∀ used' rest' tree, tokensOf used' = tokensOf used → (front rest').token = t.token →
        block role (used' ++ rest') ≠ .ok tree := by
  have hdecides := decides_block hrole ts
  rw [block_eq] at h
  cases hdecides with
  | @takes tree used rest hmember hreads =>
      rcases hts.exists_next hmember.end_not_mem with ⟨t, more, rfl⟩
      rw [hreads used (t :: more) rfl rfl] at h
      have ht : (front (t :: more)).token ≠ .endOfInput := by
        rcases t with ⟨token, column⟩
        rintro rfl
        cases h
      have hfound : cause.found? = some t := by
        change ended (tree, t :: more) = _ at h
        rw [ended_error ht] at h
        cases h
        rfl
      refine ⟨used, t, more, [], rfl, hfound, by rwa [List.append_nil], ?_⟩
      intro used' rest' tree' htokens hfront haccepted
      rw [block_eq, hreads used' rest' htokens hfront] at haccepted
      change ended (tree, rest') = _ at haccepted
      rw [ended_error (by rwa [hfront])] at haccepted
      cases haccepted
  | @blames used rest more hmember hfails =>
      have hused : .endOfInput ∉ tokensOf used := by
        intro hend
        exact hmember.end_not_mem (List.mem_append_left more hend)
      rcases hts.exists_next hused with ⟨t, others, rfl⟩
      rcases hfails used (t :: others) rfl rfl with ⟨cause', herror, hfound⟩
      rw [herror] at h
      cases h
      refine ⟨used, t, others, more, rfl, hfound, hmember, ?_⟩
      intro used' rest' tree htokens hfront haccepted
      rcases hfails used' rest' htokens hfront with ⟨cause', herror', _⟩
      rw [block_eq, herror'] at haccepted
      cases haccepted

theorem args_of_found? {cause : Cause} {t : PlacedToken} (h : cause.found? = some t) :
    cause.fault.args.get? "column" = some (toString t.column) ∧
      cause.fault.args.get? "tok_type" = some t.token.describe := by
  have hargs : (cause.args.map Prod.fst).Nodup ∧ Cause.foundArgs t ⊆ cause.args := by
    cases cause <;> cases h <;> simp [Cause.args, Cause.foundArgs]
  exact ⟨Dictionary.get?_insertAll_of_mem _ hargs.1 (hargs.2 (by simp [Cause.foundArgs])),
    Dictionary.get?_insertAll_of_mem _ hargs.1 (hargs.2 (by simp [Cause.foundArgs]))⟩

/-- The fault of a block that is refused tells the column and the type of the first token that
no source goes on with: the tokens before it are the start of one, and with it they are not.
START and END hold no source to be refused. -/
theorem fault_stands_at_first_wrong_token {role : Role} {cause : Cause}
    (hrole : role.isTerminal = false) (hts : WellPlaced ts) (h : block role ts = .error cause) :
    ∃ k t, IsLeast {n | ¬ Viable role ((tokensOf ts).take n)} (k + 1) ∧ ts[k]? = some t ∧
      cause.fault.args.get? "column" = some (toString t.column) ∧
      cause.fault.args.get? "tok_type" = some t.token.describe := by
  rcases refused_alike hrole hts h with ⟨used, t, rest, more, rfl, hfound, hsource, hrefused⟩
  have hlength : (tokensOf used).length = used.length := List.length_map _
  have htokens : tokensOf (used ++ t :: rest) = tokensOf used ++ t.token :: tokensOf rest :=
    tokensOf_append ..
  have hleast : IsLeast {n | ¬ Viable role ((tokensOf (used ++ t :: rest)).take n)}
      (used.length + 1) := by
    constructor
    · intro hviable
      rw [htokens, ← hlength, List.take_length_add_append] at hviable
      rcases hviable with ⟨ts', tree, _, haccepted, others, hothers⟩
      rw [List.append_assoc] at hothers
      rcases append_of_tokensOf hothers.symm with ⟨used', rest', rfl, hused, hrest⟩
      rcases cons_of_tokensOf hrest with ⟨column, more', rfl, _⟩
      exact hrefused used' _ tree hused rfl haccepted
    · intro n hn
      by_contra hless
      apply hn
      rw [htokens, List.take_append_of_le_length (by omega)]
      exact (viable_of_isSource hsource).shorter (List.take_prefix n _)
  exact ⟨used.length, t, hleast, by simp, args_of_found? hfound⟩

/-- The source `(1, 2)` of a decision: one may start with `(1`, but none goes on with a comma. -/
theorem fault_stands_at_first_wrong_token_pair :
    let ts : List PlacedToken :=
      [⟨.symbol .openParen, 1⟩, ⟨.number 1, 2⟩, ⟨.symbol .comma, 3⟩, ⟨.number 2, 5⟩,
        ⟨.symbol .closeParen, 6⟩, ⟨.endOfInput, 7⟩]
    let cause : Cause := .expectedSymbol .closeParen ⟨.symbol .comma, 3⟩
    WellPlaced ts ∧ block .decision ts = .error cause ∧
      IsLeast {n | ¬ Viable .decision ((tokensOf ts).take n)} 3 ∧
      cause.fault.args.get? "column" = some "3" ∧
      cause.fault.args.get? "tok_type" = some "`,`" := by
  intro ts cause
  have hplaced : WellPlaced ts := ⟨⟨ts.dropLast, 7, rfl, by simp [ts, tokensOf]⟩, by simp [ts]⟩
  have hrefused : block .decision ts = .error cause := by cbv
  have hcolumn : cause.fault.args.get? "column" = some "3" := by cbv
  have htype : cause.fault.args.get? "tok_type" = some "`,`" := by cbv
  rcases fault_stands_at_first_wrong_token rfl hplaced hrefused with ⟨k, t, hleast, ht, hhere, _⟩
  rw [hcolumn] at hhere
  -- only the comma stands in column 3
  have hk : k = 2 := by
    rcases k with _ | _ | _ | _ | _ | _ | k <;> cases ht
    case succ.succ.zero => rfl
    all_goals exact absurd hhere (by decide)
  rw [hk] at hleast
  exact ⟨hplaced, hrefused, hleast, hcolumn, htype⟩

end Grammar
end Blockwise
