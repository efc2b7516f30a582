import Blockwise.Proofs.Grammar.Exactness
import Blockwise.Proofs.Lexeme.Exactness
import Blockwise.Proofs.Phrase

/-!
# Sentences compile to their trees

A line of lexemes is read as their tokens, the tokens of a phrase derive its tree, and what is
derived is parsed.  So every sentence compiles to its tree.
-/

namespace Blockwise

open Grammar (Derives Infix Listed Reading Assignment BlockDerives tokensOf separated parenthesized)

/-!
# Words of the language

What is not reserved is read as a name, or as the function that it names.
-/

namespace Token

theorem ofWord_of_free {s : String} (h : s ∉ reserved) :
    ofWord s = match Function.ofName? s with
      | some f => .function f
      | none => .name s := by
  unfold ofWord
  split
  all_goals
    first
      | exact absurd (by decide) h
      | rfl

end Token

namespace Lexeme

theorem token_keyword (k : Keyword) : (keyword k).token = .keyword k := by
  cases k <;> rfl

theorem token_ofBool (b : Bool) : (word (Word.ofBool b)).token = .boolean b := by
  cases b <;> rfl

theorem token_namedType (t : NamedType) : (word t.word).token = .type t.type := by
  cases t <;> rfl

theorem token_name (name : Name) : (word name.word).token = .name name.word.text := by
  rw [token, Token.ofWord_of_free name.free, name.notFunction]

end Lexeme

/-!
# Lines of lexemes

A line is read as the tokens of its lexemes.
-/

namespace Spaced

def afterSpace (l : Lexeme) : Spaced where
  blanks := [' ']
  lexeme := l
  blank := List.all_eq_true.mp rfl

theorem isChain_afterSpace (s : Spaced) (ls : List Lexeme) :
    (s :: ls.map afterSpace).IsChain Follows := by
  induction ls generalizing s with
  | nil => exact List.isChain_singleton s
  | cons l rest ih =>
      refine List.isChain_cons_cons.mpr ⟨?_, ih (afterSpace l)⟩
      intro hblanks
      cases hblanks

theorem flatMap_chars_afterSpace (l : Lexeme) (ls : List Lexeme) :
    l.chars ++ (ls.map afterSpace).flatMap chars =
      [' '].intercalate ((l :: ls).map Lexeme.chars) := by
  induction ls generalizing l with
  | nil => simp
  | cons next rest ih =>
      rw [List.map_cons, List.flatMap_cons, List.map_cons, List.map_cons,
        List.intercalate_cons_cons, ← List.map_cons, ← ih, chars, afterSpace]
      simp

theorem tokensOf_tokens (before : Nat) (parts : List Spaced) :
    tokensOf (tokens before parts) = parts.map fun s => s.lexeme.token := by
  induction parts generalizing before with
  | nil => rfl
  | cons s rest ih => rw [tokens, Grammar.tokensOf_cons, ih, List.map_cons]

end Spaced

theorem Lexer.tokens_line (ls : List Lexeme) :
    ∃ used column, Lexer.tokens (Lexeme.line ls) = .ok (used ++ [⟨.endOfInput, column⟩]) ∧
      tokensOf used = ls.map Lexeme.token := by
  have hline : (Lexeme.line ls).toList = [' '].intercalate (ls.map Lexeme.chars) := by
    rw [Lexeme.line, String.toList_intercalate, List.map_map]
    congr 1
    exact List.map_congr_left fun l _ => String.toList_ofList
  cases ls with
  | nil =>
      let a : Arrangement := ⟨[], [], List.isChain_nil, by simp⟩
      exact ⟨[], _, Lexer.tokens_eq_ok_iff.mpr ⟨a, hline.symm, rfl⟩, rfl⟩
  | cons l rest =>
      let parts : List Spaced := ⟨[], l, by simp⟩ :: rest.map Spaced.afterSpace
      let a : Arrangement := ⟨parts, [], Spaced.isChain_afterSpace _ _, by simp⟩
      have hchars : a.chars = (Lexeme.line (l :: rest)).toList := by
        rw [hline, ← Spaced.flatMap_chars_afterSpace]
        exact List.append_nil _
      refine ⟨Spaced.tokens 0 parts, _, Lexer.tokens_eq_ok_iff.mpr ⟨a, hchars, rfl⟩, ?_⟩
      rw [Spaced.tokensOf_tokens, List.map_cons, List.map_map]
      rfl

/-!
# Parentheses and commas

Parentheses around an expression make a primary one of it, and expressions with commas between them
make a list.
-/

namespace Lexeme

theorem map_token_enclosed (inside : List Lexeme) :
    (enclosed inside).map token =
      .symbol .openParen :: inside.map token ++ [.symbol .closeParen] := by
  rw [enclosed, List.map_append, List.map_cons]
  rfl

theorem map_token_listed (rows : List (List Lexeme)) :
    (listed rows).map token = separated (rows.map (List.map token)) := by
  unfold listed
  induction rows with
  | nil => rfl
  | cons row rest ih =>
      cases rest with
      | nil => rw [List.intercalate_singleton, List.map_cons, List.map_nil, separated]
      | cons next others =>
          rw [List.intercalate_cons_cons, List.map_append, ih, List.map_append, List.append_assoc]
          rfl

end Lexeme

namespace Grammar
namespace Derives

variable {tokens : List Token} {tree : Tree}

theorem operands_of_primary (h : Derives .primary tokens tree) (level : Parser.Level) :
    Derives (.operands level) tokens tree := by
  have hpower : Derives (.chain .power) tokens tree := Derives.operand (Derives.uncast h)
  have hsum : Derives (.chain .sum) tokens tree := Derives.operand (Derives.operand hpower)
  have hnegation : Derives .negation tokens tree := Derives.comparison (Derives.operand hsum)
  cases level with
  | disjunction => exact Derives.operand hnegation
  | conjunction => exact hnegation
  | comparison => exact hsum
  | sum => exact Derives.operand hpower
  | product => exact hpower
  | power => exact Derives.uncast h

theorem of_chain {level : Parser.Level} (h : Derives (.chain level) tokens tree) :
    Derives .expression tokens tree := by
  have hcomparison : Derives (.chain .comparison) tokens tree →
      Derives .expression tokens tree := fun hgiven =>
    Derives.operand (Derives.operand (Derives.comparison hgiven))
  cases level with
  | disjunction => exact h
  | conjunction => exact Derives.operand h
  | comparison => exact hcomparison h
  | sum => exact hcomparison (Derives.operand h)
  | product => exact hcomparison (Derives.operand (Derives.operand h))
  | power => exact h.of_power

theorem of_primary (h : Derives .primary tokens tree) : Derives .expression tokens tree :=
  Derives.operand (h.operands_of_primary .disjunction)

theorem enclosed {inside : List Lexeme} (h : Derives .expression (inside.map Lexeme.token) tree) :
    Derives .primary ((Lexeme.enclosed inside).map Lexeme.token) tree := by
  rw [Lexeme.map_token_enclosed]
  exact Derives.parentheses h

theorem grouped {inside : List Lexeme} (inParens : Bool)
    (h : Derives .expression (inside.map Lexeme.token) tree) :
    Derives .expression ((Lexeme.grouped inParens inside).map Lexeme.token) tree := by
  cases inParens with
  | true => exact of_primary h.enclosed
  | false => exact h

end Derives

theorem exists_infix (op : BinaryOp) :
    ∃ level, Infix level (Lexeme.binary op).token op := by
  cases op
  all_goals exact ⟨_, by constructor⟩

end Grammar

/-!
# Phrases

A phrase is written as an expression, and as a primary one unless it is compound.  So it stands for
its tree wherever an operand may.
-/

namespace Function

theorem name_of_ofName? {f : Function} {s : String} (h : ofName? s = some f) : f.name = s := by
  unfold ofName? at h
  have hfound := List.find?_some h
  exact of_decide_eq_true hfound

end Function

namespace Phrase

variable {extra : Phrase → Bool}

theorem trees_eq_map (ps : List Phrase) : trees ps = ps.map tree := by
  induction ps with
  | nil => rfl
  | cons p rest ih => rw [trees, ih, List.map_cons]

theorem rows_eq_map (ps : List Phrase) :
    rows extra ps = ps.map fun p => Lexeme.grouped (extra p) (p.lexemes extra) := by
  induction ps with
  | nil => rfl
  | cons p rest ih => rw [rows, ih, List.map_cons]

structure Stands (extra : Phrase → Bool) (p : Phrase) : Prop where
  expression : Derives .expression ((p.lexemes extra).map Lexeme.token) p.tree
  primary : p.isCompound = false → Derives .primary ((p.lexemes extra).map Lexeme.token) p.tree

namespace Stands

variable {p : Phrase}

theorem of_primary (h : Derives .primary ((p.lexemes extra).map Lexeme.token) p.tree) :
    Stands extra p where
  expression := h.of_primary
  primary := fun _ => h

theorem of_compound (hcompound : p.isCompound = true)
    (h : Derives .expression ((p.lexemes extra).map Lexeme.token) p.tree) : Stands extra p where
  expression := h
  primary := fun hsimple => absurd (hcompound.symm.trans hsimple) (by decide)

theorem operand (h : Stands extra p) :
    Derives .primary
      ((Lexeme.grouped (p.isCompound || extra p) (p.lexemes extra)).map Lexeme.token) p.tree := by
  cases hparens : p.isCompound || extra p with
  | true => exact h.expression.enclosed
  | false => exact h.primary (Bool.or_eq_false_iff.mp hparens).1

theorem unary (op : UnaryOp) (h : Stands extra p) : Stands extra (.unary op p) := by
  apply of_compound rfl
  rw [lexemes, tree, List.map_cons]
  cases op with
  | negate => exact Derives.of_primary (Derives.negate h.operand)
  | affirm => exact Derives.of_primary (Derives.affirm h.operand)
  | not =>
      -- unlike the signs, `not` is looser than a primary expression
      rw [Lexeme.unary, Lexeme.token_keyword]
      have hoperand := h.operand.operands_of_primary .conjunction
      exact Derives.operand (Derives.operand (Derives.not hoperand))

theorem binary {q : Phrase} (op : BinaryOp) (hleft : Stands extra p) (hright : Stands extra q) :
    Stands extra (.binary op p q) := by
  apply of_compound rfl
  rw [lexemes, tree, List.map_append, List.map_cons]
  rcases Grammar.exists_infix op with ⟨level, hinfix⟩
  exact Derives.of_chain (Derives.fold (Derives.operand (hleft.operand.operands_of_primary level))
    hinfix (hright.operand.operands_of_primary level))

theorem cast (target : NamedType) (h : Stands extra p) : Stands extra (.cast p target) := by
  apply of_compound rfl
  rw [lexemes, tree, List.map_append, List.map_cons, List.map_singleton, Lexeme.token_keyword,
    Lexeme.token_namedType]
  exact Derives.of_power (Derives.operand (Derives.cast (Derives.uncast h.operand)))

theorem call (callee : Callee) {args : List Phrase} (h : ∀ arg ∈ args, Stands extra arg) :
    Stands extra (.call callee args) := by
  apply of_primary
  let pairs : List (List Token × Tree) := args.map fun arg =>
    ((Lexeme.grouped (extra arg) (arg.lexemes extra)).map Lexeme.token, arg.tree)
  have hpairs : ∀ pair ∈ pairs, Derives .expression pair.1 pair.2 := by
    intro pair hpair
    rcases List.mem_map.mp hpair with ⟨arg, harg, rfl⟩
    exact (h arg harg).expression.grouped (extra arg)
  have htokens : (rows extra args).map (List.map Lexeme.token) = pairs.map Prod.fst := by
    rw [rows_eq_map, List.map_map, List.map_map]
    rfl
  have htrees : trees args = pairs.map Prod.snd := by
    rw [trees_eq_map, List.map_map]
    rfl
  rw [lexemes, tree, List.map_cons, Lexeme.map_token_enclosed, Lexeme.map_token_listed, htokens,
    htrees, Lexeme.token, Token.ofWord_of_free callee.free]
  -- the grammar reads the name of a function and any other name in two ways, to the same tree
  cases hfunction : Function.ofName? callee.word.text with
  | none => exact Derives.call hpairs
  | some f =>
      rw [← Function.name_of_ofName? hfunction]
      exact Derives.builtin hpairs

end Stands

mutual

theorem stands (extra : Phrase → Bool) : (p : Phrase) → Stands extra p
  | whole _ => .of_primary .number
  | decimal _ _ => .of_primary .number
  | boolean b => .of_primary (by
      rw [lexemes, tree, List.map_singleton, Lexeme.token_ofBool]
      exact Derives.boolean)
  | string s => .of_primary (by
      rw [lexemes, tree, List.map_singleton, Lexeme.token, Literal.token_ofText]
      exact Derives.string)
  | template t => .of_primary (by
      rw [lexemes, tree, List.map_singleton, Lexeme.token, Literal.token_ofTemplate]
      exact Derives.template)
  | get name => .of_primary (by
      rw [lexemes, tree, List.map_singleton, Lexeme.token_name]
      exact Derives.get)
  | call callee args => .call callee (allStand extra args)
  | unary op operand => (stands extra operand).unary op
  | binary op left right => (stands extra left).binary op (stands extra right)
  | cast operand target => (stands extra operand).cast target

theorem allStand (extra : Phrase → Bool) : (ps : List Phrase) → ∀ p ∈ ps, Stands extra p
  | [] => by simp
  | p :: rest => List.forall_mem_cons.mpr ⟨stands extra p, allStand extra rest⟩

end

end Phrase

/-!
# Blocks

Items that are each written as one of the grammar make a list of the grammar.
-/

namespace Grammar

theorem Listed.of_lexemes {α : Type} {item : List Token → Tree → Prop} {lexemes : α → List Lexeme}
    {tree : α → Tree} (h : ∀ x, item ((lexemes x).map Lexeme.token) (tree x)) (first : α)
    (others : List α) :
    Listed item ((Lexeme.listed ((first :: others).map lexemes)).map Lexeme.token)
      ((first :: others).map tree) := by
  refine ⟨(first :: others).map fun x => ((lexemes x).map Lexeme.token, tree x), by simp, ?_, ?_,
    ?_⟩
  · intro i hi
    rcases List.mem_map.mp hi with ⟨x, _, rfl⟩
    exact h x
  · rw [Lexeme.map_token_listed, List.map_map, List.map_map]
    rfl
  · rw [List.map_map]
    rfl

end Grammar

theorem Question.reading (q : Question) : Reading (q.lexemes.map Lexeme.token) q.tree := by
  rw [lexemes, List.map_cons, List.map_cons, List.map_singleton, Lexeme.token_name,
    Lexeme.token_keyword, Lexeme.token_namedType]
  exact Reading.read

theorem Setting.assignment (extra : Phrase → Bool) (declares : Bool) (s : Setting) :
    Assignment declares ((s.lexemes extra).map Lexeme.token) (s.tree declares) := by
  rw [lexemes, List.map_cons, List.map_cons, Lexeme.token_name]
  exact Assignment.assign ((Phrase.stands extra s.value).expression.grouped (extra s.value))

namespace Sentence

theorem derives (extra : Phrase → Bool) (s : Sentence) :
    BlockDerives s.role ((s.lexemes extra).map Lexeme.token) s.tree := by
  have hphrase : ∀ p : Phrase, Derives .expression
      ((Lexeme.grouped (extra p) (p.lexemes extra)).map Lexeme.token) p.tree := fun p =>
    (Phrase.stands extra p).expression.grouped (extra p)
  cases s with
  | input first others =>
      rw [lexemes, List.map_cons, Lexeme.token_keyword]
      exact BlockDerives.input (Listed.of_lexemes Question.reading first others)
  | output value => exact BlockDerives.output (hphrase value)
  | decision value => exact BlockDerives.decision (hphrase value)
  | declaration first others =>
      exact BlockDerives.declaration
        (Listed.of_lexemes (Setting.assignment extra true) first others)
  | assignment first others =>
      exact BlockDerives.assignment
        (Listed.of_lexemes (Setting.assignment extra false) first others)

/-- Every sentence, written down, compiles to its tree. -/
theorem ofSource_text (extra : Phrase → Bool) (s : Sentence) :
    Tree.ofSource s.role (s.text extra) = .ok s.tree := by
  rcases Lexer.tokens_line (s.lexemes extra) with ⟨used, column, hread, hused⟩
  have hderives : BlockDerives s.role (tokensOf used) s.tree := by
    rw [hused]
    exact s.derives extra
  have hrole : s.role.isTerminal = false := by
    cases s <;> rfl
  rw [Tree.ofSource, hrole, text, hread]
  exact Grammar.block_complete hderives ⟨column, [], rfl⟩

-- how a sentence is written, without parentheses that nothing asks for
example :
    let x : Name := ⟨⟨Word.ofChars 'x' [] (by decide), by decide⟩, by decide⟩
    let sum : Phrase := .binary .add (.get x) (.cast (.string "1$") .number)
    let s : Sentence := .assignment ⟨x, .binary .mul sum (.unary .negate (.get x))⟩ []
    s.text (fun _ => false) = "x = ( x + ( \"1$$\" as Number ) ) * ( - x )" := by
  rfl

end Sentence

end Blockwise
