import Blockwise.Proofs.Lexeme.Quoting
import Blockwise.Tree.Parser

/-!
# Phrases

The trees that a source can stand for, each with a way to write it down.  A phrase is an
expression whose names, numbers and templates are already fit to be written; a sentence is the
content of a block.  Written down, every operand that has an operator of its own stands in
parentheses, and a single space stands between two lexemes.
-/

namespace Blockwise

/-!
# Words of the language

The words that stand for something other than a name or a function are reserved.  Any other word can
be called, and those that are no type's name either can be variables.
-/

def Token.reserved : List String :=
  ["read", "as", "and", "or", "not", "Number", "String", "Boolean", "true", "false", "_pi", "_e"]

structure Callee where
  word : Word
  free : word.text ∉ Token.reserved

structure Name extends Callee where
  notFunction : Function.ofName? word.text = none

namespace Word

def ofChars (first : Char) (others : List Char)
    (h : (Lexer.isNameStart first && others.all Lexer.isNameChar) = true) : Word where
  first := first
  others := others
  starts := (Bool.and_eq_true_iff.mp h).1
  continues := List.all_eq_true.mp (Bool.and_eq_true_iff.mp h).2

def ofKeyword : Keyword → Word
  | .read => ofChars 'r' ['e', 'a', 'd'] (by decide)
  | .as => ofChars 'a' ['s'] (by decide)
  | .and => ofChars 'a' ['n', 'd'] (by decide)
  | .or => ofChars 'o' ['r'] (by decide)
  | .not => ofChars 'n' ['o', 't'] (by decide)

def ofBool : Bool → Word
  | true => ofChars 't' ['r', 'u', 'e'] (by decide)
  | false => ofChars 'f' ['a', 'l', 's', 'e'] (by decide)

end Word

inductive NamedType where
  | number
  | string
  | boolean

namespace NamedType

def type : NamedType → ValueType
  | number => .number
  | string => .string
  | boolean => .boolean

def word : NamedType → Word
  | number => Word.ofChars 'N' ['u', 'm', 'b', 'e', 'r'] (by decide)
  | string => Word.ofChars 'S' ['t', 'r', 'i', 'n', 'g'] (by decide)
  | boolean => Word.ofChars 'B' ['o', 'o', 'l', 'e', 'a', 'n'] (by decide)

end NamedType

namespace Lexeme

def keyword (k : Keyword) : Lexeme :=
  word (Word.ofKeyword k)

def unary : UnaryOp → Lexeme
  | .negate => symbol .minus
  | .affirm => symbol .plus
  | .not => keyword .not

def binary : BinaryOp → Lexeme
  | .add => symbol .plus
  | .sub => symbol .minus
  | .mul => symbol .star
  | .div => symbol .slash
  | .mod => symbol .percent
  | .pow => symbol .caret
  | .and => keyword .and
  | .or => keyword .or
  | .eq => symbol .equal
  | .ne => symbol .notEqual
  | .gt => symbol .greater
  | .lt => symbol .less
  | .ge => symbol .greaterEqual
  | .le => symbol .lessEqual

def enclosed (inside : List Lexeme) : List Lexeme :=
  symbol .openParen :: inside ++ [symbol .closeParen]

def grouped (inParens : Bool) (inside : List Lexeme) : List Lexeme :=
  if inParens then enclosed inside else inside

def listed (rows : List (List Lexeme)) : List Lexeme :=
  [symbol .comma].intercalate rows

def line (ls : List Lexeme) : String :=
  " ".intercalate (ls.map fun l => String.ofList l.chars)

end Lexeme

/-!
# Expressions

A phrase is compound if it has an operator outside all parentheses.
-/

inductive Phrase where
  | whole (digits : Digits)
  | decimal (digits fraction : Digits)
  | boolean (b : Bool)
  | string (s : String)
  | template (t : Template)
  | get (name : Name)
  | call (callee : Callee) (args : List Phrase)
  | unary (op : UnaryOp) (operand : Phrase)
  | binary (op : BinaryOp) (left right : Phrase)
  | cast (operand : Phrase) (target : NamedType)

namespace Phrase

def isCompound : Phrase → Bool
  | unary _ _ | binary _ _ _ | cast _ _ => true
  | _ => false

mutual

def tree : Phrase → Tree
  | whole digits => .literal (.number (Number.ofLiteral digits.chars []))
  | decimal digits fraction => .literal (.number (Number.ofLiteral digits.chars fraction.chars))
  | boolean b => .literal (.boolean b)
  | string s => .literal (.string s)
  | template t => .template t.segments
  | get name => .get name.word.text
  | call callee args => .call callee.word.text (trees args)
  | unary op operand => .unary op operand.tree
  | binary op left right => .binary op left.tree right.tree
  | cast operand target => .cast operand.tree target.type

def trees : List Phrase → List Tree
  | [] => []
  | p :: rest => p.tree :: trees rest

end

mutual

/-- The phrase written down.  A compound operand stands in parentheses; `extra` says which other
operands and which arguments do too. -/
def lexemes (extra : Phrase → Bool) : Phrase → List Lexeme
  | whole digits => [.whole digits]
  | decimal digits fraction => [.decimal digits fraction]
  | boolean b => [.word (Word.ofBool b)]
  | string s => [.literal (Literal.ofText s)]
  | template t => [.literal (Literal.ofTemplate t)]
  | get name => [.word name.word]
  | call callee args => .word callee.word :: Lexeme.enclosed (Lexeme.listed (rows extra args))
  | unary op operand =>
      Lexeme.unary op ::
        Lexeme.grouped (operand.isCompound || extra operand) (operand.lexemes extra)
  | binary op left right =>
      Lexeme.grouped (left.isCompound || extra left) (left.lexemes extra) ++
        Lexeme.binary op ::
          Lexeme.grouped (right.isCompound || extra right) (right.lexemes extra)
  | cast operand target =>
      Lexeme.grouped (operand.isCompound || extra operand) (operand.lexemes extra) ++
        [Lexeme.keyword .as, .word target.word]

def rows (extra : Phrase → Bool) : List Phrase → List (List Lexeme)
  | [] => []
  | p :: rest => Lexeme.grouped (extra p) (p.lexemes extra) :: rows extra rest

end

end Phrase

/-!
# Blocks

An input block is a row of questions, and a block of assignments a row of settings.
-/

structure Question where
  name : Name
  target : NamedType

namespace Question

def tree (q : Question) : Tree :=
  .set q.name.word.text (.read q.name.word.text q.target.type) true

def lexemes (q : Question) : List Lexeme :=
  [.word q.name.word, Lexeme.keyword .as, .word q.target.word]

end Question

structure Setting where
  name : Name
  value : Phrase

namespace Setting

def tree (declares : Bool) (s : Setting) : Tree :=
  .set s.name.word.text s.value.tree declares

def lexemes (extra : Phrase → Bool) (s : Setting) : List Lexeme :=
  .word s.name.word :: .symbol .assign :: Lexeme.grouped (extra s.value) (s.value.lexemes extra)

end Setting

inductive Sentence where
  | input (first : Question) (others : List Question)
  | output (value : Phrase)
  | decision (value : Phrase)
  | declaration (first : Setting) (others : List Setting)
  | assignment (first : Setting) (others : List Setting)

namespace Sentence

def role : Sentence → Role
  | input _ _ => .input
  | output _ => .output
  | decision _ => .decision
  | declaration _ _ => .declaration
  | assignment _ _ => .assignment

def tree : Sentence → Tree
  | input first others => .sequence ((first :: others).map Question.tree)
  | output value => .write value.tree
  | decision value => value.tree
  | declaration first others => .sequence ((first :: others).map (Setting.tree true))
  | assignment first others => .sequence ((first :: others).map (Setting.tree false))

def lexemes (extra : Phrase → Bool) : Sentence → List Lexeme
  | input first others =>
      Lexeme.keyword .read :: Lexeme.listed ((first :: others).map Question.lexemes)
  | output value => Lexeme.grouped (extra value) (value.lexemes extra)
  | decision value => Lexeme.grouped (extra value) (value.lexemes extra)
  | declaration first others =>
      Lexeme.listed ((first :: others).map (Setting.lexemes extra))
  | assignment first others =>
      Lexeme.listed ((first :: others).map (Setting.lexemes extra))

def text (extra : Phrase → Bool) (s : Sentence) : String :=
  Lexeme.line (s.lexemes extra)

end Sentence

end Blockwise
