import Blockwise.Token.Lexer
import Mathlib.Data.List.Chain

/-!
# Lexemes

How tokens are spelled, said without a reader of characters.  A source is a row of lexemes with
blanks before, between and after them.  Where no blank stands between two lexemes, the first one
must not go on with the characters of the second.
-/

namespace Blockwise

open Lexer (isNameStart isNameChar)

structure Word where
  first : Char
  others : List Char
  starts : isNameStart first = true
  continues : ∀ c ∈ others, isNameChar c = true

namespace Word

def chars (w : Word) : List Char :=
  w.first :: w.others

def text (w : Word) : String :=
  String.ofList w.chars

end Word

structure Digits where
  chars : List Char
  isDigits : Numeral.isDigits chars = true

/-!
# String literals

Between its quotes a literal is a row of items.  A dollar sign on its own stands for itself only
where the next character does not make it the start of another item.
-/

/-- A part of a string literal: a character that stands for itself, a dollar sign that does, a
dollar sign or a quote after a dollar sign, or a variable after one. -/
inductive Item where
  | plain (c : Char) (ordinary : c ≠ '"' ∧ c ≠ '$')
  | dollar
  | escape (c : Char) (special : c = '$' ∨ c = '"')
  | var (name : Word)

namespace Item

def chars : Item → List Char
  | plain c _ => [c]
  | dollar => ['$']
  | escape c _ => ['$', c]
  | var name => '$' :: name.chars

def takes : Item → Char → Bool
  | dollar, c => c == '$' || c == '"' || isNameStart c
  | var _, c => isNameChar c
  | plain _ _, _ => false
  | escape _ _, _ => false

def char? : Item → Option Char
  | plain c _ => some c
  | dollar => some '$'
  | escape c _ => some c
  | var _ => none

def spelling : List Item → List Char
  | [] => ['"']
  | item :: rest => item.chars ++ spelling rest

def Apart : List Item → Prop
  | [] => True
  | item :: rest => (∀ c ∈ (spelling rest).head?, item.takes c = false) ∧ Apart rest

end Item

namespace Segment

def prepend (c : Char) : List Segment → List Segment
  | .text s :: rest => .text (String.ofList (c :: s.toList)) :: rest
  | rest => .text (String.ofList [c]) :: rest

def ofItems : List Item → List Segment
  | [] => []
  | .plain c _ :: rest => prepend c (ofItems rest)
  | .dollar :: rest => prepend '$' (ofItems rest)
  | .escape c _ :: rest => prepend c (ofItems rest)
  | .var name :: rest => .var name.text :: ofItems rest

end Segment

structure Literal where
  items : List Item
  apart : Item.Apart items

namespace Literal

def chars (l : Literal) : List Char :=
  '"' :: Item.spelling l.items

def token (l : Literal) : Token :=
  match l.items.mapM Item.char? with
  | some cs => .string (String.ofList cs)
  | none => .template (Segment.ofItems l.items)

end Literal

/-!
# Single lexemes

A word or a number would go on with a letter, a digit or an underscore right after it, and some
symbols with an equals sign.  Two lexemes can stand next to each other if the first would not.
-/

def Symbol.chars : Symbol → List Char
  | assign => ['=']
  | comma => [',']
  | plus => ['+']
  | minus => ['-']
  | star => ['*']
  | slash => ['/']
  | percent => ['%']
  | caret => ['^']
  | openParen => ['(']
  | closeParen => [')']
  | equal => ['=', '=']
  | notEqual => ['!', '=']
  | greater => ['>']
  | less => ['<']
  | greaterEqual => ['>', '=']
  | lessEqual => ['<', '=']

inductive Lexeme where
  | word (w : Word)
  | whole (digits : Digits)
  | decimal (digits fraction : Digits)
  | literal (l : Literal)
  | symbol (s : Symbol)

namespace Lexeme

def chars : Lexeme → List Char
  | word w => w.chars
  | whole digits => digits.chars
  | decimal digits fraction => digits.chars ++ '.' :: fraction.chars
  | literal l => l.chars
  | symbol s => s.chars

def token : Lexeme → Token
  | word w => Token.ofWord w.text
  | whole digits => .number (Number.ofLiteral digits.chars [])
  | decimal digits fraction => .number (Number.ofLiteral digits.chars fraction.chars)
  | literal l => l.token
  | symbol s => .symbol s

/-- Whether a character right after the lexeme would fuse with it: a letter, a digit or an
underscore after a word or a number, an equals sign after the symbols that one extends. -/
def takes : Lexeme → Char → Bool
  | word _, c => isNameChar c
  | whole _, c => isNameChar c
  | decimal _ _, c => isNameChar c
  | symbol .assign, c => c == '='
  | symbol .greater, c => c == '='
  | symbol .less, c => c == '='
  | symbol _, _ => false
  | literal _, _ => false

def Apart (l next : Lexeme) : Prop :=
  ∀ c ∈ next.chars.head?, l.takes c = false

end Lexeme

/-!
# Whole sources

A source is a row of lexemes with blanks before each of them and after the last.  Its tokens stand
in columns that count the characters before each of them from one.
-/

structure Spaced where
  blanks : List Char
  lexeme : Lexeme
  blank : ∀ c ∈ blanks, Text.isBlank c = true

namespace Spaced

def chars (s : Spaced) : List Char :=
  s.blanks ++ s.lexeme.chars

def Follows (s next : Spaced) : Prop :=
  next.blanks = [] → s.lexeme.Apart next.lexeme

def tokens (before : Nat) : List Spaced → List PlacedToken
  | [] => []
  | s :: rest =>
      ⟨s.lexeme.token, 1 + (before + s.blanks.length)⟩ ::
        tokens (before + s.chars.length) rest

end Spaced

/-- A source as its lexemes and the blanks around them. -/
structure Arrangement where
  parts : List Spaced
  last : List Char
  follow : parts.IsChain Spaced.Follows
  blank : ∀ c ∈ last, Text.isBlank c = true

namespace Arrangement

def chars (a : Arrangement) : List Char :=
  a.parts.flatMap Spaced.chars ++ a.last

def tokens (a : Arrangement) : List PlacedToken :=
  Spaced.tokens 0 a.parts ++ [⟨.endOfInput, a.chars.length + 1⟩]

end Arrangement

end Blockwise
