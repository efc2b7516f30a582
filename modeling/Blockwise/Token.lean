import Blockwise.Function
import Blockwise.Number

/-!
# Tokens

The words of a block's source.  A string literal with variables in it is one token, a *template*
of texts and variable names.
-/

namespace Blockwise

/-!
# Types of values

A source can name three of them; the others are those of no value and of failures.
-/

inductive ValueType where
  | empty
  | number
  | string
  | boolean
  | error
  deriving DecidableEq, Repr, Inhabited

namespace ValueType

def name : ValueType → String
  | empty => "Empty"
  | number => "Number"
  | string => "String"
  | boolean => "Boolean"
  | error => "<error-type>"

end ValueType

/-!
# Words

Keywords, operators, names, types and literals, each with the text it is written as.
-/

/-- A piece of a template. -/
inductive Segment where
  | text (s : String)
  | var (name : String)
  deriving DecidableEq, Repr

inductive Keyword where
  | read
  | as
  | and
  | or
  | not
  deriving DecidableEq, Repr

namespace Keyword

def text : Keyword → String
  | read => "read"
  | as => "as"
  | and => "and"
  | or => "or"
  | not => "not"

end Keyword

inductive Symbol where
  | assign
  | comma
  | plus
  | minus
  | star
  | slash
  | percent
  | caret
  | openParen
  | closeParen
  | equal
  | notEqual
  | greater
  | less
  | greaterEqual
  | lessEqual
  deriving DecidableEq, Repr

namespace Symbol

def text : Symbol → String
  | assign => "="
  | comma => ","
  | plus => "+"
  | minus => "-"
  | star => "*"
  | slash => "/"
  | percent => "%"
  | caret => "^"
  | openParen => "("
  | closeParen => ")"
  | equal => "=="
  | notEqual => "!="
  | greater => ">"
  | less => "<"
  | greaterEqual => ">="
  | lessEqual => "<="

end Symbol

inductive Token where
  | number (x : Float)
  | string (s : String)
  | boolean (b : Bool)
  | template (segments : List Segment)
  | name (s : String)
  | function (f : Function)
  | type (t : ValueType)
  | keyword (k : Keyword)
  | symbol (s : Symbol)
  | endOfInput
  deriving DecidableEq

namespace Token

def quoted (s : String) : String :=
  "`" ++ s ++ "`"

def boolText (b : Bool) : String :=
  if b then "true" else "false"

def describe : Token → String
  | number x => "number " ++ quoted (Number.text x)
  | string _ => "string"
  | boolean b => quoted (boolText b)
  | template _ => "format string"
  | name s => "identifier " ++ quoted s
  | function f => "function " ++ quoted f.name
  | type t => "type " ++ quoted t.name
  | keyword k => quoted k.text
  | symbol s => quoted s.text
  | endOfInput => "end of input"

/-- The token that a word stands for.  Words are told apart by letter case. -/
def ofWord (s : String) : Token :=
  match s with
  | "read" => keyword .read
  | "as" => keyword .as
  | "and" => keyword .and
  | "or" => keyword .or
  | "not" => keyword .not
  | "Number" => type .number
  | "String" => type .string
  | "Boolean" => type .boolean
  | "true" => boolean true
  | "false" => boolean false
  | "_pi" => number Number.pi
  | "_e" => number Number.e
  | _ =>
      match Function.ofName? s with
      | some f => function f
      | none => name s

end Token

/-- A token and the column of its first character, counted from one in characters. -/
structure PlacedToken where
  token : Token
  column : Nat
  deriving DecidableEq

end Blockwise
