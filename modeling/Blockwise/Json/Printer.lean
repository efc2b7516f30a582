import Blockwise.Json

/-!
# Writing JSON

One member or item a line, indented by two spaces a level.  Quotes, backslashes and the control
characters below the space are escaped, nothing else.
-/

namespace Blockwise
namespace Json

def hexDigit (n : Nat) : Char :=
  Nat.digitChar n

def escape (c : Char) : List Char :=
  match c with
  | '"' => ['\\', '"']
  | '\\' => ['\\', '\\']
  | '\x08' => ['\\', 'b']
  | '\t' => ['\\', 't']
  | '\n' => ['\\', 'n']
  | '\x0c' => ['\\', 'f']
  | '\r' => ['\\', 'r']
  | c =>
      if c.toNat < 0x20 then
        ['\\', 'u', '0', '0', hexDigit (c.toNat / 16), hexDigit (c.toNat % 16)]
      else [c]

def quote (s : String) : List Char :=
  '"' :: s.toList.flatMap escape ++ ['"']

def newline (level : Nat) : List Char :=
  '\n' :: List.replicate (2 * level) ' '

mutual

def print (level : Nat) : Json → List Char
  | null => "null".toList
  | bool b => (if b then "true" else "false").toList
  | natural n => Nat.toDigits 10 n
  | decimal text => text
  | string s => quote (s.getD "")
  | array [] => "[]".toList
  | array (item :: rest) =>
      '[' :: newline (level + 1) ++ print (level + 1) item ++ printItems level rest
  | object [] => ['\x7b', '\x7d']
  | object ((key, value) :: rest) =>
      '\x7b' :: newline (level + 1) ++ quote (key.getD "") ++ [':', ' '] ++
        print (level + 1) value ++ printMembers level rest

def printItems (level : Nat) : List Json → List Char
  | [] => newline level ++ [']']
  | item :: rest =>
      ',' :: newline (level + 1) ++ print (level + 1) item ++ printItems level rest

def printMembers (level : Nat) : List (Option String × Json) → List Char
  | [] => newline level ++ ['\x7d']
  | (key, value) :: rest =>
      ',' :: newline (level + 1) ++ quote (key.getD "") ++ [':', ' '] ++
        print (level + 1) value ++ printMembers level rest

end

def toText (j : Json) : String :=
  String.ofList (print 0 j)

end Json
end Blockwise
