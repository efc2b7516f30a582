import Blockwise.Fault.Cause
import Blockwise.Text

/-!
# From characters to tokens

A source is read from left to right.  Each token takes as many characters as it can; blanks
separate tokens and are otherwise skipped.  `Lexer.start` reads one token and says how many
characters beyond the first it takes, which is all that `Lexer.scan` needs to go on.
-/

namespace Blockwise
namespace Lexer

def isNameStart (c : Char) : Bool :=
  c.isAlpha || c == '_'

def isNameChar (c : Char) : Bool :=
  c.isAlphanum || c == '_'

/-!
# String literals

Inside quotes, a dollar sign before a name inserts a variable, and before a dollar sign or a
quote it makes that character an ordinary one.
-/

inductive Piece where
  | char (c : Char)
  | var (name : String)
  deriving DecidableEq, Repr

/-- The pieces up to the closing quote, and how many characters they and the quote take; none if
the literal is never closed. -/
def pieces? : List Char → Option (List Piece × Nat)
  | [] => none
  | '"' :: _ => some ([], 1)
  | '$' :: '$' :: cs => (pieces? cs).map fun (ps, n) => (.char '$' :: ps, n + 2)
  | '$' :: '"' :: cs => (pieces? cs).map fun (ps, n) => (.char '"' :: ps, n + 2)
  | '$' :: c :: cs =>
      if isNameStart c then
        let name := c :: cs.takeWhile isNameChar
        (pieces? (cs.dropWhile isNameChar)).map fun (ps, n) =>
          (.var (String.ofList name) :: ps, n + 1 + name.length)
      else (pieces? (c :: cs)).map fun (ps, n) => (.char '$' :: ps, n + 1)
  | c :: cs => (pieces? cs).map fun (ps, n) => (.char c :: ps, n + 1)
termination_by cs => cs.length
decreasing_by
  all_goals simp_wf
  all_goals
    try have shorter := Text.length_dropWhile_le isNameChar cs
    omega

/-- Joins the characters between two variables into one text; `pending` holds those read so far,
last first. -/
def segmentsFrom (pending : List Char) : List Piece → List Segment
  | [] => if pending.isEmpty then [] else [.text (String.ofList pending.reverse)]
  | .char c :: ps => segmentsFrom (c :: pending) ps
  | .var name :: ps =>
      let rest := .var name :: segmentsFrom [] ps
      if pending.isEmpty then rest else .text (String.ofList pending.reverse) :: rest

def plain? : List Piece → Option (List Char)
  | [] => some []
  | .char c :: ps => (plain? ps).map (c :: ·)
  | .var _ :: _ => none

def ofPieces (ps : List Piece) : Token :=
  match plain? ps with
  | some cs => .string (String.ofList cs)
  | none => .template (segmentsFrom [] ps)

/-!
# Single tokens

A token is read from its first character on, and tells how many characters after it belong to it.
-/

/-- A number literal whose first digit is `c`: digits, and after a point more digits.  A name may
not follow directly. -/
def startNumber (column : Nat) (c : Char) (cs : List Char) : Except Cause (Token × Nat) :=
  let whole := c :: cs.takeWhile Char.isDigit
  let close (fraction : List Char) (taken : Nat) (rest : List Char) :=
    if rest.head?.any isNameStart then .error (.nameAfterNumber (column + 1 + taken))
    else .ok (.number (Number.ofLiteral whole fraction), taken)
  match cs.dropWhile Char.isDigit with
  | '.' :: rest =>
      let fraction := rest.takeWhile Char.isDigit
      if fraction.isEmpty then
        .error (.badNumberLiteral (String.ofList (whole ++ ['.'])) (column + whole.length + 1))
      else close fraction (whole.length + fraction.length) (rest.dropWhile Char.isDigit)
  | rest => close [] (whole.length - 1) rest

def startWord (c : Char) (cs : List Char) : Token × Nat :=
  let more := cs.takeWhile isNameChar
  (Token.ofWord (String.ofList (c :: more)), more.length)

def startComparison (short long : Symbol) : List Char → Token × Nat
  | '=' :: _ => (.symbol long, 1)
  | _ => (.symbol short, 0)

/-- Reads the token that starts with `c` at the column and goes on in `cs`; also tells how many
characters of `cs` belong to it. -/
def start (column : Nat) (c : Char) (cs : List Char) : Except Cause (Token × Nat) :=
  match c with
  | '+' => .ok (.symbol .plus, 0)
  | '-' => .ok (.symbol .minus, 0)
  | '*' => .ok (.symbol .star, 0)
  | '/' => .ok (.symbol .slash, 0)
  | '%' => .ok (.symbol .percent, 0)
  | '^' => .ok (.symbol .caret, 0)
  | '(' => .ok (.symbol .openParen, 0)
  | ')' => .ok (.symbol .closeParen, 0)
  | ',' => .ok (.symbol .comma, 0)
  | '=' => .ok (startComparison .assign .equal cs)
  | '>' => .ok (startComparison .greater .greaterEqual cs)
  | '<' => .ok (startComparison .less .lessEqual cs)
  | '!' =>
      match cs with
      | '=' :: _ => .ok (.symbol .notEqual, 1)
      | found :: _ => .error (.unexpectedChar found (column + 1))
      | [] => .error (.unexpectedChar '!' (column + 1))
  | '"' =>
      match pieces? cs with
      | some (ps, taken) => .ok (ofPieces ps, taken)
      | none => .error (.openString column)
  | _ =>
      if c.isDigit then startNumber column c cs
      else if isNameStart c then .ok (startWord c cs)
      else .error (.unexpectedChar c column)

/-!
# Whole sources

The column counts characters from one, and the last token marks the end of the input.
-/

def scan (column : Nat) : List Char → Except Cause (List PlacedToken)
  | [] => .ok [⟨.endOfInput, column⟩]
  | c :: cs =>
      if Text.isBlank c then scan (column + 1) cs
      else do
        let (token, taken) ← start column c cs
        let rest ← scan (column + 1 + taken) (cs.drop taken)
        return ⟨token, column⟩ :: rest
termination_by cs => cs.length
decreasing_by
  · simp
  · simp only [List.length_drop, List.length_cons]
    omega

def tokens (source : String) : Except Cause (List PlacedToken) :=
  scan 1 source.toList

end Lexer
end Blockwise
