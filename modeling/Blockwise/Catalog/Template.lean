import Blockwise.Text

/-!
# Message templates

A message template is a text with *slots*, names in braces that an argument may fill.  A slot
ends at the first closing brace after its opening brace; an opening brace that is never closed
is ordinary text.  The parts of a template depend on the template alone, so what fills a slot is
never searched for slots again.
-/

namespace Blockwise
namespace Template

inductive Part where
  | text (cs : List Char)
  | slot (name : List Char)
  deriving DecidableEq, Repr

def openBrace : Char := '\x7b'

def closeBrace : Char := '\x7d'

namespace Part

def written : Part → List Char
  | text cs => cs
  | slot name => openBrace :: name ++ [closeBrace]

def filled (arg? : String → Option String) : Part → List Char
  | text cs => cs
  | slot name =>
      match arg? (String.ofList name) with
      | some s => s.toList
      | none => written (slot name)

end Part

/-- The parts of a template. -/
def parts (cs : List Char) : List Part :=
  match opened : Text.cut? openBrace cs with
  | none => [.text cs]
  | some (before, rest) =>
      match closed : Text.cut? closeBrace rest with
      | none => [.text cs]
      | some (name, after) =>
          have : after.length < cs.length :=
            Nat.lt_trans (Text.length_lt_of_cut? closed) (Text.length_lt_of_cut? opened)
          .text before :: .slot name :: parts after
termination_by cs.length

/-- The message that a template makes of the arguments. -/
def fill (template : String) (arg? : String → Option String) : String :=
  String.ofList ((parts template.toList).flatMap (Part.filled arg?))

end Template
end Blockwise
