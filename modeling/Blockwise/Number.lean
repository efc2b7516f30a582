import Blockwise.Decimal.Shortest
import Blockwise.Text

/-!
# Numbers as text

How a number is written in output and messages, and which texts are accepted as numbers.
-/

namespace Blockwise
namespace Number

/-- A number in positional notation with the fewest digits that read back.  A negative zero
keeps its sign. -/
def text (x : Float) : String :=
  let magnitude := Double.magnitude x
  if Double.infinity < magnitude then "NaN"
  else
    let sign := if Double.isNegative x then "-" else ""
    if magnitude = Double.infinity then sign ++ "inf"
    else sign ++ String.ofList (Decimal.shortest magnitude).positional

def isWord (i : Int) : Bool :=
  -0x8000000000000000 ≤ i && i < 0x8000000000000000

/-- A number in a text, blanks around it ignored.  A text that is an integer of the 64-bit range
is read as one, so that its zero has no sign; any other numeral is rounded to the nearest
double and refused if that is not finite. -/
def ofText? (s : String) : Option Float :=
  let cs := Text.trimmed s.toList
  match (Numeral.integer? cs).filter isWord with
  | some i => some (Double.ofInt i)
  | none => ((Numeral.ofChars? cs).map Numeral.toFloat).filter Float.isFinite

def ofLiteral (whole fraction : List Char) : Float :=
  Numeral.toFloat ⟨false, Numeral.ofParts whole fraction 0⟩

def pi : Float := Float.ofBits 0x400921FB54442D18

def e : Float := Float.ofBits 0x4005BF0A8B145769

end Number
end Blockwise
