import Blockwise.Text.Unprintable

/-!
# Texts

What is done with texts before they mean anything: blanks are trimmed, a text is cut at a mark or
split into lines, and put into quotes to be shown.
-/

namespace Blockwise
namespace Text

/-!
# Blanks

The white space that separates tokens and that is trimmed from lines is the Unicode property
White_Space: 25 characters, among them the no-break space but neither the zero-width space nor
the byte order mark.
-/

def isBlank (c : Char) : Bool :=
  let n := c.toNat
  (0x09 ≤ n && n ≤ 0x0D) || n == 0x20 || n == 0x85 || n == 0xA0 || n == 0x1680 ||
    (0x2000 ≤ n && n ≤ 0x200A) || n == 0x2028 || n == 0x2029 || n == 0x202F ||
    n == 0x205F || n == 0x3000

def trimStart (cs : List Char) : List Char :=
  cs.dropWhile isBlank

def trimEnd (cs : List Char) : List Char :=
  (cs.reverse.dropWhile isBlank).reverse

def trimmed (cs : List Char) : List Char :=
  trimEnd (trimStart cs)

def trim (s : String) : String :=
  String.ofList (trimmed s.toList)

/-!
# Cuts

A text is cut at the first occurrence of a mark, which belongs to neither part.
-/

def cut? (mark : Char) : List Char → Option (List Char × List Char)
  | [] => none
  | c :: cs =>
      if c = mark then some ([], cs)
      else (cut? mark cs).map fun (before, after) => (c :: before, after)

theorem eq_of_cut? {mark : Char} {cs before after : List Char}
    (h : cut? mark cs = some (before, after)) : cs = before ++ mark :: after := by
  induction cs generalizing before with
  | nil => simp [cut?] at h
  | cons c cs ih =>
      unfold cut? at h
      split at h
      · next same => simp_all
      · cases found : cut? mark cs with
        | none => simp [found] at h
        | some parts =>
            obtain ⟨earlier, later⟩ := parts
            simp only [found, Option.map_some, Option.some.injEq, Prod.mk.injEq] at h
            obtain ⟨rfl, rfl⟩ := h
            simp [ih found]

theorem length_lt_of_cut? {mark : Char} {cs before after : List Char}
    (h : cut? mark cs = some (before, after)) : after.length < cs.length := by
  rw [eq_of_cut? h]
  simp
  omega

theorem length_dropWhile_le (p : Char → Bool) (cs : List Char) :
    (cs.dropWhile p).length ≤ cs.length :=
  (List.dropWhile_sublist p).length_le

/-!
# Lines

A line ends at a line feed, and a carriage return right before that line feed belongs to the
line end.  Text after the last line feed is a line of its own; a carriage return anywhere else
is an ordinary character.
-/

def dropReturn (line : List Char) : List Char :=
  match line.reverse with
  | '\r' :: rest => rest.reverse
  | _ => line

/-- The lines of `cs`, where `pending` holds the characters of the line being read, last first. -/
def linesFrom (pending : List Char) : List Char → List (List Char)
  | [] => if pending.isEmpty then [] else [pending.reverse]
  | '\n' :: rest => dropReturn pending.reverse :: linesFrom [] rest
  | c :: rest => linesFrom (c :: pending) rest

def lines (s : String) : List String :=
  (linesFrom [] s.toList).map String.ofList

/-!
# Quotes

A text in quotes, with everything in it visible: quotes, backslashes, line ends, tabs and null
characters by their usual escapes, other characters that would not show by their code in
hexadecimal.
-/

def escapeCode (c : Char) : List Char :=
  ['\\', 'u', '\x7b'] ++ Nat.toDigits 16 c.toNat ++ ['\x7d']

def escape (c : Char) : List Char :=
  match c with
  | '"' => ['\\', '"']
  | '\\' => ['\\', '\\']
  | '\n' => ['\\', 'n']
  | '\r' => ['\\', 'r']
  | '\t' => ['\\', 't']
  | '\x00' => ['\\', '0']
  | c => if isUnprintable c then escapeCode c else [c]

def quote (s : String) : String :=
  String.ofList ('"' :: s.toList.flatMap escape ++ ['"'])

end Text
end Blockwise
