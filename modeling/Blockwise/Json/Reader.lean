import Blockwise.Json

/-!
# Reading JSON

The grammar of JSON and nothing beyond it: no comments, no trailing commas, no text after the
value.  Whether a value is of use, for its size or its strings, is left to the one who asked.
-/

namespace Blockwise
namespace Json
namespace Reader

/-- A result read from the front of a text, and the rest of the text. -/
structure Read (α : Type) (bound : Nat) where
  result : α
  rest : List Char
  within : rest.length < bound

namespace Read

variable {α β : Type} {m n : Nat}

def map (f : α → β) (r : Read α n) : Read β n where
  result := f r.result
  rest := r.rest
  within := r.within

def weaken (h : m ≤ n) (r : Read α m) : Read α n where
  result := r.result
  rest := r.rest
  within := Nat.lt_of_lt_of_le r.within h

end Read

def isSpace (c : Char) : Bool :=
  c == ' ' || c == '\n' || c == '\t' || c == '\r'

def skipSpace (cs : List Char) : List Char :=
  cs.dropWhile isSpace

theorem length_skipSpace_le (cs : List Char) : (skipSpace cs).length ≤ cs.length :=
  (List.dropWhile_sublist isSpace).length_le

/-!
# Strings

A string is read as the codes of its characters first.  Two surrogates make one character, and no
surrogate may be left over.
-/

def hexValue? (c : Char) : Option Nat :=
  if c.isDigit then some (c.toNat - '0'.toNat)
  else if 'a' ≤ c && c ≤ 'f' then some (c.toNat - 'a'.toNat + 10)
  else if 'A' ≤ c && c ≤ 'F' then some (c.toNat - 'A'.toNat + 10)
  else none

def hexCode? (a b c d : Char) : Option Nat := do
  return (((← hexValue? a) * 16 + (← hexValue? b)) * 16 + (← hexValue? c)) * 16 + (← hexValue? d)

def escaped? : Char → Option Char
  | '"' => some '"'
  | '\\' => some '\\'
  | '/' => some '/'
  | 'b' => some '\x08'
  | 'f' => some '\x0c'
  | 'n' => some '\n'
  | 'r' => some '\r'
  | 't' => some '\t'
  | _ => none

def codes (cs : List Char) : Option (Read (List Nat) cs.length) :=
  match cs with
  | '"' :: rest => some ⟨[], rest, by simp⟩
  | '\\' :: 'u' :: a :: b :: c :: d :: rest => do
      let code ← hexCode? a b c d
      let more ← codes rest
      return (more.map (code :: ·)).weaken (Nat.le_add_right rest.length 6)
  | '\\' :: e :: rest => do
      let c ← escaped? e
      let more ← codes rest
      return (more.map (c.toNat :: ·)).weaken (Nat.le_add_right rest.length 2)
  | c :: rest =>
      if c = '\\' ∨ c.toNat < 0x20 then none
      else do
        let more ← codes rest
        return (more.map (c.toNat :: ·)).weaken (Nat.le_add_right rest.length 1)
  | [] => none
termination_by cs.length
decreasing_by
  all_goals simp only [List.length_cons]
  all_goals omega

def isHighSurrogate (code : Nat) : Bool :=
  0xD800 ≤ code && code ≤ 0xDBFF

def isLowSurrogate (code : Nat) : Bool :=
  0xDC00 ≤ code && code ≤ 0xDFFF

def characters? : List Nat → Option (List Char)
  | [] => some []
  | code :: rest =>
      if isHighSurrogate code then
        match rest with
        | low :: rest' =>
            if isLowSurrogate low then
              let c := Char.ofNat (0x10000 + (code - 0xD800) * 0x400 + (low - 0xDC00))
              (characters? rest').map (c :: ·)
            else none
        | [] => none
      else if isLowSurrogate code then none
      else (characters? rest).map (Char.ofNat code :: ·)

def string (cs : List Char) : Option (Read (Option String) cs.length) := do
  let r ← codes cs
  return r.map fun codes => (characters? codes).map String.ofList

/-!
# Numbers

A zero stands alone: in front of another digit it ends the number, and then nothing that may follow
a value follows.
-/

/-- How many characters at the front are a fraction: none, or a point and digits. -/
def fraction? : List Char → Option (List Char × List Char)
  | '.' :: rest =>
      let digits := rest.takeWhile Char.isDigit
      if digits.isEmpty then none else some ('.' :: digits, rest.dropWhile Char.isDigit)
  | cs => some ([], cs)

def exponent? : List Char → Option (List Char × List Char)
  | mark :: rest =>
      if mark = 'e' ∨ mark = 'E' then
        let (sign, rest') := match rest with
          | '+' :: tail => (['+'], tail)
          | '-' :: tail => (['-'], tail)
          | tail => ([], tail)
        let digits := rest'.takeWhile Char.isDigit
        if digits.isEmpty then none
        else some (mark :: sign ++ digits, rest'.dropWhile Char.isDigit)
      else some ([], mark :: rest)
  | [] => some ([], [])

def whole? : List Char → Option (List Char × List Char)
  | '0' :: rest => some (['0'], rest)
  | cs =>
      let digits := cs.takeWhile Char.isDigit
      if digits.isEmpty then none else some (digits, cs.dropWhile Char.isDigit)

def number? (cs : List Char) : Option (Json × List Char) := do
  let (sign, unsigned) := match cs with
    | '-' :: rest => (['-'], rest)
    | rest => ([], rest)
  let (whole, rest) ← whole? unsigned
  let (fraction, rest') ← fraction? rest
  let (exponent, rest'') ← exponent? rest'
  if sign.isEmpty && fraction.isEmpty && exponent.isEmpty then
    return (.natural (Numeral.digitsValue whole), rest'')
  else return (.decimal (sign ++ whole ++ fraction ++ exponent), rest'')

/-!
# Values

A value may have space before it, and a list or an object is read up to its closing bracket.
-/

def scalar (cs : List Char) : Option (Read Json cs.length) :=
  match cs with
  | 'n' :: 'u' :: 'l' :: 'l' :: rest => some ⟨.null, rest, by simp; omega⟩
  | 't' :: 'r' :: 'u' :: 'e' :: rest => some ⟨.bool true, rest, by simp; omega⟩
  | 'f' :: 'a' :: 'l' :: 's' :: 'e' :: rest => some ⟨.bool false, rest, by simp; omega⟩
  | cs => do
      let (n, rest) ← number? cs
      if h : rest.length < cs.length then return ⟨n, rest, h⟩ else none

/-- The text after a mark, which space may precede. -/
def mark? (mark : Char) (cs : List Char) : Option (Read Unit cs.length) :=
  match h : skipSpace cs with
  | c :: rest =>
      have := length_skipSpace_le cs
      if c = mark then some ⟨(), rest, by simp [h] at this; omega⟩ else none
  | [] => none

mutual

def value (cs : List Char) : Option (Read Json cs.length) :=
  match mark? '[' cs with
  | some ⟨_, rest, h⟩ =>
      match mark? ']' rest with
      | some ⟨_, rest', h'⟩ => some ⟨.array [], rest', by omega⟩
      | none => do
          let r ← items rest
          return (r.map Json.array).weaken (by omega)
  | none =>
      match mark? '\x7b' cs with
      | some ⟨_, rest, h⟩ =>
          match mark? '\x7d' rest with
          | some ⟨_, rest', h'⟩ => some ⟨.object [], rest', by omega⟩
          | none => do
              let r ← members rest
              return (r.map Json.object).weaken (by omega)
      | none =>
          match mark? '"' cs with
          | some ⟨_, rest, h⟩ => do
              let r ← string rest
              return (r.map Json.string).weaken (by omega)
          | none => do
              let r ← scalar (skipSpace cs)
              return r.weaken (length_skipSpace_le cs)
termination_by 2 * cs.length

def items (cs : List Char) : Option (Read (List Json) cs.length) := do
  let ⟨first, rest, h⟩ ← value cs
  match mark? ',' rest with
  | some ⟨_, rest', h'⟩ =>
      let more ← items rest'
      return (more.map (first :: ·)).weaken (by omega)
  | none =>
      let ⟨_, rest', h'⟩ ← mark? ']' rest
      return ⟨[first], rest', by omega⟩
termination_by 2 * cs.length + 1

def members (cs : List Char) : Option (Read (List (Option String × Json)) cs.length) := do
  let ⟨_, keyText, h₁⟩ ← mark? '"' cs
  let ⟨key, afterKey, h₂⟩ ← string keyText
  let ⟨_, valueText, h₃⟩ ← mark? ':' afterKey
  let ⟨first, rest, h₄⟩ ← value valueText
  match mark? ',' rest with
  | some ⟨_, rest', h₅⟩ =>
      let more ← members rest'
      return (more.map ((key, first) :: ·)).weaken (by omega)
  | none =>
      let ⟨_, rest', h₅⟩ ← mark? '\x7d' rest
      return ⟨[(key, first)], rest', by omega⟩
termination_by 2 * cs.length + 1

end

end Reader

def ofText? (s : String) : Option Json := do
  let r ← Reader.value s.toList
  if (Reader.skipSpace r.rest).isEmpty then return r.result else none

end Json
end Blockwise
