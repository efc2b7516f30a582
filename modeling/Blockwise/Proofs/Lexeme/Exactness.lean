import Blockwise.Proofs.Lexeme.Literals
import Mathlib

/-!
# Sources are read exactly

A token is read where a lexeme that spells it stands, provided that the next character would not
be taken into it; and whatever is read as a token is such a lexeme.  Along a whole source this
makes reading and arranging lexemes agree.
-/

namespace Blockwise

open Lexer

/-!
# Classes of characters

A name character starts no symbol and is no blank, so a run of them ends where another class begins.
-/

section Characters

variable {c : Char}

theorem isNameChar_of_isNameStart (h : isNameStart c = true) : isNameChar c = true := by
  unfold isNameStart at h
  unfold isNameChar Char.isAlphanum
  rw [Bool.or_eq_true] at h ⊢
  rcases h with hletter | hscore
  · simp [hletter]
  · exact Or.inr hscore

theorem isNameChar_of_isDigit (h : c.isDigit = true) : isNameChar c = true := by
  simp [isNameChar, Char.isAlphanum, h]

theorem isDigit_of_isNameStart (h : isNameStart c = true) : c.isDigit = false := by
  simp only [isNameStart, Char.isAlpha, Char.isUpper, Char.isLower, Bool.or_eq_true,
    Bool.and_eq_true, decide_eq_true_eq, beq_iff_eq, ge_iff_le, UInt32.le_iff_toNat_le,
    Char.toNat_val, Char.reduceToNat] at h
  simp only [Char.isDigit, Bool.and_eq_false_iff, decide_eq_false_iff_not, ge_iff_le,
    UInt32.le_iff_toNat_le, Char.toNat_val, Char.reduceToNat]
  rcases h with (hupper | hlower) | rfl
  · omega
  · omega
  · decide

theorem toNat_of_isNameChar (h : isNameChar c = true) : 48 ≤ c.toNat ∧ c.toNat ≤ 122 := by
  simp only [isNameChar, Char.isAlphanum, Char.isAlpha, Char.isUpper, Char.isLower, Char.isDigit,
    Bool.or_eq_true, Bool.and_eq_true, decide_eq_true_eq, beq_iff_eq, ge_iff_le,
    UInt32.le_iff_toNat_le, Char.toNat_val, Char.reduceToNat] at h
  rcases h with ((hupper | hlower) | hdigit) | rfl
  · omega
  · omega
  · omega
  · decide

theorem isBlank_of_isNameChar (h : isNameChar c = true) : Text.isBlank c = false := by
  have hrange := toNat_of_isNameChar h
  simp only [Text.isBlank, Bool.or_eq_false_iff, Bool.and_eq_false_iff, decide_eq_false_iff_not,
    beq_eq_false_iff_ne]
  omega

theorem ne_of_isBlank {d : Char} (h : Text.isBlank c = true) (hd : Text.isBlank d = false) :
    c ≠ d := by
  intro heq
  rw [heq, hd] at h
  cases h

theorem isNameStart_of_isNameChar (h : isNameChar c = false) : isNameStart c = false := by
  cases hstart : isNameStart c with
  | false => rfl
  | true => rw [isNameChar_of_isNameStart hstart] at h; cases h

theorem isDigit_of_isNameChar (h : isNameChar c = false) : c.isDigit = false := by
  cases hdigit : c.isDigit with
  | false => rfl
  | true => rw [isNameChar_of_isDigit hdigit] at h; cases h

end Characters

theorem Digits.all (digits : Digits) : ∀ c ∈ digits.chars, c.isDigit = true := by
  have hdigits := digits.isDigits
  simp only [Numeral.isDigits, Bool.and_eq_true, List.all_eq_true] at hdigits
  exact hdigits.2

theorem Digits.ne_nil (digits : Digits) : digits.chars ≠ [] := by
  intro hnil
  have hdigits := digits.isDigits
  rw [hnil] at hdigits
  cases hdigits

/-!
# Lexemes are read

A lexeme is read whole where the next character does not fuse with it and is no point.
-/

section Complete

variable {column : Nat} {c : Char} {cs rest : List Char}

theorem start_of_isNameStart (h : isNameStart c = true) :
    start column c cs = .ok (startWord c cs) := by
  unfold start
  split
  all_goals first | cases h | skip
  rw [isDigit_of_isNameStart h, h]
  rfl

theorem start_of_isDigit (h : c.isDigit = true) :
    start column c cs = startNumber column c cs := by
  unfold start
  split
  all_goals first | cases h | skip
  rw [h]
  rfl

theorem head?_any_isNameStart (hrest : ∀ c ∈ rest.head?, isNameChar c = false) :
    rest.head?.any isNameStart = false := by
  cases rest with
  | nil => rfl
  | cons c more => exact isNameStart_of_isNameChar (hrest c rfl)

theorem startNumber_whole {d : Char} {ds : List Char} (hds : ∀ c ∈ ds, c.isDigit = true)
    (hrest : ∀ c ∈ rest.head?, isNameChar c = false) (hpoint : ∀ c ∈ rest.head?, c ≠ '.') :
    startNumber column d (ds ++ rest) =
      .ok (.number (Number.ofLiteral (d :: ds) []), ds.length) := by
  have hdigit : ∀ c ∈ rest.head?, c.isDigit = false :=
    fun c hc => isDigit_of_isNameChar (hrest c hc)
  unfold startNumber
  simp only [takeWhile_run hds hdigit, dropWhile_run hds hdigit]
  split
  · exact absurd rfl (hpoint '.' rfl)
  · simp [head?_any_isNameStart hrest]

theorem startNumber_decimal {d : Char} {ds fraction : List Char}
    (hds : ∀ c ∈ ds, c.isDigit = true) (hfraction : ∀ c ∈ fraction, c.isDigit = true)
    (hsome : fraction ≠ []) (hrest : ∀ c ∈ rest.head?, isNameChar c = false) :
    startNumber column d (ds ++ '.' :: (fraction ++ rest)) =
      .ok (.number (Number.ofLiteral (d :: ds) fraction), (ds ++ '.' :: fraction).length) := by
  have hpoint : ∀ c ∈ ('.' :: (fraction ++ rest)).head?, c.isDigit = false := by
    intro c hc
    cases hc
    rfl
  have hdigit : ∀ c ∈ rest.head?, c.isDigit = false :=
    fun c hc => isDigit_of_isNameChar (hrest c hc)
  unfold startNumber
  simp only [takeWhile_run hds hpoint, dropWhile_run hds hpoint, takeWhile_run hfraction hdigit,
    dropWhile_run hfraction hdigit, List.isEmpty_iff, hsome, head?_any_isNameStart hrest]
  simp only [List.length_cons, List.length_append, Nat.add_right_comm, Nat.add_assoc]
  rfl

theorem start_symbol (s : Symbol) (hchars : s.chars = c :: cs)
    (hrest : ∀ c ∈ rest.head?, (Lexeme.symbol s).takes c = false) :
    start column c (cs ++ rest) = .ok (.symbol s, cs.length) := by
  have hcomparison : ∀ short long, (∀ c ∈ rest.head?, (c == '=') = false) →
      startComparison short long rest = (.symbol short, 0) := by
    intro short long hnext
    unfold startComparison
    split
    · cases hnext '=' rfl
    · rfl
  cases s with
  | assign =>
      cases hchars
      exact congrArg Except.ok (hcomparison .assign .equal hrest)
  | greater =>
      cases hchars
      exact congrArg Except.ok (hcomparison .greater .greaterEqual hrest)
  | less =>
      cases hchars
      exact congrArg Except.ok (hcomparison .less .lessEqual hrest)
  | _ =>
      cases hchars
      rfl

theorem start_lexeme (l : Lexeme) (hchars : l.chars = c :: cs)
    (hrest : ∀ c ∈ rest.head?, l.takes c = false) (hpoint : ∀ c ∈ rest.head?, c ≠ '.') :
    start column c (cs ++ rest) = .ok (l.token, cs.length) := by
  cases l with
  | word w =>
      cases hchars
      rw [start_of_isNameStart w.starts, startWord, takeWhile_run w.continues hrest]
      rfl
  | whole digits =>
      have hall := digits.all
      rw [Lexeme.chars] at hchars
      rw [hchars] at hall
      have hd := hall c List.mem_cons_self
      have hds := fun d hd => hall d (List.mem_cons_of_mem c hd)
      rw [start_of_isDigit hd, startNumber_whole hds hrest hpoint, Lexeme.token, hchars]
  | decimal digits fraction =>
      have hall := digits.all
      cases hdigits : digits.chars with
      | nil => exact absurd hdigits digits.ne_nil
      | cons d ds =>
          rw [hdigits] at hall
          have hd := hall d List.mem_cons_self
          have hds := fun c hc => hall c (List.mem_cons_of_mem d hc)
          rw [Lexeme.chars, hdigits, List.cons_append] at hchars
          rcases List.cons.inj hchars with ⟨rfl, rfl⟩
          rw [start_of_isDigit hd, List.append_assoc, List.cons_append,
            startNumber_decimal hds fraction.all fraction.ne_nil hrest, Lexeme.token, hdigits]
  | literal l =>
      cases hchars
      rw [start, Item.pieces?_spelling l.apart rest, Lexeme.token, l.token_eq]
  | symbol s => exact start_symbol s hchars hrest

end Complete

/-!
# What is read are lexemes

The characters start with a lexeme of the length that is read, and the next character does not fuse
with it.
-/

def Found (cs : List Char) (token : Token) (length : Nat) : Prop :=
  ∃ (l : Lexeme) (rest : List Char), cs = l.chars ++ rest ∧ l.token = token ∧
    l.chars.length = length ∧ ∀ c ∈ rest.head?, l.takes c = false

section Sound

variable {column taken : Nat} {c : Char} {cs : List Char} {token : Token}

theorem found_symbol (s : Symbol) (rest : List Char)
    (hrest : ∀ c ∈ rest.head?, (Lexeme.symbol s).takes c = false) :
    Found (s.chars ++ rest) (.symbol s) s.chars.length :=
  ⟨.symbol s, rest, rfl, rfl, rfl, hrest⟩

theorem found_word (h : isNameStart c = true) :
    Found (c :: cs) (startWord c cs).1 ((startWord c cs).2 + 1) := by
  refine ⟨.word ⟨c, cs.takeWhile isNameChar, h, of_mem_takeWhile⟩, cs.dropWhile isNameChar,
    ?_, rfl, rfl, of_head?_dropWhile⟩
  simp [Lexeme.chars, Word.chars]

theorem isNameChar_after_digits {cs : List Char}
    (h : (cs.dropWhile Char.isDigit).head?.any isNameStart = false) :
    ∀ c ∈ (cs.dropWhile Char.isDigit).head?, isNameChar c = false := by
  intro c hc
  have hdigit : c.isDigit = false := of_head?_dropWhile c hc
  rw [hc] at h
  have hstart : isNameStart c = false := h
  simp only [isNameStart, Bool.or_eq_false_iff] at hstart
  simp [isNameChar, Char.isAlphanum, hstart.1, hstart.2, hdigit]

theorem found_number (hc : c.isDigit = true)
    (h : startNumber column c cs = .ok (token, taken)) : Found (c :: cs) token (taken + 1) := by
  have hcs : cs.takeWhile Char.isDigit ++ cs.dropWhile Char.isDigit = cs :=
    List.takeWhile_append_dropWhile
  have hdigits : Numeral.isDigits (c :: cs.takeWhile Char.isDigit) = true := by
    simp [Numeral.isDigits, hc]
  unfold startNumber at h
  dsimp only at h
  split at h
  · next rest hpoint =>
      have hrest : rest.takeWhile Char.isDigit ++ rest.dropWhile Char.isDigit = rest :=
        List.takeWhile_append_dropWhile
      split at h
      · cases h
      · next hsome =>
          have hfraction : Numeral.isDigits (rest.takeWhile Char.isDigit) = true := by
            simp [Numeral.isDigits, hsome]
          split at h
          · cases h
          · next hname =>
              cases h
              refine ⟨.decimal ⟨_, hdigits⟩ ⟨_, hfraction⟩, rest.dropWhile Char.isDigit, ?_, rfl,
                ?_, isNameChar_after_digits (Bool.eq_false_iff.mpr hname)⟩
              · rw [Lexeme.chars, List.append_assoc, List.cons_append, List.cons_append, hrest,
                  ← hpoint, hcs]
              · simp only [Lexeme.chars, List.length_append, List.length_cons]
                omega
  · split at h
    · cases h
    · next hname =>
        cases h
        refine ⟨.whole ⟨_, hdigits⟩, cs.dropWhile Char.isDigit, ?_, rfl, rfl,
          isNameChar_after_digits (Bool.eq_false_iff.mpr hname)⟩
        rw [Lexeme.chars, List.cons_append, hcs]

theorem found_comparison {first : Char} {short long : Symbol}
    (hlong : ∀ rest, Found (first :: '=' :: rest) (.symbol long) 2)
    (hshort : (∀ c ∈ cs.head?, (c == '=') = false) → Found (first :: cs) (.symbol short) 1)
    (h : startComparison short long cs = (token, taken)) :
    Found (first :: cs) token (taken + 1) := by
  unfold startComparison at h
  split at h
  · next rest =>
      cases h
      exact hlong rest
  · next hnext =>
      cases h
      apply hshort
      intro c hc
      cases cs with
      | nil => cases hc
      | cons d ds =>
          cases hc
          have hne : c ≠ '=' := fun heq => hnext ds (congrArg (· :: ds) heq)
          simp [hne]

theorem found_start (h : start column c cs = .ok (token, taken)) :
    Found (c :: cs) token (taken + 1) := by
  unfold start at h
  split at h
  · cases h; exact found_symbol .plus cs fun _ _ => rfl
  · cases h; exact found_symbol .minus cs fun _ _ => rfl
  · cases h; exact found_symbol .star cs fun _ _ => rfl
  · cases h; exact found_symbol .slash cs fun _ _ => rfl
  · cases h; exact found_symbol .percent cs fun _ _ => rfl
  · cases h; exact found_symbol .caret cs fun _ _ => rfl
  · cases h; exact found_symbol .openParen cs fun _ _ => rfl
  · cases h; exact found_symbol .closeParen cs fun _ _ => rfl
  · cases h; exact found_symbol .comma cs fun _ _ => rfl
  · exact found_comparison (fun rest => found_symbol .equal rest fun _ _ => rfl)
      (found_symbol .assign cs) (Except.ok.inj h)
  · exact found_comparison (fun rest => found_symbol .greaterEqual rest fun _ _ => rfl)
      (found_symbol .greater cs) (Except.ok.inj h)
  · exact found_comparison (fun rest => found_symbol .lessEqual rest fun _ _ => rfl)
      (found_symbol .less cs) (Except.ok.inj h)
  · split at h
    · next rest =>
        cases h
        exact found_symbol .notEqual rest fun _ _ => rfl
    · cases h
    · cases h
  · split at h
    · next ps n hpieces =>
        cases h
        rcases Item.read_of_pieces? hpieces with ⟨items, rest, hapart, rfl, rfl, rfl⟩
        exact ⟨.literal ⟨items, hapart⟩, rest, rfl, Literal.token_eq ⟨items, hapart⟩, rfl,
          fun _ _ => rfl⟩
    · cases h
  · split at h
    · next hdigit => exact found_number hdigit h
    · split at h
      · next hname =>
          cases h
          exact found_word hname
      · cases h

end Sound

/-!
# Rows of lexemes

A blank before a row belongs to its first lexeme, or to its end if it has none.  A lexeme that does
not fuse with the row starts a longer one.
-/

section Rows

variable {before column : Nat} {c : Char} {cs rest : List Char} {ts : List PlacedToken}

namespace Lexeme

theorem chars_eq_cons (l : Lexeme) :
    ∃ c cs, l.chars = c :: cs ∧ Text.isBlank c = false ∧ c ≠ '.' := by
  have hname : ∀ {c}, isNameChar c = true → Text.isBlank c = false ∧ c ≠ '.' := by
    intro c hc
    refine ⟨isBlank_of_isNameChar hc, ?_⟩
    intro hpoint
    rw [hpoint] at hc
    cases hc
  cases l with
  | word w => exact ⟨_, _, rfl, hname (isNameChar_of_isNameStart w.starts)⟩
  | whole digits =>
      cases hdigits : digits.chars with
      | nil => exact absurd hdigits digits.ne_nil
      | cons d ds =>
          have hd := digits.all d (hdigits ▸ List.mem_cons_self)
          exact ⟨d, ds, hdigits, hname (isNameChar_of_isDigit hd)⟩
  | decimal digits fraction =>
      cases hdigits : digits.chars with
      | nil => exact absurd hdigits digits.ne_nil
      | cons d ds =>
          have hd := digits.all d (hdigits ▸ List.mem_cons_self)
          refine ⟨d, ds ++ '.' :: fraction.chars, ?_, hname (isNameChar_of_isDigit hd)⟩
          rw [chars, hdigits, List.cons_append]
  | literal l => exact ⟨_, _, rfl, by decide, by decide⟩
  | symbol s => cases s <;> exact ⟨_, _, rfl, by decide, by decide⟩

theorem takes_of_isBlank (l : Lexeme) (h : Text.isBlank c = true) : l.takes c = false := by
  have hname : isNameChar c = false := by
    cases hc : isNameChar c with
    | false => rfl
    | true => rw [isBlank_of_isNameChar hc] at h; cases h
  have hequals : (c == '=') = false := beq_eq_false_iff_ne.mpr (ne_of_isBlank h (by decide))
  cases l with
  | word _ | whole _ | decimal _ _ => exact hname
  | literal _ => rfl
  | symbol s => cases s <;> first | exact hequals | rfl

end Lexeme

theorem Spaced.next_of_isChain {s : Spaced} {parts : List Spaced} {last : List Char}
    (hchain : (s :: parts).IsChain Follows) (hlast : ∀ c ∈ last, Text.isBlank c = true) :
    ∀ c ∈ (parts.flatMap chars ++ last).head?, s.lexeme.takes c = false ∧ c ≠ '.' := by
  have hblank : ∀ c, Text.isBlank c = true → s.lexeme.takes c = false ∧ c ≠ '.' :=
    fun c hc => ⟨s.lexeme.takes_of_isBlank hc, ne_of_isBlank hc (by decide)⟩
  intro c hc
  cases parts with
  | nil => exact hblank c (hlast c (List.mem_of_head? hc))
  | cons next more =>
      rcases next with ⟨blanks, lexeme, hblanks⟩
      cases blanks with
      | cons d ds =>
          cases hc
          exact hblank c (hblanks c List.mem_cons_self)
      | nil =>
          have hapart : s.lexeme.Apart lexeme := (List.isChain_cons_cons.mp hchain).1 rfl
          rcases lexeme.chars_eq_cons with ⟨d, ds, hds, _, hpoint⟩
          rw [List.flatMap_cons, chars, List.nil_append, hds] at hc
          cases hc
          exact ⟨hapart c (by rw [hds]; rfl), hpoint⟩

theorem scan_blanks {blanks : List Char} (h : ∀ c ∈ blanks, Text.isBlank c = true) :
    scan column (blanks ++ cs) = scan (column + blanks.length) cs := by
  induction blanks generalizing column with
  | nil => rfl
  | cons c more ih =>
      rw [List.cons_append, scan, if_pos (h c List.mem_cons_self),
        ih fun d hd => h d (List.mem_cons_of_mem c hd), List.length_cons, Nat.add_assoc,
        Nat.add_comm 1]

theorem scan_lexeme (l : Lexeme) (h : ∀ c ∈ rest.head?, l.takes c = false ∧ c ≠ '.')
    (hrest : scan (column + l.chars.length) rest = .ok ts) :
    scan column (l.chars ++ rest) = .ok (⟨l.token, column⟩ :: ts) := by
  rcases l.chars_eq_cons with ⟨c, cs, hchars, hblank, _⟩
  have hstart : start column c (cs ++ rest) = .ok (l.token, cs.length) :=
    start_lexeme l hchars (fun c hc => (h c hc).1) fun c hc => (h c hc).2
  have hcolumn : column + 1 + cs.length = column + l.chars.length := by
    rw [hchars, List.length_cons, Nat.add_assoc, Nat.add_comm 1]
  rw [hchars, List.cons_append, scan, hblank, hstart]
  simp only [Bool.false_eq_true, if_false, bind, Except.bind, List.drop_left, hcolumn, hrest]
  rfl

/-- The characters are a row of lexemes and blanks, and the tokens are theirs, in columns after
`before` characters. -/
def Arranges (before : Nat) (cs : List Char) (ts : List PlacedToken) : Prop :=
  ∃ a : Arrangement, a.chars = cs ∧
    Spaced.tokens before a.parts ++ [⟨.endOfInput, before + cs.length + 1⟩] = ts

theorem scan_row {parts : List Spaced} {last : List Char} (hchain : parts.IsChain Spaced.Follows)
    (hlast : ∀ c ∈ last, Text.isBlank c = true) :
    scan (before + 1) (parts.flatMap Spaced.chars ++ last) =
      .ok (Spaced.tokens before parts ++
        [⟨.endOfInput, before + (parts.flatMap Spaced.chars ++ last).length + 1⟩]) := by
  induction parts generalizing before with
  | nil =>
      have hblanks : scan (before + 1) (last ++ []) = scan (before + 1 + last.length) [] :=
        scan_blanks hlast
      rw [List.append_nil, scan, Nat.add_right_comm] at hblanks
      exact hblanks
  | cons s parts ih =>
      have hrest := @ih (before + s.chars.length) hchain.of_cons
      have hnext := Spaced.next_of_isChain hchain hlast
      have htext : (s :: parts).flatMap Spaced.chars ++ last =
          s.blanks ++ (s.lexeme.chars ++ (parts.flatMap Spaced.chars ++ last)) := by
        simp [Spaced.chars]
      generalize parts.flatMap Spaced.chars ++ last = text at hrest hnext htext
      have hcolumn : before + s.chars.length + 1 =
          before + 1 + s.blanks.length + s.lexeme.chars.length := by
        rw [Spaced.chars, List.length_append]
        omega
      have hlength : before + s.chars.length + text.length =
          before + (s.blanks ++ (s.lexeme.chars ++ text)).length := by
        simp only [Spaced.chars, List.length_append]
        omega
      rw [hcolumn, hlength] at hrest
      rw [htext, scan_blanks s.blank, scan_lexeme s.lexeme hnext hrest, Spaced.tokens,
        List.cons_append, Nat.add_comm 1 (before + _), Nat.add_right_comm before 1]

theorem scan_of_arranges (h : Arranges before cs ts) : scan (before + 1) cs = .ok ts := by
  rcases h with ⟨a, rfl, rfl⟩
  exact scan_row a.follow a.blank

theorem Arranges.nil : Arranges before [] [⟨.endOfInput, before + 1⟩] :=
  ⟨⟨[], [], List.isChain_nil, by simp⟩, rfl, rfl⟩

theorem Arranges.blank (hc : Text.isBlank c = true) (h : Arranges (before + 1) cs ts) :
    Arranges before (c :: cs) ts := by
  rcases h with ⟨⟨parts, last, hchain, hlast⟩, rfl, rfl⟩
  have hend : ∀ n, before + 1 + n + 1 = before + (n + 1) + 1 := by
    intro n
    omega
  cases parts with
  | nil =>
      refine ⟨⟨[], c :: last, List.isChain_nil, List.forall_mem_cons.mpr ⟨hc, hlast⟩⟩, rfl, ?_⟩
      rw [List.length_cons, hend]
      rfl
  | cons s parts =>
      let first : Spaced :=
        ⟨c :: s.blanks, s.lexeme, List.forall_mem_cons.mpr ⟨hc, s.blank⟩⟩
      have hfirst : (first :: parts).IsChain Spaced.Follows := by
        cases parts with
        | nil => exact List.isChain_singleton first
        | cons next more =>
            have hboth := List.isChain_cons_cons.mp hchain
            exact List.isChain_cons_cons.mpr ⟨hboth.1, hboth.2⟩
      refine ⟨⟨first :: parts, last, hfirst, hlast⟩, rfl, ?_⟩
      have hplace : 1 + (before + first.blanks.length) = 1 + (before + 1 + s.blanks.length) := by
        rw [List.length_cons, Nat.add_right_comm before 1, Nat.add_assoc before]
      have hnext : before + first.chars.length = before + 1 + s.chars.length := by
        rw [Spaced.chars, List.cons_append, List.length_cons, Nat.add_right_comm before 1,
          Nat.add_assoc before]
        rfl
      rw [List.length_cons, hend, Spaced.tokens, Spaced.tokens, hplace, hnext]

theorem Arranges.lexeme (l : Lexeme) (hl : ∀ c ∈ rest.head?, l.takes c = false)
    (h : Arranges (before + l.chars.length) rest ts) :
    Arranges before (l.chars ++ rest) (⟨l.token, before + 1⟩ :: ts) := by
  rcases h with ⟨⟨parts, last, hchain, hlast⟩, rfl, rfl⟩
  have hfollow : (⟨[], l, by simp⟩ :: parts : List Spaced).IsChain Spaced.Follows := by
    cases parts with
    | nil => exact List.isChain_singleton _
    | cons next more =>
        refine List.isChain_cons_cons.mpr ⟨?_, hchain⟩
        intro hblanks c hc
        apply hl c
        rcases next.lexeme.chars_eq_cons with ⟨d, ds, hds, _, _⟩
        rw [hds] at hc
        rw [Arrangement.chars, List.flatMap_cons, Spaced.chars, hblanks, List.nil_append, hds]
        exact hc
  refine ⟨⟨⟨[], l, by simp⟩ :: parts, last, hfollow, hlast⟩, ?_, ?_⟩
  · simp [Arrangement.chars, Spaced.chars]
  · simp [Spaced.tokens, Spaced.chars, Nat.add_comm, Nat.add_left_comm]

theorem arranges_of_scan (h : scan column cs = .ok ts) (hcolumn : column = before + 1) :
    Arranges before cs ts := by
  fun_induction scan column cs generalizing before ts with
  | case1 column =>
      cases h
      rw [hcolumn]
      exact Arranges.nil
  | case2 column c cs hblank ih => exact (ih h (by rw [hcolumn])).blank hblank
  | case3 column c cs hblank ih =>
      cases hstart : start column c cs with
      | error cause =>
          rw [hstart] at h
          cases h
      | ok first =>
          rw [hstart] at h
          cases hrest : scan (column + 1 + first.2) (cs.drop first.2) with
          | error cause =>
              simp only [bind, Except.bind, hrest] at h
              cases h
          | ok others =>
              simp only [bind, Except.bind, hrest] at h
              cases h
              rcases found_start hstart with ⟨l, rest, hcs, htoken, hlength, hnext⟩
              have hdrop : (c :: cs).drop (first.2 + 1) = rest := by
                rw [hcs, ← hlength, List.drop_left]
              have hafter : column + 1 + first.2 = before + l.chars.length + 1 := by
                rw [hcolumn, hlength]
                omega
              have hothers := ih first.2 hrest hafter
              rw [List.drop_succ_cons] at hdrop
              rw [hdrop] at hothers
              rw [hcs, hcolumn, ← htoken]
              exact hothers.lexeme l hnext

/-!
# Columns

The columns count the characters before each lexeme, so they go up.
-/

theorem Spaced.column_of_mem {parts : List Spaced} {t : PlacedToken}
    (h : t ∈ tokens before parts) :
    before < t.column ∧ t.column < before + (parts.flatMap chars).length + 1 := by
  induction parts generalizing before with
  | nil => cases h
  | cons s parts ih =>
      have hsome : 0 < s.lexeme.chars.length := by
        rcases s.lexeme.chars_eq_cons with ⟨c, cs, hcs, _, _⟩
        rw [hcs]
        exact Nat.succ_pos cs.length
      have hlength : ((s :: parts).flatMap chars).length =
          s.blanks.length + s.lexeme.chars.length + (parts.flatMap chars).length := by
        simp [chars, Nat.add_assoc]
      rw [hlength]
      rcases List.mem_cons.mp h with rfl | hrest
      · dsimp only
        omega
      · have hcolumn := ih hrest
        rw [chars, List.length_append] at hcolumn
        omega

theorem Spaced.pairwise_column (parts : List Spaced) :
    (tokens before parts).Pairwise fun t t' => t.column < t'.column := by
  induction parts generalizing before with
  | nil => exact List.Pairwise.nil
  | cons s parts ih =>
      refine List.Pairwise.cons ?_ ih
      intro t ht
      have hcolumn := (column_of_mem ht).1
      rw [chars, List.length_append] at hcolumn
      rcases s.lexeme.chars_eq_cons with ⟨c, cs, hcs, _, _⟩
      rw [hcs, List.length_cons] at hcolumn
      dsimp only
      omega

theorem Arrangement.pairwise_column (a : Arrangement) :
    a.tokens.Pairwise fun t t' => t.column < t'.column := by
  unfold tokens chars
  refine List.pairwise_append.mpr
    ⟨Spaced.pairwise_column a.parts, List.pairwise_singleton _ _, ?_⟩
  intro t ht t' ht'
  have hcolumn := (Spaced.column_of_mem ht).2
  rw [List.mem_singleton.mp ht', List.length_append]
  dsimp only
  omega

end Rows

namespace Lexer

theorem tokens_eq_ok_iff {source : String} {ts : List PlacedToken} :
    tokens source = .ok ts ↔ ∃ a : Arrangement, a.chars = source.toList ∧ a.tokens = ts := by
  have hend : ∀ a : Arrangement, a.chars = source.toList →
      0 + source.toList.length + 1 = a.chars.length + 1 := by
    intro a ha
    rw [ha, Nat.zero_add]
  constructor
  · intro h
    rcases arranges_of_scan h (Nat.zero_add 1).symm with ⟨a, hchars, htokens⟩
    refine ⟨a, hchars, ?_⟩
    rw [← htokens, hend a hchars]
    rfl
  · intro hgiven
    rcases hgiven with ⟨a, hchars, htokens⟩
    refine scan_of_arranges ⟨a, hchars, ?_⟩
    rw [← htokens, hend a hchars]
    rfl

/-- A source is read exactly if it is a row of lexemes with blanks around them, none of which
fuses with the next.  What is read are the tokens of these lexemes, each in the column that counts
the characters before it from one, and the end of the input after the last character; so the
columns go up. -/
theorem tokens_exact (source : String) :
    (∀ ts, tokens source = .ok ts ↔
      ∃ a : Arrangement, a.chars = source.toList ∧ a.tokens = ts) ∧
    ∀ ts, tokens source = .ok ts → ts.Pairwise fun t t' => t.column < t'.column := by
  constructor
  · exact fun ts => tokens_eq_ok_iff
  · intro ts h
    rcases tokens_eq_ok_iff.mp h with ⟨a, _, rfl⟩
    exact a.pairwise_column

/-- Lexemes without blanks between them: `>` takes in the equals sign after it, and the quote ends
the name in the template. -/
theorem tokens_exact_unspaced :
    let ts : List PlacedToken :=
      [⟨.name "x", 1⟩, ⟨.symbol .greaterEqual, 2⟩,
        ⟨.template [.text "$", .var "y"], 4⟩, ⟨.symbol .plus, 10⟩, ⟨.name "z", 12⟩,
        ⟨.endOfInput, 13⟩]
    tokens "x>=\"$$$y\"+ z" = .ok ts ∧
      (∃ a : Arrangement, a.chars = "x>=\"$$$y\"+ z".toList ∧ a.tokens = ts) ∧
      ts.Pairwise fun t t' => t.column < t'.column := by
  intro ts
  have hread : tokens "x>=\"$$$y\"+ z" = .ok ts := by cbv
  have hexact := tokens_exact "x>=\"$$$y\"+ z"
  exact ⟨hread, (hexact.1 ts).mp hread, hexact.2 ts hread⟩

end Lexer
end Blockwise
