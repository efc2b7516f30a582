import Blockwise.Proofs.Grammar.Exactness
import Blockwise.Proofs.Number
import Blockwise.Evaluation

/-!
# Number literals and number input

The digits of a number literal mean the same number in a source, in a line of input and in a text
that is cast, as long as the number is finite.  A literal too large for a double is infinity in a
source, and no number anywhere else.
-/

namespace Blockwise

open Numeral (Spells)

variable {s : String} {d : Decimal}

namespace Double

theorem nearest_le_infinity (num den : Nat) : nearest num den ≤ infinity := by
  unfold nearest
  split
  · exact Nat.zero_le _
  · exact min_le_left _ _

theorem ofMagnitude_false_ne {m : Nat} (h : m ≤ infinity) : ofMagnitude false m ≠ -0 := by
  intro hzero
  have hbits := toBits_ofMagnitude false h
  rw [hzero] at hbits
  have hsign : (-0 : Float).toBits.toNat = signBit := by decide
  rw [hsign, if_neg Bool.false_ne_true, Nat.add_zero] at hbits
  rw [← hbits] at h
  exact absurd h (by decide)

end Double

namespace Decimal

theorem magnitude_le_infinity (d : Decimal) : d.magnitude ≤ Double.infinity := by
  unfold magnitude
  simp only
  split
  · exact Nat.zero_le _
  · split
    · exact Nat.le_refl _
    · split
      · exact Nat.zero_le _
      · split
        · exact Double.nearest_le_infinity _ _
        · exact Double.nearest_le_infinity _ _

end Decimal

namespace Number

theorem tokens_of_spells (h : Spells s.toList d) :
    Lexer.tokens s =
      .ok [⟨.number (Numeral.toFloat ⟨false, d⟩), 1⟩, ⟨.endOfInput, 1 + s.toList.length⟩] := by
  have hlexeme : ∃ l : Lexeme, s.toList = l.chars ∧
      l.token = .number (Numeral.toFloat ⟨false, d⟩) := by
    generalize s.toList = cs at h
    cases h with
    | whole digits => exact ⟨.whole digits, rfl, rfl⟩
    | decimal digits fraction => exact ⟨.decimal digits fraction, rfl, rfl⟩
  rcases hlexeme with ⟨l, hchars, htoken⟩
  have hend : Lexer.scan (1 + l.chars.length) [] = .ok [⟨.endOfInput, 1 + l.chars.length⟩] := by
    rw [Lexer.scan]
  have hscan := scan_lexeme l (by simp) hend
  rw [List.append_nil, htoken] at hscan
  rw [Lexer.tokens, hchars, hscan]

theorem ofTextAsDouble?_of_spells (h : Spells s.toList d) :
    ofTextAsDouble? s = (some (Numeral.toFloat ⟨false, d⟩)).filter Float.isFinite := by
  rw [ofTextAsDouble?, Text.trimmed_of_none_blank h.isBlank, h.ofChars?, Option.map_some]

theorem ofText?_of_spells (h : Spells s.toList d) :
    ofText? s = (some (Numeral.toFloat ⟨false, d⟩)).filter Float.isFinite := by
  have hagree := ofText?_agree s
  rw [ofTextAsDouble?_of_spells h] at hagree
  have hunsigned : Numeral.toFloat ⟨false, d⟩ ≠ -0 :=
    Double.ofMagnitude_false_ne d.magnitude_le_infinity
  generalize Numeral.toFloat ⟨false, d⟩ = x at hagree hunsigned ⊢
  cases hfinite : x.isFinite with
  | false =>
      rw [Option.filter_some_neg (by simp [hfinite])] at hagree ⊢
      cases hread : ofText? s with
      | none => rfl
      | some y =>
          rw [hread] at hagree
          cases hagree
  | true =>
      rw [Option.filter_some_pos hfinite] at hagree ⊢
      cases hread : ofText? s with
      | none =>
          rw [hread] at hagree
          cases hagree
      | some y =>
          rw [hread] at hagree
          cases hagree with
          | some hagree => rw [hagree.resolve_right fun hzero => hunsigned hzero.2]

/-- The digits of a literal are one number in a source, which an output block shows.  If it is
finite, the text is cast to the same number, and a line that is read as a number is the same
number; otherwise neither is a number at all. -/
theorem literals_read_alike (h : Spells s.toList d) :
    let x := Numeral.toFloat ⟨false, d⟩
    Lexer.tokens s = .ok [⟨.number x, 1⟩, ⟨.endOfInput, 1 + s.toList.length⟩] ∧
    Tree.ofSource .output s = .ok (.write (.literal (.number x))) ∧
    (Value.string s).cast .number =
      (if x.isFinite then .number x else .ofCause (.badNumber s)) ∧
    ∀ (name : String) (store : Store) (script : Script) (more : List String),
      script.input = s :: more →
      (((Tree.read name .number).evaluate store).perform script).1 =
        (if x.isFinite then .number x else .ofCause (.badNumber s), store) := by
  intro x
  have htokens : Lexer.tokens s = .ok [⟨.number x, 1⟩, ⟨.endOfInput, 1 + s.toList.length⟩] :=
    tokens_of_spells h
  have hread : ofText? s = (some x).filter Float.isFinite := ofText?_of_spells h
  clear_value x
  have hcast : (Value.string s).cast .number =
      if x.isFinite then .number x else .ofCause (.badNumber s) := by
    simp only [Value.cast, Value.toNumber, hread]
    cases hfinite : x.isFinite with
    | false =>
        rw [Option.filter_some_neg (by simp [hfinite])]
        rfl
    | true =>
        rw [Option.filter_some_pos hfinite]
        rfl
  refine ⟨htokens, ?_, hcast, ?_⟩
  · have hderives : Grammar.Derives .expression
        (Grammar.tokensOf [⟨.number x, 1⟩]) (.literal (.number x)) :=
      Grammar.Derives.of_power (Grammar.Derives.operand (Grammar.Derives.uncast
        Grammar.Derives.number))
    have hblock := Grammar.block_complete (Grammar.BlockDerives.output hderives)
      ⟨1 + s.toList.length, [], rfl⟩
    rw [Tree.ofSource, if_neg (by decide), htokens]
    exact hblock
  · intro name store script more hinput
    rcases script with ⟨input, output, prompts⟩
    cases hinput
    rw [← hcast, Tree.evaluate]
    rfl

theorem literals_read_alike_twenty_quintillions :
    Spells "20000000000000000001.5".toList ⟨200000000000000000015, -1⟩ ∧
    Lexer.tokens "20000000000000000001.5" =
      .ok [⟨.number (Float.ofBits 0x43F158E460913D00), 1⟩, ⟨.endOfInput, 23⟩] ∧
    (Value.string "20000000000000000001.5").cast .number =
      .number (Float.ofBits 0x43F158E460913D00) := by
  have hspells : Spells "20000000000000000001.5".toList ⟨200000000000000000015, -1⟩ :=
    Spells.decimal ⟨"20000000000000000001".toList, by decide⟩ ⟨['5'], by decide⟩
  have hvalue : Numeral.toFloat ⟨false, 200000000000000000015, -1⟩ =
      Float.ofBits 0x43F158E460913D00 := by
    decide
  have hfinite : (Float.ofBits 0x43F158E460913D00).isFinite = true := by decide
  rcases literals_read_alike hspells with ⟨htokens, _, hcast, _⟩
  rw [hvalue] at htokens hcast
  rw [if_pos hfinite] at hcast
  exact ⟨hspells, htokens, hcast⟩

def huge : Digits :=
  ⟨'1' :: List.replicate 309 '0', by decide +kernel⟩

theorem toFloat_huge :
    Numeral.toFloat ⟨false, Numeral.ofParts huge.chars [] 0⟩ = Float.ofBits 0x7FF0000000000000 := by
  decide +kernel

theorem spells_huge :
    ∃ s : String, Spells s.toList (Numeral.ofParts huge.chars [] 0) ∧ s.toList.length = 310 := by
  refine ⟨String.ofList huge.chars, ?_, ?_⟩
  · rw [String.toList_ofList]
    exact Spells.whole huge
  · rw [String.toList_ofList, huge, List.length_cons, List.length_replicate]

/-- A literal that is infinite in a source is refused as a number everywhere else. -/
theorem huge_literal_is_no_input :
    ∃ s, Spells s.toList (Numeral.ofParts huge.chars [] 0) ∧
      Lexer.tokens s = .ok [⟨.number (Float.ofBits 0x7FF0000000000000), 1⟩, ⟨.endOfInput, 311⟩] ∧
      (Value.string s).cast .number = .ofCause (.badNumber s) := by
  rcases spells_huge with ⟨s, hspells, hlength⟩
  have htokens := tokens_of_spells hspells
  have hread := ofText?_of_spells hspells
  rw [toFloat_huge, hlength] at htokens
  rw [toFloat_huge, Option.filter_some_neg (by decide)] at hread
  refine ⟨s, hspells, htokens, ?_⟩
  simp only [Value.cast, Value.toNumber, hread]

end Number
end Blockwise
