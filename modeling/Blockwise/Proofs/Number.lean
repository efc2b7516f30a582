import Blockwise.Value
import Blockwise.Proofs.Decimal.Shortest
import Blockwise.Proofs.Double
import Blockwise.Proofs.Lexeme.Exactness

/-!
# Numbers read back from their text

A text that is an integer is also a numeral, and both ways of reading it round the same fraction,
so that only the sign of a zero can tell which way was taken.  What a finite double prints as is
a numeral for its shortest decimal, which is rounded to the double again.
-/

namespace Blockwise

namespace Digits

theorem eq_cons (digits : Digits) : ∃ c more, digits.chars = c :: more ∧ c.isDigit = true := by
  cases hchars : digits.chars with
  | nil => exact absurd hchars digits.ne_nil
  | cons c more =>
      refine ⟨c, more, rfl, digits.all c ?_⟩
      rw [hchars]
      exact List.mem_cons_self

theorem takeWhile (digits : Digits) : digits.chars.takeWhile Char.isDigit = digits.chars :=
  List.takeWhile_eq_self_iff.mpr digits.all

theorem dropWhile (digits : Digits) : digits.chars.dropWhile Char.isDigit = [] :=
  List.dropWhile_eq_nil_iff.mpr digits.all

theorem isBlank (digits : Digits) : ∀ c ∈ digits.chars, Text.isBlank c = false :=
  fun c hc => isBlank_of_isNameChar (isNameChar_of_isDigit (digits.all c hc))

end Digits

namespace Numeral

variable {cs : List Char} {d : Decimal} {i : Int} {negative : Bool}

/-!
# Numerals without a sign

Digits, or digits, a point and digits, stand for a decimal.
-/

inductive Spells : List Char → Decimal → Prop where
  | whole (digits : Digits) : Spells digits.chars (ofParts digits.chars [] 0)
  | decimal (digits fraction : Digits) :
      Spells (digits.chars ++ '.' :: fraction.chars) (ofParts digits.chars fraction.chars 0)

theorem unsigned?_digits (digits : Digits) :
    unsigned? digits.chars = some (ofParts digits.chars [] 0) := by
  simp [unsigned?, digits.takeWhile, digits.dropWhile, digits.ne_nil, power?]

theorem Spells.unsigned? (h : Spells cs d) : unsigned? cs = some d := by
  cases h with
  | whole digits => exact unsigned?_digits digits
  | decimal digits fraction =>
      have hpoint : ∀ c ∈ ('.' :: fraction.chars).head?, c.isDigit = false := by
        intro c hc
        cases hc
        rfl
      simp [Numeral.unsigned?, takeWhile_run digits.all hpoint, dropWhile_run digits.all hpoint,
        fraction.takeWhile, fraction.dropWhile, digits.ne_nil, power?]

theorem Spells.eq_cons (h : Spells cs d) : ∃ c more, cs = c :: more ∧ c.isDigit = true := by
  cases h with
  | whole digits => exact digits.eq_cons
  | decimal digits fraction =>
      rcases digits.eq_cons with ⟨c, more, hchars, hc⟩
      rw [hchars]
      exact ⟨c, _, rfl, hc⟩

theorem Spells.isBlank (h : Spells cs d) : ∀ c ∈ cs, Text.isBlank c = false := by
  intro c hc
  cases h with
  | whole digits => exact digits.isBlank c hc
  | decimal digits fraction =>
      rcases List.mem_append.mp hc with hbefore | hafter
      · exact digits.isBlank c hbefore
      · rcases List.mem_cons.mp hafter with rfl | hbehind
        · rfl
        · exact fraction.isBlank c hbehind

/-!
# Signs

A sign is taken off before the digits are read, so a numeral with a minus is the one without it,
made negative.
-/

theorem splitSign_of_isDigit {c : Char} (h : c.isDigit = true) :
    splitSign (c :: cs) = (false, c :: cs) := by
  unfold splitSign
  split
  · next heq =>
      cases heq
      exact absurd h (by decide)
  · next heq =>
      cases heq
      exact absurd h (by decide)
  · rfl

theorem Spells.ofChars? (h : Spells cs d) : ofChars? cs = some ⟨false, d⟩ := by
  rcases h.eq_cons with ⟨c, more, rfl, hc⟩
  rw [Numeral.ofChars?, splitSign_of_isDigit hc]
  simp [h.unsigned?]

theorem Spells.ofChars?_minus (h : Spells cs d) :
    Numeral.ofChars? ('-' :: cs) = some ⟨true, d⟩ := by
  simp [Numeral.ofChars?, splitSign, h.unsigned?]

/-!
# Integers

An integer is a numeral for its absolute value; its sign may stand before a zero.
-/

theorem ofChars?_of_integer? (h : integer? cs = some i) :
    ∃ negative, ofChars? cs = some ⟨negative, i.natAbs, 0⟩ ∧
      i = if negative then -(i.natAbs : Int) else i.natAbs := by
  rcases hsign : splitSign cs with ⟨negative, digits⟩
  simp only [integer?, hsign] at h
  split at h
  · next hdigits =>
      cases h
      refine ⟨negative, ?_, ?_⟩
      · have hread := unsigned?_digits ⟨digits, hdigits⟩
        simp only [ofChars?, hsign, hread, ofParts]
        cases negative <;> simp
      · cases negative <;> simp
  · cases h

theorem natAbs_le_of_isWord (h : Number.isWord i = true) : i.natAbs ≤ 0x8000000000000000 := by
  simp only [Number.isWord, Bool.and_eq_true, decide_eq_true_eq] at h
  omega

theorem toFloat_word (negative : Bool) (h : Number.isWord i = true) :
    toFloat ⟨negative, i.natAbs, 0⟩ =
      Double.ofMagnitude negative (Double.nearest i.natAbs 1) := by
  have hlength : (Nat.toDigits 10 i.natAbs).length ≤ 19 :=
    (Nat.length_toDigits_le_iff (by decide) (by decide)).mpr
      ((natAbs_le_of_isWord h).trans_lt (by decide))
  rw [toFloat, Decimal.magnitude_natural (by omega)]

theorem nearest_word_lt_infinity (h : Number.isWord i = true) :
    Double.nearest i.natAbs 1 < Double.infinity := by
  apply Double.nearest_lt_infinity Nat.one_pos
  have hsmall : (i.natAbs : ℚ) ≤ 0x8000000000000000 := by exact_mod_cast natAbs_le_of_isWord h
  calc ((i.natAbs : ℚ) / (1 : Nat)) = i.natAbs := by rw [Nat.cast_one, div_one]
    _ ≤ 2 ^ (63 : Int) := hsmall.trans_eq (by norm_num)
    _ < 2 ^ (1023 : Int) := zpow_lt_zpow_right₀ one_lt_two (by decide)

theorem isFinite_word (negative : Bool) (h : Number.isWord i = true) :
    (toFloat ⟨negative, i.natAbs, 0⟩).isFinite = true := by
  have hsmall := nearest_word_lt_infinity h
  rw [toFloat_word negative h]
  exact (Double.isFinite_ofMagnitude negative hsmall.le).mpr hsmall

end Numeral

/-!
# The two ways of reading an integer

An integer of the 64-bit range is rounded to the same double by both ways of reading it, or to zeros
of either sign.
-/

namespace Double

/-- The same double, or a zero that lost its sign. -/
def Agree (x y : Float) : Prop :=
  x = y ∨ x = 0 ∧ y = -0

theorem Agree.beq {x y : Float} (h : Agree x y) (hfinite : y.isFinite = true) :
    (x == y) = true := by
  rcases h with rfl | ⟨rfl, hzero⟩
  · exact beq_self_of_isFinite hfinite
  · exact beq_of_zero hzero

theorem agree_ofInt {i : Int} {negative : Bool} (h : Number.isWord i = true)
    (hsign : i = if negative then -(i.natAbs : Int) else i.natAbs) :
    Agree (ofInt i) (Numeral.toFloat ⟨negative, i.natAbs, 0⟩) := by
  rw [Numeral.toFloat_word negative h, ofInt]
  rcases eq_or_ne i 0 with rfl | hzero
  · rw [Int.natAbs_zero, nearest_zero, ofMagnitude_zero, ofMagnitude_zero]
    cases negative with
    | false => exact Or.inl rfl
    | true => exact Or.inr ⟨rfl, rfl⟩
  · have hnegative : decide (i < 0) = negative := by
      cases negative with
      | false =>
          rw [if_neg Bool.false_ne_true] at hsign
          exact decide_eq_false (by omega)
      | true =>
          rw [if_pos rfl] at hsign
          exact decide_eq_true (by omega)
    rw [hnegative]
    exact Or.inl rfl

end Double

namespace Number

open Double (Agree)

def ofTextAsDouble? (s : String) : Option Float :=
  ((Numeral.ofChars? (Text.trimmed s.toList)).map Numeral.toFloat).filter Float.isFinite

theorem numeral_of_word {cs : List Char} {i : Int}
    (h : (Numeral.integer? cs).filter isWord = some i) :
    ∃ y, (Numeral.ofChars? cs).map Numeral.toFloat = some y ∧ y.isFinite = true ∧
      Agree (Double.ofInt i) y := by
  rcases Option.filter_eq_some_iff.mp h with ⟨hread, hword⟩
  rcases Numeral.ofChars?_of_integer? hread with ⟨negative, hnumeral, hsign⟩
  rw [hnumeral]
  exact ⟨_, rfl, Numeral.isFinite_word negative hword, Double.agree_ofInt hword hsign⟩

theorem ofText?_agree (s : String) : Option.Rel Agree (ofText? s) (ofTextAsDouble? s) := by
  unfold ofText? ofTextAsDouble?
  simp only
  split
  · next i hinteger =>
      rcases numeral_of_word hinteger with ⟨y, hread, hfinite, hagree⟩
      rw [hread, Option.filter_some_pos hfinite]
      exact Option.Rel.some hagree
  · cases ((Numeral.ofChars? (Text.trimmed s.toList)).map Numeral.toFloat).filter
      Float.isFinite with
    | none => exact Option.Rel.none
    | some x => exact Option.Rel.some (Or.inl rfl)

end Number

/-!
# Decimals in positional notation

A decimal is written as digits that stand for its value, with zeros before and after them as the
point needs them.
-/

namespace Decimal

def padded (before n after : Nat) : List Char :=
  List.replicate before '0' ++ Nat.toDigits 10 n ++ List.replicate after '0'

theorem isDigit_padded (before n after : Nat) : ∀ c ∈ padded before n after, c.isDigit = true := by
  intro c hc
  rcases List.mem_append.mp hc with hfront | hzero
  · rcases List.mem_append.mp hfront with hzero | hdigit
    · rw [List.eq_of_mem_replicate hzero]
      rfl
    · exact Nat.isDigit_of_mem_toDigits (by decide) (by decide) hdigit
  · rw [List.eq_of_mem_replicate hzero]
    rfl

theorem digitsValue_padded (before n after : Nat) :
    Numeral.digitsValue (padded before n after) = 10 ^ after * n := by
  rw [Numeral.digitsValue, padded, Nat.ofDigitChars_append, Nat.ofDigitChars_append,
    Nat.ofDigitChars_replicate_zero, Nat.ofDigitChars_replicate_zero, Nat.mul_zero,
    Nat.ofDigitChars_ten_toDigits]

theorem isDigits_of_all {cs : List Char} (hlength : 0 < cs.length)
    (h : ∀ c ∈ cs, c.isDigit = true) : Numeral.isDigits cs = true := by
  simp only [Numeral.isDigits, Bool.and_eq_true, Bool.not_eq_true', List.isEmpty_eq_false_iff,
    List.all_eq_true]
  exact ⟨List.ne_nil_of_length_pos hlength, h⟩

theorem spells_point {run : List Char} {places : Nat} (h : ∀ c ∈ run, c.isDigit = true)
    (hplaces : 0 < places) (hlength : places < run.length) :
    Numeral.Spells (run.take (run.length - places) ++ '.' :: run.drop (run.length - places))
      ⟨Numeral.digitsValue run, 0 - places⟩ := by
  have hrest : (run.drop (run.length - places)).length = places := by
    rw [List.length_drop, Nat.sub_sub_self hlength.le]
  have hparts : Numeral.ofParts (run.take (run.length - places))
      (run.drop (run.length - places)) 0 = ⟨Numeral.digitsValue run, 0 - places⟩ := by
    rw [Numeral.ofParts, List.take_append_drop, hrest]
  have hwhole : Numeral.isDigits (run.take (run.length - places)) = true :=
    isDigits_of_all (by rw [List.length_take]; omega) fun c hc => h c (List.mem_of_mem_take hc)
  have hfraction : Numeral.isDigits (run.drop (run.length - places)) = true :=
    isDigits_of_all (by rwa [hrest]) fun c hc => h c (List.mem_of_mem_drop hc)
  rw [← hparts]
  exact Numeral.Spells.decimal ⟨_, hwhole⟩ ⟨_, hfraction⟩

theorem spells_positional (d : Decimal) :
    ∃ d', Numeral.Spells d.positional d' ∧ d'.value = d.value := by
  by_cases hexponent : 0 ≤ d.exponent
  · have hdigits := isDigit_padded 0 d.coefficient d.exponent.toNat
    have hvalue := digitsValue_padded 0 d.coefficient d.exponent.toNat
    have hlength : 0 < (padded 0 d.coefficient d.exponent.toNat).length := by
      simp [padded, Nat.length_toDigits_pos]
    have hpositional : d.positional = padded 0 d.coefficient d.exponent.toNat := by
      simp [positional, hexponent, padded]
    rw [hpositional]
    refine ⟨_, Numeral.Spells.whole ⟨_, isDigits_of_all hlength hdigits⟩, ?_⟩
    rw [value_of_nonneg hexponent, Numeral.ofParts, List.append_nil, hvalue, List.length_nil,
      Nat.cast_zero, sub_zero, value_natural, Nat.mul_comm, Nat.pow_eq, Nat.cast_one, div_one]
  · -- as many zeros come first as it takes to have a digit before the point
    have hplaces : d.exponent = 0 - ((-d.exponent).toNat : Int) := by omega
    generalize hbehind : (-d.exponent).toNat = places at hplaces
    generalize hzeros : places + 1 - (Nat.toDigits 10 d.coefficient).length = zeros
    have hlength : places < (padded zeros d.coefficient 0).length := by
      simp [padded]
      omega
    have hpositional : d.positional =
        (padded zeros d.coefficient 0).take ((padded zeros d.coefficient 0).length - places) ++
          '.' :: (padded zeros d.coefficient 0).drop
            ((padded zeros d.coefficient 0).length - places) := by
      simp [positional, hexponent, padded, hbehind, hzeros]
    have hspells := spells_point (isDigit_padded zeros d.coefficient 0) (by omega) hlength
    rw [← hpositional, digitsValue_padded, pow_zero, Nat.one_mul, ← hplaces] at hspells
    exact ⟨d, hspells, rfl⟩

end Decimal

/-!
# What doubles print as

A finite double prints as a numeral for it, without blanks.
-/

namespace Text

theorem trimmed_of_none_blank {cs : List Char} (h : ∀ c ∈ cs, isBlank c = false) :
    trimmed cs = cs := by
  have hstart : ∀ cs : List Char, (∀ c ∈ cs, isBlank c = false) → cs.dropWhile isBlank = cs := by
    intro cs hcs
    cases cs with
    | nil => rfl
    | cons c more => rw [List.dropWhile_cons_of_neg (by simp [hcs c List.mem_cons_self])]
  have hend : ∀ c ∈ cs.reverse, isBlank c = false := fun c hc => h c (List.mem_reverse.mp hc)
  rw [trimmed, trimEnd, trimStart, hstart cs h, hstart cs.reverse hend, List.reverse_reverse]

end Text

namespace Number

open Double (Agree)

theorem ofChars?_text {x : Float} (h : x.isFinite = true) :
    ((Numeral.ofChars? (text x).toList).map Numeral.toFloat) = some x ∧
      ∀ c ∈ (text x).toList, Text.isBlank c = false := by
  have hsmall := (Double.isFinite_iff x).mp h
  rcases Decimal.spells_positional (Decimal.shortest (Double.magnitude x)) with
    ⟨d, hspells, hvalue⟩
  have hmagnitude := Decimal.magnitude_of_value_shortest hsmall hvalue
  have hback (negative : Bool) (hsign : Double.isNegative x = negative) :
      Numeral.toFloat ⟨negative, d⟩ = x := by
    rw [Numeral.toFloat, hmagnitude, ← hsign, Double.ofMagnitude_magnitude]
  unfold text
  rw [if_neg (Nat.not_lt.mpr hsmall.le), if_neg hsmall.ne]
  cases hsign : Double.isNegative x with
  | false =>
      simp only [Bool.false_eq_true, if_false, String.toList_append, String.toList_ofList]
      rw [String.toList_empty, List.nil_append, hspells.ofChars?]
      exact ⟨congrArg some (hback false hsign), hspells.isBlank⟩
  | true =>
      simp only [if_true, String.toList_append, String.toList_ofList]
      have hminus : "-".toList = ['-'] := rfl
      rw [hminus, List.singleton_append, hspells.ofChars?_minus]
      refine ⟨congrArg some (hback true hsign), ?_⟩
      intro c hc
      rcases List.mem_cons.mp hc with rfl | hdigits
      · rfl
      · exact hspells.isBlank c hdigits

theorem ofTextAsDouble?_text {x : Float} (h : x.isFinite = true) :
    ofTextAsDouble? (text x) = some x := by
  rcases ofChars?_text h with ⟨hread, hblank⟩
  rw [ofTextAsDouble?, Text.trimmed_of_none_blank hblank, hread, Option.filter_some_pos h]

/-- A text that is read as an integer is a numeral for a finite double, and the two are
numerically equal: only the sign of a zero may differ.  So no answer but the sign of a zero would
change if every text was read as a double.  A finite double that is made a text and a number
again is numerically equal to what it was: itself, or zero for a negative zero. -/
theorem numbers_survive_text :
    (∀ (s : String) (i : Int),
      (Numeral.integer? (Text.trimmed s.toList)).filter isWord = some i →
        ofText? s = some (Double.ofInt i) ∧
        ∃ y, (Numeral.ofChars? (Text.trimmed s.toList)).map Numeral.toFloat = some y ∧
          y.isFinite = true ∧ (Double.ofInt i == y) = true ∧ Agree (Double.ofInt i) y) ∧
    (∀ s, Option.Rel Agree (ofText? s) (ofTextAsDouble? s)) ∧
    ∀ x : Float, x.isFinite = true →
      ∃ y, ((Value.number x).cast .string).cast .number = .number y ∧ (y == x) = true ∧
        y = if x = -0 then 0 else x := by
  refine ⟨?_, ofText?_agree, ?_⟩
  · intro s i hinteger
    rcases numeral_of_word hinteger with ⟨y, hread, hfinite, hagree⟩
    refine ⟨?_, y, hread, hfinite, hagree.beq hfinite, hagree⟩
    simp only [ofText?, hinteger]
  · intro x hfinite
    have hagree := ofText?_agree (text x)
    rw [ofTextAsDouble?_text hfinite] at hagree
    rcases hread : ofText? (text x) with _ | y
    · rw [hread] at hagree
      cases hagree
    · rw [hread] at hagree
      have hcast : ((Value.number x).cast .string).cast .number = .number y := by
        simp only [Value.cast, Value.toText, Value.toNumber, hread]
      cases hagree with
      | some hagree =>
          refine ⟨y, hcast, hagree.beq hfinite, ?_⟩
          split
          · next hzero =>
              rw [hzero] at hread
              exact Option.some.inj (hread.symm.trans (by decide))
          · next hnonzero => exact hagree.resolve_right fun h => hnonzero h.2

/-- The first integer beyond the 64-bit range is read as a numeral; a negative zero between blanks
is an integer. -/
theorem numbers_survive_text_at_the_limits :
    (Numeral.integer? (Text.trimmed " -0 ".toList)).filter isWord = some 0 ∧
    ofText? " -0 " = some (Double.ofInt 0) ∧
    (Float.ofBits 0x43E0000000000000).isFinite = true ∧
    ((Value.number (Float.ofBits 0x43E0000000000000)).cast .string).cast .number =
      .number (Float.ofBits 0x43E0000000000000) := by
  have hinteger : (Numeral.integer? (Text.trimmed " -0 ".toList)).filter isWord = some 0 := by
    decide
  have hfinite : (Float.ofBits 0x43E0000000000000).isFinite = true := by decide
  have hnonzero : Float.ofBits 0x43E0000000000000 ≠ -0 := by decide
  rcases numbers_survive_text with ⟨hword, _, hback⟩
  rcases hback _ hfinite with ⟨y, hcast, _, hsame⟩
  rw [if_neg hnonzero] at hsame
  rw [hsame] at hcast
  exact ⟨hinteger, (hword _ _ hinteger).1, hfinite, hcast⟩

end Number
end Blockwise
