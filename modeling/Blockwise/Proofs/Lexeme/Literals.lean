import Blockwise.Proofs.Lexeme

/-!
# Reading string literals

The reader of a literal takes its items one by one and ends at the first quote that no dollar
sign stands before.  It finds exactly the literals that are followed by anything at all.
-/

namespace Blockwise

open Lexer

/-!
# Runs of characters of a kind

A run of characters of a kind ends at the first one of another.
-/

section Runs

variable {p : Char → Bool} {run rest : List Char}

theorem takeWhile_run (hrun : ∀ c ∈ run, p c = true) (hrest : ∀ c ∈ rest.head?, p c = false) :
    (run ++ rest).takeWhile p = run := by
  rw [List.takeWhile_append_of_pos hrun]
  cases rest with
  | nil => simp
  | cons c more => simp [hrest c rfl]

theorem dropWhile_run (hrun : ∀ c ∈ run, p c = true) (hrest : ∀ c ∈ rest.head?, p c = false) :
    (run ++ rest).dropWhile p = rest := by
  rw [List.dropWhile_append_of_pos hrun]
  cases rest with
  | nil => simp
  | cons c more => simp [hrest c rfl]

theorem of_mem_takeWhile {cs : List Char} : ∀ c ∈ cs.takeWhile p, p c = true :=
  List.all_eq_true.mp List.all_takeWhile

theorem of_head?_dropWhile {cs : List Char} : ∀ c ∈ (cs.dropWhile p).head?, p c = false := by
  intro c hc
  have hhead := List.head?_dropWhile_not p cs
  rw [hc] at hhead
  exact hhead

end Runs

namespace Item

def piece : Item → Piece
  | plain c _ => .char c
  | dollar => .char '$'
  | escape c _ => .char c
  | var name => .var name.text

/-!
# Items are read

The reader takes an item off the front, if the item would not take in what follows it.
-/

theorem spelling_eq_cons (items : List Item) : ∃ c cs, spelling items = c :: cs := by
  cases items with
  | nil => exact ⟨_, _, rfl⟩
  | cons item rest => cases item <;> exact ⟨_, _, rfl⟩

theorem ne_of_isNameStart {c d : Char} (hc : isNameStart c = true) (hd : isNameStart d = false) :
    c ≠ d := by
  intro heq
  rw [heq, hd] at hc
  cases hc

theorem pieces?_item (item : Item) {cs : List Char}
    (hcs : ∀ c ∈ cs.head?, item.takes c = false) :
    pieces? (item.chars ++ cs) =
      (pieces? cs).map fun (ps, n) => (item.piece :: ps, n + item.chars.length) := by
  cases item with
  | plain c hc =>
      rw [chars, List.singleton_append, pieces?]
      · rfl
      · exact hc.1
      · exact fun _ h => absurd h hc.2
      · exact fun _ h => absurd h hc.2
      · exact fun _ _ h => absurd h hc.2
  | dollar =>
      cases cs with
      | nil => simp [chars, pieces?]
      | cons c cs =>
          have hc := hcs c rfl
          simp only [takes, Bool.or_eq_false_iff, beq_eq_false_iff_ne] at hc
          rw [chars, List.singleton_append, pieces?]
          · simp only [hc.2, Bool.false_eq_true, if_false]
            rfl
          · exact hc.1.1
          · exact hc.1.2
  | escape c hc =>
      rcases hc with rfl | rfl
      · rw [chars, List.cons_append, List.singleton_append, pieces?]
        rfl
      · rw [chars, List.cons_append, List.singleton_append, pieces?]
        rfl
  | var name =>
      rw [chars, List.cons_append, Word.chars, List.cons_append, pieces?]
      · simp only [name.starts, if_true, takeWhile_run name.continues hcs,
          dropWhile_run name.continues hcs]
        congr
        funext read
        simp [piece, Word.text, Word.chars, Nat.add_assoc, Nat.add_comm]
      · exact ne_of_isNameStart name.starts rfl
      · exact ne_of_isNameStart name.starts rfl

theorem pieces?_spelling {items : List Item} (h : Apart items) (rest : List Char) :
    pieces? (spelling items ++ rest) = some (items.map piece, (spelling items).length) := by
  induction items with
  | nil =>
      rw [spelling, List.singleton_append, pieces?]
      rfl
  | cons item others ih =>
      rcases h with ⟨hhead, hothers⟩
      have hnext : ∀ c ∈ (spelling others ++ rest).head?, item.takes c = false := by
        rcases spelling_eq_cons others with ⟨c, cs, hcs⟩
        rw [hcs] at hhead ⊢
        exact hhead
      rw [spelling, List.append_assoc, pieces?_item item hnext, ih hothers]
      simp [Nat.add_comm]

/-!
# What is read are items

What is read as pieces are items that keep apart.
-/

/-- The characters start with items that keep apart, read as the pieces. -/
def Read (cs : List Char) (ps : List Piece) (taken : Nat) : Prop :=
  ∃ items rest, Apart items ∧ cs = spelling items ++ rest ∧ ps = items.map piece ∧
    taken = (spelling items).length

theorem Read.cons {cs : List Char} {ps : List Piece} {taken : Nat} (h : Read cs ps taken)
    (item : Item) (hapart : ∀ c ∈ cs.head?, item.takes c = false) :
    Read (item.chars ++ cs) (item.piece :: ps) (taken + item.chars.length) := by
  rcases h with ⟨items, rest, hitems, rfl, rfl, rfl⟩
  refine ⟨item :: items, rest, ⟨?_, hitems⟩, ?_, rfl, ?_⟩
  · intro c hc
    apply hapart c
    rcases spelling_eq_cons items with ⟨d, ds, hds⟩
    rw [hds] at hc ⊢
    exact hc
  · rw [spelling, List.append_assoc]
  · rw [spelling, List.length_append, Nat.add_comm]

theorem read_of_pieces? {cs : List Char} {ps : List Piece} {taken : Nat}
    (h : pieces? cs = some (ps, taken)) : Read cs ps taken := by
  fun_induction pieces? cs generalizing ps taken with
  | case1 => cases h
  | case2 tail =>
      cases h
      exact ⟨[], tail, trivial, rfl, rfl, rfl⟩
  | case3 cs ih =>
      rcases Option.map_eq_some_iff.mp h with ⟨⟨qs, n⟩, hqs, heq⟩
      cases heq
      exact (ih hqs).cons (.escape '$' (Or.inl rfl)) fun _ _ => rfl
  | case4 cs ih =>
      rcases Option.map_eq_some_iff.mp h with ⟨⟨qs, n⟩, hqs, heq⟩
      cases heq
      exact (ih hqs).cons (.escape '"' (Or.inr rfl)) fun _ _ => rfl
  | case5 c cs hdollar hquote hstart name =>
      rename_i ih
      rcases Option.map_eq_some_iff.mp h with ⟨⟨qs, n⟩, hqs, heq⟩
      cases heq
      let word : Word := ⟨c, cs.takeWhile isNameChar, hstart, of_mem_takeWhile⟩
      have hread := (ih hqs).cons (.var word) of_head?_dropWhile
      have hspelled : (var word).chars ++ cs.dropWhile isNameChar = '$' :: c :: cs := by
        simp [chars, Word.chars, word]
      have htaken : n + 1 + name.length = n + (var word).chars.length :=
        Nat.add_right_comm n 1 name.length
      rw [hspelled] at hread
      rw [htaken]
      exact hread
  | case6 c cs hdollar hquote hstart ih =>
      rcases Option.map_eq_some_iff.mp h with ⟨⟨qs, n⟩, hqs, heq⟩
      cases heq
      refine (ih hqs).cons .dollar ?_
      intro d hd
      cases hd
      have hplain : c ≠ '$' ∧ c ≠ '"' := ⟨hdollar, hquote⟩
      simp [takes, hplain, hstart]
  | case7 c cs hquote hdollar hescape hname ih =>
      rcases Option.map_eq_some_iff.mp h with ⟨⟨qs, n⟩, hqs, heq⟩
      cases heq
      -- a dollar sign gets here only at the very end, where the literal is not closed
      have hplain : c ≠ '$' := by
        intro hc
        cases cs with
        | nil => simp [pieces?] at hqs
        | cons d ds => exact hname d ds hc rfl
      exact (ih hqs).cons (.plain c ⟨hquote, hplain⟩) fun _ _ => rfl

end Item

/-!
# Tokens of literals

Items that stand for characters make one text, up to the next variable.
-/

namespace Segment

theorem foldr_prepend {segments : List Segment} (h : ∀ s rest, segments ≠ .text s :: rest)
    (cs : List Char) :
    cs.foldr prepend segments =
      if cs.isEmpty then segments else .text (String.ofList cs) :: segments := by
  induction cs with
  | nil => rfl
  | cons c more ih =>
      rw [List.foldr_cons, ih]
      cases more with
      | nil =>
          unfold prepend
          split
          · next s rest heq => exact absurd heq (h s rest)
          · rfl
      | cons d ds => simp [prepend]

theorem segmentsFrom_piece (pending : List Char) (items : List Item) :
    segmentsFrom pending (items.map Item.piece) =
      pending.reverse.foldr prepend (ofItems items) := by
  induction items generalizing pending with
  | nil =>
      rw [List.map_nil, segmentsFrom, ofItems, foldr_prepend (by simp), List.isEmpty_reverse]
  | cons item rest ih =>
      rw [List.map_cons]
      cases item with
      | plain c hc =>
          rw [Item.piece, segmentsFrom, ih, ofItems, List.reverse_cons, List.foldr_append]
          rfl
      | dollar =>
          rw [Item.piece, segmentsFrom, ih, ofItems, List.reverse_cons, List.foldr_append]
          rfl
      | escape c hc =>
          rw [Item.piece, segmentsFrom, ih, ofItems, List.reverse_cons, List.foldr_append]
          rfl
      | var name =>
          have hvar : ∀ s more, .var name.text :: ofItems rest ≠ .text s :: more := by simp
          rw [Item.piece, segmentsFrom, ih, ofItems, foldr_prepend hvar, List.isEmpty_reverse]
          rfl

end Segment

theorem plain?_piece (items : List Item) :
    plain? (items.map Item.piece) = items.mapM Item.char? := by
  induction items with
  | nil => rfl
  | cons item rest ih =>
      cases item with
      | plain c hc =>
          rw [List.map_cons, Item.piece, plain?, ih, List.mapM_cons, Option.map_eq_bind]
          rfl
      | dollar =>
          rw [List.map_cons, Item.piece, plain?, ih, List.mapM_cons, Option.map_eq_bind]
          rfl
      | escape c hc =>
          rw [List.map_cons, Item.piece, plain?, ih, List.mapM_cons, Option.map_eq_bind]
          rfl
      | var name =>
          rw [List.map_cons, Item.piece, plain?, List.mapM_cons]
          rfl

theorem Literal.token_eq (l : Literal) : l.token = ofPieces (l.items.map Item.piece) := by
  unfold Literal.token ofPieces
  rw [plain?_piece, Segment.segmentsFrom_piece]
  rfl

end Blockwise
