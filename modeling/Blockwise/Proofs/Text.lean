import Blockwise.Text

/-!
# Texts cut, trimmed and split into lines

What the operations on texts do, said without the order in which they look at characters.  A cut
is at the first mark, trimming does not see blanks at the ends, and rows written one after another
with line ends between them are read as these lines again.
-/

namespace Blockwise
namespace Text

variable {mark : Char} {cs before after row : List Char} {rows : List (List Char)}

/-!
# Cuts

The part before a cut has no mark in it.
-/

theorem cut?_append (h : mark ∉ before) : cut? mark (before ++ mark :: after) =
    some (before, after) := by
  induction before with
  | nil => simp [cut?]
  | cons c more ih =>
      rw [List.mem_cons, not_or] at h
      rw [List.cons_append, cut?, if_neg (Ne.symm h.1), ih h.2]
      rfl

theorem cut?_eq_none_iff : cut? mark cs = none ↔ mark ∉ cs := by
  induction cs with
  | nil => simp [cut?]
  | cons c more ih =>
      rw [cut?, List.mem_cons, not_or, ← ih]
      split
      · next h => simp [h]
      · next h => simp [Ne.symm h]

theorem cut?_eq_some_iff :
    cut? mark cs = some (before, after) ↔ mark ∉ before ∧ cs = before ++ mark :: after := by
  constructor
  · intro h
    refine ⟨?_, eq_of_cut? h⟩
    induction cs generalizing before with
    | nil => cases h
    | cons c more ih =>
        unfold cut? at h
        split at h
        · cases h
          exact List.not_mem_nil
        · next hne =>
            rcases Option.map_eq_some_iff.mp h with ⟨⟨earlier, later⟩, hcut, hparts⟩
            cases hparts
            rw [List.mem_cons, not_or]
            exact ⟨Ne.symm hne, ih hcut⟩
  · intro hgiven
    rcases hgiven with ⟨hmark, rfl⟩
    exact cut?_append hmark

/-!
# Trimming

A text that trimming leaves alone has no blank at either end, and a blank at the end of any other
text makes no difference.
-/

theorem dropWhile_isBlank (h : ∀ c ∈ cs.head?, isBlank c = false) : cs.dropWhile isBlank = cs := by
  cases cs with
  | nil => rfl
  | cons c more => rw [List.dropWhile_cons_of_neg (by simp [h c rfl])]

theorem trimmed_eq_self (hstart : ∀ c ∈ cs.head?, isBlank c = false)
    (hend : ∀ c ∈ cs.getLast?, isBlank c = false) : trimmed cs = cs := by
  rw [← List.head?_reverse] at hend
  rw [trimmed, trimStart, dropWhile_isBlank hstart, trimEnd, dropWhile_isBlank hend,
    List.reverse_reverse]

theorem head?_of_dropWhile (h : cs.dropWhile isBlank = cs) :
    ∀ c ∈ cs.head?, isBlank c = false := by
  intro c hc
  cases cs with
  | nil => cases hc
  | cons d more =>
      cases hc
      rw [Bool.eq_false_iff]
      intro hblank
      have hshorter := length_dropWhile_le isBlank more
      rw [List.dropWhile_cons_of_pos hblank] at h
      rw [h, List.length_cons] at hshorter
      omega

theorem length_trimEnd_le (cs : List Char) : (trimEnd cs).length ≤ cs.length := by
  have hshorter := length_dropWhile_le isBlank cs.reverse
  rwa [List.length_reverse, ← List.length_reverse] at hshorter

theorem head?_of_trimmed (h : trimmed cs = cs) : ∀ c ∈ cs.head?, isBlank c = false := by
  apply head?_of_dropWhile
  apply (List.dropWhile_sublist isBlank).eq_of_length_le
  have hlength := length_trimEnd_le (trimStart cs)
  rw [← trimmed, h] at hlength
  exact hlength

theorem getLast?_of_trimEnd (h : trimEnd cs = cs) : ∀ c ∈ cs.getLast?, isBlank c = false := by
  rw [← List.head?_reverse]
  exact head?_of_dropWhile (List.reverse_eq_iff.mp h)

theorem trimmed_append_blank {c : Char} (h : isBlank c = true) :
    trimmed (cs ++ [c]) = trimmed cs := by
  have hend : ∀ ds, trimEnd (ds ++ [c]) = trimEnd ds := by
    intro ds
    rw [trimEnd, List.reverse_append, List.reverse_singleton, List.singleton_append,
      List.dropWhile_cons_of_pos h]
    rfl
  rw [trimmed, trimStart, List.dropWhile_append]
  split
  · next hempty =>
      rw [List.isEmpty_iff] at hempty
      rw [List.dropWhile_cons_of_pos h, trimmed, trimStart, hempty]
      rfl
  · exact hend _

theorem trimmed_dropReturn (row : List Char) : trimmed (dropReturn row) = trimmed row := by
  unfold dropReturn
  split
  · next rest hrow =>
      have hreturn : row = rest.reverse ++ ['\r'] := by
        rw [← List.reverse_reverse row, hrow, List.reverse_cons]
      rw [hreturn, trimmed_append_blank (by decide)]
  · rfl

/-!
# Rows as lines

Rows are laid out with a line end after each of them, which may have a carriage return before its
line feed; the last row needs none.
-/

inductive Lays : List (List Char) → List Char → Prop where
  | none : Lays [] []
  | last {row : List Char} : row ≠ [] → '\n' ∉ row → Lays [row] row
  | row {row ending cs : List Char} {rows : List (List Char)} :
      '\n' ∉ row → ending = ['\n'] ∨ ending = ['\r', '\n'] → Lays rows cs →
      Lays (row :: rows) (row ++ ending ++ cs)

theorem linesFrom_row {pending : List Char} (h : '\n' ∉ row) :
    linesFrom pending (row ++ '\n' :: cs) =
      dropReturn (pending.reverse ++ row) :: linesFrom [] cs := by
  induction row generalizing pending with
  | nil => rw [List.nil_append, linesFrom, List.append_nil]
  | cons c more ih =>
      rw [List.mem_cons, not_or] at h
      rw [List.cons_append, linesFrom, ih h.2, List.reverse_cons, List.append_assoc,
        List.singleton_append]
      exact Ne.symm h.1

theorem linesFrom_last {pending : List Char} (h : '\n' ∉ row) (hsome : pending ≠ [] ∨ row ≠ []) :
    linesFrom pending row = [pending.reverse ++ row] := by
  induction row generalizing pending with
  | nil =>
      have hpending : pending ≠ [] := hsome.resolve_right fun hne => hne rfl
      rw [linesFrom, if_neg (by simpa using hpending), List.append_nil]
  | cons c more ih =>
      rw [List.mem_cons, not_or] at h
      rw [linesFrom, ih h.2 (Or.inl (by simp)), List.reverse_cons, List.append_assoc,
        List.singleton_append]
      exact Ne.symm h.1

theorem dropReturn_return (row : List Char) : dropReturn (row ++ ['\r']) = row := by
  rw [dropReturn, List.reverse_append, List.reverse_singleton, List.singleton_append]
  exact List.reverse_reverse row

theorem linesFrom_return (h : '\n' ∉ row) :
    linesFrom [] (row ++ '\r' :: '\n' :: cs) = row :: linesFrom [] cs := by
  have hreturn : '\n' ∉ row ++ ['\r'] := by simp [h]
  rw [List.append_cons, linesFrom_row hreturn, List.reverse_nil, List.nil_append, dropReturn_return]

/-- A carriage return before a line feed is no part of the line. -/
theorem lines_return {line rest : String} (h : '\n' ∉ line.toList) :
    lines (line ++ "\r\n" ++ rest) = line :: lines rest := by
  have htext : (line ++ "\r\n" ++ rest).toList = line.toList ++ '\r' :: '\n' :: rest.toList := by
    simp
  rw [lines, htext, linesFrom_return h, List.map_cons, String.ofList_toList, lines]

example : lines "Ada\r\n" = ["Ada"] := by decide

/-- Up to blanks at their ends, the lines of a text are the rows it was written with. -/
theorem Lays.trimmed_linesFrom (h : Lays rows cs) :
    (linesFrom [] cs).map trimmed = rows.map trimmed := by
  induction h with
  | none => rfl
  | last hsome hbreak => rw [linesFrom_last hbreak (Or.inr hsome)]; rfl
  | @row row ending cs rows hbreak hending _ ih =>
      rcases hending with rfl | rfl
      · rw [List.append_assoc, List.singleton_append, linesFrom_row hbreak, List.map_cons, ih,
          List.reverse_nil, List.nil_append, trimmed_dropReturn]
        rfl
      · rw [List.append_assoc, List.cons_append, List.singleton_append, linesFrom_return hbreak,
          List.map_cons, ih]
        rfl

end Text
end Blockwise
