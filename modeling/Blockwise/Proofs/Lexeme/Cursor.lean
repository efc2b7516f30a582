import Blockwise.Proofs.Cursor
import Blockwise.Proofs.Lexeme.Exactness

/-!
# Reading tokens with a cursor

The lexer as a program that moves a cursor over the characters of a source, with a procedure for
each of its loops.  It looks at the character under the cursor, which is the null character behind
the end, and it advances without asking whether there is a character to advance over.  Every loop
moves on, no advance is past the end, and what comes out is what `Lexer.tokens` reads.
-/

namespace Blockwise
namespace LexerCursor

open Lexer Cursor Cursor.Routine

/-!
# The program

There is a procedure for each loop, and it has what was found before as its argument.  A character
that starts a token is followed by the rest of it.
-/

inductive Procedure where
  | tokens (found : List PlacedToken)
  | blanks
  | token
  | many (belongs : Char → Bool) (found : List Char)
  | literal (column : Nat) (segments : List Segment) (text : String)

def Procedure.Result : Procedure → Type
  | tokens _ => List PlacedToken
  | blanks => Unit
  | token => PlacedToken
  | many .. => List Char
  | literal .. => Token

abbrev Code (α : Type) :=
  Routine Procedure.Result Char Cause α

def peek : Code Char := do
  if ← isInside 0 then symbol else pure '\x00'

def advance : Code Char := do
  let c ← symbol
  step
  pure c

def column : Code Nat := do
  let before ← position
  pure (before + 1)

def readTokens (found : List PlacedToken) : Code (List PlacedToken) :=
  run (Procedure.tokens found)

def skipBlanks : Code Unit :=
  run Procedure.blanks

def readToken : Code PlacedToken :=
  run Procedure.token

def readMany (belongs : Char → Bool) (found : List Char) : Code (List Char) :=
  run (Procedure.many belongs found)

def readLiteral (column : Nat) (segments : List Segment) (text : String) : Code Token :=
  run (Procedure.literal column segments text)

def comparison (short long : Symbol) : Code Token := do
  if (← peek) = '=' then
    let _ ← advance
    pure (.symbol long)
  else pure (.symbol short)

def exclamation : Code Token := do
  if (← peek) = '=' then
    let _ ← advance
    pure (.symbol .notEqual)
  else if ← isInside 0 then throw (.unexpectedChar (← peek) (← column))
  else throw (.unexpectedChar '!' (← column))

def close (whole fraction : List Char) : Code Token := do
  if isNameStart (← peek) then throw (.nameAfterNumber (← column))
  else pure (.number (Number.ofLiteral whole fraction))

def number (first : Char) : Code Token := do
  let whole ← readMany Char.isDigit [first]
  if (← peek) = '.' then
    let _ ← advance
    if (← peek).isDigit then
      let fraction ← readMany Char.isDigit []
      close whole fraction
    else throw (.badNumberLiteral (String.ofList (whole ++ ['.'])) (← column))
  else close whole []

def word (first : Char) : Code Token := do
  let name ← readMany isNameChar [first]
  pure (Token.ofWord (String.ofList name))

def tokenFrom (column : Nat) (first : Char) : Code Token :=
  match first with
  | '+' => pure (.symbol .plus)
  | '-' => pure (.symbol .minus)
  | '*' => pure (.symbol .star)
  | '/' => pure (.symbol .slash)
  | '%' => pure (.symbol .percent)
  | '^' => pure (.symbol .caret)
  | '(' => pure (.symbol .openParen)
  | ')' => pure (.symbol .closeParen)
  | ',' => pure (.symbol .comma)
  | '=' => comparison .assign .equal
  | '>' => comparison .greater .greaterEqual
  | '<' => comparison .less .lessEqual
  | '!' => exclamation
  | '"' => readLiteral column [] ""
  | c =>
      if c.isDigit then number c
      else if isNameStart c then word c
      else throw (.unexpectedChar c column)

def isSome : Segment → Bool
  | .text s => s ≠ ""
  | .var _ => true

def join (segments : List Segment) (text : String) : Token :=
  if segments = [] then .string text
  else .template ((segments ++ [Segment.text text]).filter isSome)

def dollar (column : Nat) (segments : List Segment) (text : String) : Code Token := do
  let c ← peek
  if c = '$' ∨ c = '"' then
    let c ← advance
    readLiteral column segments (text.push c)
  else if isNameStart c then
    let first ← advance
    let name ← readMany isNameChar [first]
    readLiteral column (segments ++ [.text text, .var (String.ofList name)]) ""
  else readLiteral column segments (text.push '$')

def literalFrom (column : Nat) (segments : List Segment) (text : String) (first : Char) :
    Code Token :=
  match first with
  | '"' => pure (join segments text)
  | '$' => dollar column segments text
  | c => readLiteral column segments (text.push c)

def nextToken (found : List PlacedToken) : Code (List PlacedToken) := do
  if ← isInside 0 then
    let t ← readToken
    readTokens (found ++ [t])
  else pure (found ++ [⟨.endOfInput, ← column⟩])

def tokensBody (found : List PlacedToken) : Code (List PlacedToken) := do
  skipBlanks
  nextToken found

def blanksBody : Code Unit := do
  if ← isInside 0 then
    if Text.isBlank (← peek) then
      let _ ← advance
      skipBlanks
    else pure ()
  else pure ()

def tokenBody : Code PlacedToken := do
  let column ← column
  let c ← advance
  let token ← tokenFrom column c
  pure ⟨token, column⟩

def manyBody (belongs : Char → Bool) (found : List Char) : Code (List Char) := do
  if belongs (← peek) then
    let c ← advance
    readMany belongs (found ++ [c])
  else pure found

def literalBody (column : Nat) (segments : List Segment) (text : String) : Code Token := do
  if ← isInside 0 then
    let c ← advance
    literalFrom column segments text c
  else throw (.openString column)

def body : (p : Procedure) → Code p.Result
  | .tokens found => tokensBody found
  | .blanks => blanksBody
  | .token => tokenBody
  | .many belongs found => manyBody belongs found
  | .literal column segments text => literalBody column segments text

abbrev program : Cursor.Program Char Cause :=
  ⟨Procedure, Procedure.Result, body⟩

/-!
# Contracts

A contract says what a procedure finds with the cursor at a position: what the lexer of the model
finds in the characters from there on.
-/

def joinPieces (segments : List Segment) (text : String) : List Piece → Token
  | [] => join segments text
  | .char c :: ps => joinPieces segments (text.push c) ps
  | .var name :: ps => joinPieces (segments ++ [.text text, .var name]) "" ps

def placed (column : Nat) (p : Token × Nat) : PlacedToken × Nat :=
  (⟨p.1, column⟩, column + p.2)

def literalOutcome (column : Nat) (segments : List Segment) (text : String) (position : Nat)
    (cs : List Char) : Except Cause (Token × Nat) :=
  match pieces? cs with
  | some (ps, taken) => .ok (joinPieces segments text ps, position + taken)
  | none => .error (.openString column)

/-- What a procedure finds with the cursor at a position. -/
def Finds (input : List Char) :
    (p : Procedure) → (position : Nat) → Except Cause (p.Result × Nat) → Prop
  | .tokens found, position, (outcome : Except Cause (List PlacedToken × Nat)) =>
      outcome = (scan (position + 1) (input.drop position)).map fun ts =>
        (found ++ ts, input.length)
  | .blanks, position, (outcome : Except Cause (Unit × Nat)) =>
      outcome = .ok ((), position + ((input.drop position).takeWhile Text.isBlank).length)
  | .token, position, (outcome : Except Cause (PlacedToken × Nat)) =>
      ∀ c cs, input.drop position = c :: cs →
        outcome = (start (position + 1) c cs).map (placed (position + 1))
  | .many belongs found, position, (outcome : Except Cause (List Char × Nat)) =>
      outcome = .ok (found ++ (input.drop position).takeWhile belongs,
        position + ((input.drop position).takeWhile belongs).length)
  | .literal column segments text, position, (outcome : Except Cause (Token × Nat)) =>
      outcome = literalOutcome column segments text position (input.drop position)

def height : Procedure → Nat
  | .tokens _ => 1
  | _ => 0

def contract (input : List Char) : Cursor.Contract program where
  height := height
  bound := input.length + 1
  Accepts
    | .token, position => position < input.length
    -- The loop would run past the end with a class that the null character is in.
    | .many belongs _, _ => belongs '\x00' = false
    | _, _ => True
  Outcome := Finds input

variable {input cs : List Char} {c : Char} {position : Nat} {caller : Cursor.Call program}
  {α : Type} {belongs : Char → Bool} {found : List Char}

theorem drop_takeWhile (belongs : Char → Bool) (h : input.drop position = cs) :
    input.drop (position + (cs.takeWhile belongs).length) = cs.dropWhile belongs := by
  rw [← List.drop_drop, h]
  nth_rewrite 2 [← List.takeWhile_append_dropWhile (p := belongs) (l := cs)]
  exact List.drop_left

theorem meets_inside (h : input.drop position = cs) {Promised : Except Cause (Bool × Nat) → Prop} :
    (contract input).Meets input caller (isInside 0) position Promised ↔
      Promised (.ok (!cs.isEmpty, position)) := by
  rw [Contract.meets_isInside, ← h, Nat.add_zero]
  have hinside : decide (position < input.length) = !(input.drop position).isEmpty := by
    rw [Bool.eq_iff_iff]
    simp
  rw [hinside]

theorem meets_peek (h : input.drop position = cs) {Promised : Except Cause (Char × Nat) → Prop} :
    (contract input).Meets input caller peek position Promised ↔
      Promised (.ok (cs.headD '\x00', position)) := by
  unfold peek
  rw [Contract.meets_bind, meets_inside h, Contract.before_ok]
  cases cs with
  | nil => rfl
  | cons c cs => exact Contract.meets_symbol (getElem?_of_drop h)

theorem meets_advance (h : input.drop position = c :: cs)
    {Promised : Except Cause (Char × Nat) → Prop} :
    (contract input).Meets input caller advance position Promised ↔
      Promised (.ok (c, position + 1)) := by
  have hbound : position + 1 < (contract input).bound := by
    have hlt := lt_length_of_drop h
    change position + 1 < input.length + 1
    omega
  unfold advance
  rw [Contract.meets_bind, Contract.meets_symbol (getElem?_of_drop h), Contract.before_ok,
    Contract.meets_bind, Contract.meets_step hbound, Contract.before_ok, Contract.meets_pure]

theorem meets_column {Promised : Except Cause (Nat × Nat) → Prop} :
    (contract input).Meets input caller column position Promised ↔
      Promised (.ok (position + 1, position)) := Iff.rfl

theorem meets_readMany (h : input.drop position = cs) (hdeeper : caller.2 < position)
    (hbelongs : belongs '\x00' = false) {Promised : Except Cause (List Char × Nat) → Prop}
    (hfound : Promised (.ok (found ++ cs.takeWhile belongs,
      position + (cs.takeWhile belongs).length))) :
    (contract input).Meets input caller (readMany belongs found) position Promised := by
  subst h
  exact Contract.meets_run_of_eq (Or.inl hdeeper) hbelongs (fun _ houtcome => houtcome) hfound

/-!
# Single tokens

A token is read behind its first character, and says how many characters it takes.
-/

def onward (position : Nat) (p : Token × Nat) : Token × Nat :=
  (p.1, position + p.2)

def Continues (input : List Char) (caller : Cursor.Call program) (position : Nat)
    (code : Code Token) (expected : Except Cause (Token × Nat)) : Prop :=
  ∀ Promised : Except Cause (Token × Nat) → Prop,
    Promised (expected.map (onward position)) →
    (contract input).Meets input caller code position Promised

theorem eq_cons_of_headD (h : cs.headD '\x00' = c) (hc : c ≠ '\x00') : ∃ more, cs = c :: more := by
  cases cs with
  | nil => exact absurd h.symm hc
  | cons d more =>
      rw [List.headD_cons] at h
      rw [h]
      exact ⟨more, rfl⟩

theorem isEmpty_takeWhile (hbelongs : belongs '\x00' = false) :
    (cs.takeWhile belongs).isEmpty = !belongs (cs.headD '\x00') := by
  cases cs with
  | nil => rw [List.headD_nil, hbelongs]; rfl
  | cons c more =>
      rw [List.headD_cons, List.takeWhile_cons]
      cases belongs c <;> rfl

theorem continues_comparison (h : input.drop position = cs) (short long : Symbol) :
    Continues input caller position (comparison short long)
      (.ok (startComparison short long cs)) := by
  intro Promised hpromised
  unfold comparison
  rw [Contract.meets_bind, meets_peek h, Contract.before_ok]
  unfold startComparison at hpromised
  split at hpromised
  · rw [List.headD_cons, if_pos rfl, Contract.meets_bind, meets_advance h]
    exact hpromised
  · next hother =>
      rw [if_neg]
      · exact hpromised
      · intro hequal
        rcases eq_cons_of_headD hequal (by decide) with ⟨more, hcons⟩
        exact hother more hcons

theorem start_exclamation {column : Nat} (h : c ≠ '=') :
    start column '!' (c :: cs) = .error (.unexpectedChar c (column + 1)) := by
  simp [start]

theorem continues_exclamation (h : input.drop position = cs) :
    Continues input caller position exclamation (start position '!' cs) := by
  intro Promised hpromised
  unfold exclamation
  rw [Contract.meets_bind, meets_peek h, Contract.before_ok]
  cases cs with
  | nil =>
      rw [List.headD_nil, if_neg (by decide), Contract.meets_bind, meets_inside h]
      exact hpromised
  | cons c cs =>
      rw [List.headD_cons]
      split
      · next hequal =>
          rw [hequal] at h hpromised
          rw [Contract.meets_bind, meets_advance h]
          exact hpromised
      · next hother =>
          rw [Contract.meets_bind, meets_inside h, Contract.before_ok]
          change (contract input).Meets input caller
            (do throw (.unexpectedChar (← peek) (← column))) position Promised
          rw [start_exclamation hother] at hpromised
          rw [Contract.meets_bind, meets_peek h]
          exact hpromised

theorem meets_close {taken : Nat} (h : input.drop (position + taken) = cs)
    (whole fraction : List Char) {Promised : Except Cause (Token × Nat) → Prop}
    (hpromised : Promised (Except.map (onward position)
      (if cs.head?.any isNameStart then .error (.nameAfterNumber (position + 1 + taken))
      else .ok (.number (Number.ofLiteral whole fraction), taken)))) :
    (contract input).Meets input caller (close whole fraction) (position + taken) Promised := by
  have hname : cs.head?.any isNameStart = isNameStart (cs.headD '\x00') := by
    cases cs <;> rfl
  rw [hname] at hpromised
  unfold close
  rw [Contract.meets_bind, meets_peek h, Contract.before_ok]
  split
  · next hstart =>
      rw [if_pos hstart, Nat.add_right_comm] at hpromised
      exact hpromised
  · next hstart =>
      rw [if_neg hstart] at hpromised
      exact hpromised

theorem continues_number (h : input.drop position = cs) (hentered : caller.2 < position) :
    Continues input caller position (number c) (startNumber position c cs) := by
  intro Promised hpromised
  have hdigits : Char.isDigit '\x00' = false := by decide
  have hafter := drop_takeWhile Char.isDigit h
  unfold number
  rw [Contract.meets_bind]
  refine meets_readMany h hentered hdigits ?_
  rw [Contract.before_ok, Contract.meets_bind, meets_peek hafter, Contract.before_ok]
  unfold startNumber at hpromised
  split at hpromised
  · next more hrest =>
      rw [hrest] at hafter
      have hpoint := drop_succ hafter
      dsimp only at hpromised
      rw [hrest, List.headD_cons, if_pos rfl, Contract.meets_bind, meets_advance hafter,
        Contract.before_ok, Contract.meets_bind, meets_peek hpoint, Contract.before_ok]
      split
      · next hdigit =>
          have hplace : position + (cs.takeWhile Char.isDigit).length + 1 +
              (more.takeWhile Char.isDigit).length =
              position + ((c :: cs.takeWhile Char.isDigit).length +
                (more.takeWhile Char.isDigit).length) := by
            rw [List.length_cons]
            omega
          have hend := drop_takeWhile Char.isDigit hpoint
          rw [hplace] at hend
          rw [Contract.meets_bind]
          refine meets_readMany hpoint (by omega) hdigits ?_
          rw [Contract.before_ok, hplace]
          rw [isEmpty_takeWhile hdigits, hdigit, Bool.not_true, if_neg Bool.false_ne_true]
            at hpromised
          exact meets_close hend _ _ hpromised
      · next hdigit =>
          rw [isEmpty_takeWhile hdigits, Bool.eq_false_of_not_eq_true hdigit, Bool.not_false,
            if_pos rfl] at hpromised
          exact hpromised
  · next hnone =>
      rw [if_neg]
      · exact meets_close hafter _ _ hpromised
      · intro hpoint
        rcases eq_cons_of_headD hpoint (by decide) with ⟨more, hcons⟩
        exact hnone more hcons

theorem continues_word (h : input.drop position = cs) (hentered : caller.2 < position) :
    Continues input caller position (word c) (.ok (startWord c cs)) := by
  intro Promised hpromised
  unfold word
  rw [Contract.meets_bind]
  exact meets_readMany h hentered (by decide) hpromised

theorem meets_readLiteral (h : input.drop position = cs) (hentered : caller.2 < position)
    {column : Nat} {segments : List Segment} {text : String}
    {Promised : Except Cause (Token × Nat) → Prop}
    (hpromised : Promised (literalOutcome column segments text position cs)) :
    (contract input).Meets input caller (readLiteral column segments text) position Promised := by
  subst h
  exact Contract.meets_run_of_eq (Or.inl hentered) trivial (fun _ houtcome => houtcome) hpromised

/-!
# Literals

The inside of a literal is read piece by piece, with the segments before and the text after the last
of them.
-/

theorem filter_isSome_text (text : String) (more : List Segment) :
    [.text text].filter isSome ++ more =
      if text.toList.reverse.isEmpty then more
      else .text (String.ofList text.toList.reverse.reverse) :: more := by
  by_cases htext : text = ""
  · subst htext
    rfl
  · have hsome : text.toList.reverse.isEmpty = false := by simp [htext]
    rw [hsome, List.reverse_reverse, String.ofList_toList]
    simp [isSome, htext]

theorem segmentsFrom_var (text name : String) (ps : List Piece) :
    segmentsFrom text.toList.reverse (.var name :: ps) =
      [.text text, .var name].filter isSome ++ segmentsFrom "".toList.reverse ps := by
  have hsplit : [Segment.text text, .var name].filter isSome =
      [.text text].filter isSome ++ [.var name] := by
    rw [← List.singleton_append, List.filter_append]
    rfl
  rw [hsplit, List.append_assoc, filter_isSome_text]
  rfl

theorem joinPieces_of_segments {segments : List Segment} (h : segments ≠ []) (text : String)
    (ps : List Piece) :
    joinPieces segments text ps =
      .template (segments.filter isSome ++ segmentsFrom text.toList.reverse ps) := by
  induction ps generalizing segments text with
  | nil =>
      rw [joinPieces, join, if_neg h, List.filter_append, segmentsFrom, ← filter_isSome_text,
        List.append_nil]
  | cons p ps ih =>
      cases p with
      | char c =>
          rw [joinPieces, ih h, segmentsFrom, String.toList_push, List.reverse_append]
          rfl
      | var name =>
          rw [joinPieces, ih (by simp), segmentsFrom_var, List.filter_append, List.append_assoc]

theorem joinPieces_nil (text : String) (ps : List Piece) :
    joinPieces [] text ps = match plain? ps with
      | some cs => .string (String.ofList (text.toList ++ cs))
      | none => .template (segmentsFrom text.toList.reverse ps) := by
  induction ps generalizing text with
  | nil => simp [joinPieces, join, plain?]
  | cons p ps ih =>
      cases p with
      | char c =>
          rw [joinPieces, ih, plain?, String.toList_push]
          cases plain? ps with
          | none => simp [segmentsFrom]
          | some cs => simp
      | var name =>
          rw [joinPieces, joinPieces_of_segments (by simp), plain?, segmentsFrom_var]
          rfl

theorem joinPieces_eq_ofPieces (ps : List Piece) : joinPieces [] "" ps = ofPieces ps :=
  joinPieces_nil "" ps

variable {segments segments' : List Segment} {text text' : String} {column : Nat}
  {Promised : Except Cause (Token × Nat) → Prop}

theorem literalOutcome_piece {piece : Piece} {taken : Nat} {more : List Char}
    (hread : pieces? cs = (pieces? more).map fun (ps, n) => (piece :: ps, n + taken))
    (hjoin : ∀ ps, joinPieces segments text (piece :: ps) = joinPieces segments' text' ps) :
    literalOutcome column segments text position cs =
      literalOutcome column segments' text' (position + taken) more := by
  unfold literalOutcome
  rw [hread]
  cases pieces? more with
  | none => rfl
  | some p => simp [hjoin, Nat.add_assoc, Nat.add_comm taken]

theorem pieces?_escape {more : List Char} (h : c = '$' ∨ c = '"') :
    pieces? ('$' :: c :: more) = (pieces? more).map fun (ps, n) => (.char c :: ps, n + 2) := by
  rcases h with rfl | rfl <;> rw [pieces?]

theorem pieces?_variable {more : List Char} (h : ¬(c = '$' ∨ c = '"'))
    (hname : isNameStart c = true) :
    pieces? ('$' :: c :: more) =
      (pieces? (more.dropWhile isNameChar)).map fun (ps, n) =>
        (.var (String.ofList (c :: more.takeWhile isNameChar)) :: ps,
          n + (1 + ((more.takeWhile isNameChar).length + 1))) := by
  rw [not_or] at h
  rw [pieces?]
  · simp only [hname, if_true, List.length_cons]
    congr
    funext p
    rw [Nat.add_assoc]
  · exact h.1
  · exact h.2

theorem pieces?_lone {more : List Char} (h : ¬(c = '$' ∨ c = '"'))
    (hname : ¬isNameStart c = true) :
    pieces? ('$' :: c :: more) =
      (pieces? (c :: more)).map fun (ps, n) => (.char '$' :: ps, n + 1) := by
  rw [not_or] at h
  rw [pieces?]
  · rw [if_neg hname]
  · exact h.1
  · exact h.2

theorem meets_dollar (h : input.drop position = '$' :: cs) (hentered : caller.2 ≤ position)
    (hpromised : Promised (literalOutcome column segments text position ('$' :: cs))) :
    (contract input).Meets input caller (dollar column segments text) (position + 1) Promised := by
  have hnext := drop_succ h
  unfold dollar
  rw [Contract.meets_bind, meets_peek hnext, Contract.before_ok]
  cases cs with
  | nil =>
      rw [List.headD_nil, if_neg (by decide), if_neg (by decide)]
      apply meets_readLiteral hnext (by omega)
      have hread : pieces? ['$'] = (pieces? []).map fun (ps, n) => (.char '$' :: ps, n + 1) := by
        simp [pieces?]
      rwa [literalOutcome_piece hread fun _ => rfl] at hpromised
  | cons c more =>
      rw [List.headD_cons]
      split
      · next hmark =>
          rw [Contract.meets_bind, meets_advance hnext]
          apply meets_readLiteral (drop_succ hnext) (by omega)
          rwa [literalOutcome_piece (pieces?_escape hmark) fun _ => rfl] at hpromised
      · next hmark =>
          split
          · next hname =>
              rw [Contract.meets_bind, meets_advance hnext, Contract.before_ok, Contract.meets_bind]
              apply meets_readMany (drop_succ hnext) (by omega) (by decide)
              apply meets_readLiteral (drop_takeWhile isNameChar (drop_succ hnext)) (by omega)
              have hplace : position + (1 + ((more.takeWhile isNameChar).length + 1)) =
                  position + 1 + 1 + (more.takeWhile isNameChar).length := by omega
              rwa [literalOutcome_piece (pieces?_variable hmark hname) fun _ => rfl, hplace]
                at hpromised
          · next hname =>
              apply meets_readLiteral hnext (by omega)
              rwa [literalOutcome_piece (pieces?_lone hmark hname) fun _ => rfl] at hpromised

theorem meets_literalFrom (h : input.drop position = c :: cs) (hentered : caller.2 ≤ position)
    (hpromised : Promised (literalOutcome column segments text position (c :: cs))) :
    (contract input).Meets input caller (literalFrom column segments text c) (position + 1)
      Promised := by
  unfold literalFrom
  split
  · rw [literalOutcome, pieces?] at hpromised
    exact hpromised
  · exact meets_dollar h hentered hpromised
  · next hquote hdollar =>
      have hread : pieces? (c :: cs) =
          (pieces? cs).map fun (ps, n) => (.char c :: ps, n + 1) := by
        rw [pieces?]
        · exact hquote
        · exact fun _ hc => absurd hc hdollar
        · exact fun _ hc => absurd hc hdollar
        · exact fun _ _ hc => absurd hc hdollar
      rw [literalOutcome_piece hread fun _ => rfl] at hpromised
      exact meets_readLiteral (drop_succ h) (by omega) hpromised

/-!
# Every procedure keeps its contract

Reading the source with a cursor comes to what the lexer of the model comes to.  No call leads back
to a loop before the cursor has moved on.
-/

theorem continues_tokenFrom (h : input.drop position = cs) (hentered : caller.2 < position)
    (c : Char) : Continues input caller position (tokenFrom position c) (start position c cs) := by
  unfold tokenFrom
  split
  case h_10 => exact continues_comparison h _ _
  case h_11 => exact continues_comparison h _ _
  case h_12 => exact continues_comparison h _ _
  case h_13 => exact continues_exclamation h
  case h_14 =>
    intro Promised hpromised
    apply meets_readLiteral h hentered
    rw [literalOutcome]
    cases hread : pieces? cs with
    | none =>
        rw [start, hread] at hpromised
        exact hpromised
    | some p =>
        rw [start, hread] at hpromised
        simp only [joinPieces_eq_ofPieces]
        exact hpromised
  case h_15 =>
    rw [start]
    · split
      · exact continues_number h hentered
      · split
        · exact continues_word h hentered
        · exact fun _ hpromised => hpromised
    all_goals assumption
  all_goals exact fun _ hpromised => hpromised

theorem meets_many (belongs : Char → Bool) (found : List Char)
    (hbelongs : belongs '\x00' = false) :
    (contract input).Meets input (.many belongs found, position) (manyBody belongs found)
      position fun outcome => outcome = .ok (found ++ (input.drop position).takeWhile belongs,
        position + ((input.drop position).takeWhile belongs).length) := by
  unfold manyBody
  cases h : input.drop position with
  | nil =>
      rw [Contract.meets_bind, meets_peek h, Contract.before_ok, List.headD_nil, hbelongs,
        if_neg Bool.false_ne_true]
      simp
  | cons c cs =>
      rw [Contract.meets_bind, meets_peek h, Contract.before_ok, List.headD_cons]
      split
      · next hc =>
          rw [Contract.meets_bind, meets_advance h, Contract.before_ok]
          apply meets_readMany (drop_succ h) (Nat.lt_succ_self position) hbelongs
          rw [List.takeWhile_cons_of_pos hc, List.length_cons, List.append_assoc,
            List.singleton_append, Nat.add_assoc, Nat.add_comm 1]
      · next hc =>
          rw [List.takeWhile_cons_of_neg hc]
          simp

theorem meets_skipBlanks (h : input.drop position = cs)
    (hdeeper : (contract input).Deeper (.blanks, position) caller)
    {Promised : Except Cause (Unit × Nat) → Prop}
    (hpromised : Promised (.ok ((), position + (cs.takeWhile Text.isBlank).length))) :
    (contract input).Meets input caller skipBlanks position Promised := by
  subst h
  exact Contract.meets_run_of_eq hdeeper trivial (fun _ houtcome => houtcome) hpromised

theorem meets_readToken (h : input.drop position = c :: cs)
    (hdeeper : (contract input).Deeper (.token, position) caller)
    {Promised : Except Cause (PlacedToken × Nat) → Prop}
    (hpromised : Promised ((start (position + 1) c cs).map (placed (position + 1)))) :
    (contract input).Meets input caller readToken position Promised :=
  Contract.meets_run_of_eq hdeeper (lt_length_of_drop h) (fun _ houtcome => houtcome c cs h)
    hpromised

theorem meets_readTokens (h : input.drop position = cs) (hentered : caller.2 < position)
    {found : List PlacedToken} {Promised : Except Cause (List PlacedToken × Nat) → Prop}
    (hpromised : Promised ((scan (position + 1) cs).map fun ts => (found ++ ts, input.length))) :
    (contract input).Meets input caller (readTokens found) position Promised := by
  subst h
  exact Contract.meets_run_of_eq (Or.inl hentered) trivial (fun _ houtcome => houtcome) hpromised

theorem meets_blanks :
    (contract input).Meets input (.blanks, position) blanksBody position fun outcome =>
      outcome = .ok ((), position + ((input.drop position).takeWhile Text.isBlank).length) := by
  unfold blanksBody
  cases h : input.drop position with
  | nil =>
      rw [Contract.meets_bind, meets_inside h]
      exact rfl
  | cons c cs =>
      rw [Contract.meets_bind, meets_inside h, Contract.before_ok]
      change (contract input).Meets input _ (do
        if Text.isBlank (← peek) then do
          let _ ← advance
          skipBlanks
        else pure ()) position _
      rw [Contract.meets_bind, meets_peek h, Contract.before_ok, List.headD_cons]
      split
      · next hc =>
          rw [Contract.meets_bind, meets_advance h, Contract.before_ok]
          apply meets_skipBlanks (drop_succ h) (Or.inl (Nat.lt_succ_self position))
          rw [List.takeWhile_cons_of_pos hc, List.length_cons, Nat.add_assoc, Nat.add_comm 1]
      · next hc =>
          rw [List.takeWhile_cons_of_neg hc]
          exact rfl

theorem meets_literal (column : Nat) (segments : List Segment) (text : String) :
    (contract input).Meets input (.literal column segments text, position)
      (literalBody column segments text) position fun outcome =>
        outcome = literalOutcome column segments text position (input.drop position) := by
  unfold literalBody
  cases h : input.drop position with
  | nil =>
      rw [Contract.meets_bind, meets_inside h, literalOutcome, pieces?]
      exact rfl
  | cons c cs =>
      rw [Contract.meets_bind, meets_inside h, Contract.before_ok]
      change (contract input).Meets input _ (do
        let c ← advance
        literalFrom column segments text c) position _
      rw [Contract.meets_bind, meets_advance h, Contract.before_ok]
      exact meets_literalFrom h (Nat.le_refl _) rfl

theorem meets_token (h : input.drop position = c :: cs) :
    (contract input).Meets input (.token, position) tokenBody position fun outcome =>
      outcome = (start (position + 1) c cs).map (placed (position + 1)) := by
  unfold tokenBody
  rw [Contract.meets_bind, meets_column, Contract.before_ok, Contract.meets_bind,
    meets_advance h, Contract.before_ok, Contract.meets_bind]
  apply continues_tokenFrom (drop_succ h) (Nat.lt_succ_self position)
  cases start (position + 1) c cs <;> exact rfl

theorem scan_dropWhile (column : Nat) (cs : List Char) :
    scan column cs =
      scan (column + (cs.takeWhile Text.isBlank).length) (cs.dropWhile Text.isBlank) := by
  nth_rewrite 1 [← List.takeWhile_append_dropWhile (p := Text.isBlank) (l := cs)]
  exact scan_blanks of_mem_takeWhile

theorem meets_nextToken {found : List PlacedToken} {entered : Nat} (h : input.drop position = cs)
    (hentered : entered ≤ position) (hblank : ∀ c ∈ cs.head?, Text.isBlank c = false)
    (hlength : position + cs.length = input.length) :
    (contract input).Meets input (.tokens found, entered) (nextToken found) position
      fun outcome => outcome = (scan (position + 1) cs).map fun ts =>
        (found ++ ts, input.length) := by
  unfold nextToken
  rw [Contract.meets_bind, meets_inside h, Contract.before_ok]
  cases cs with
  | nil =>
      rw [List.length_nil, Nat.add_zero] at hlength
      rw [scan, ← hlength]
      exact rfl
  | cons c cs =>
      have hdeeper : (contract input).Deeper (.token, position) (.tokens found, entered) := by
        rcases Nat.lt_or_eq_of_le hentered with hlt | hsame
        · exact Or.inl hlt
        · exact Or.inr ⟨hsame, Nat.zero_lt_one⟩
      change (contract input).Meets input _ (do
        let t ← readToken
        readTokens (found ++ [t])) position _
      rw [Contract.meets_bind, scan, hblank c rfl]
      apply meets_readToken h hdeeper
      cases start (position + 1) c cs with
      | error cause => exact rfl
      | ok p =>
          rcases p with ⟨token, taken⟩
          have hnext : input.drop (position + 1 + taken) = cs.drop taken := by
            rw [← List.drop_drop, drop_succ h]
          have hplaced : (Except.ok (token, taken)).map (placed (position + 1)) =
              (.ok (⟨token, position + 1⟩, position + 1 + taken) : Except Cause _) := rfl
          rw [hplaced, Contract.before_ok]
          apply meets_readTokens hnext (Nat.lt_of_le_of_lt hentered (by omega))
          rw [Nat.add_right_comm _ taken 1]
          simp only [Bool.false_eq_true, if_false, bind, Except.bind]
          cases scan (position + 1 + 1 + taken) (cs.drop taken) with
          | error cause => rfl
          | ok ts => simp [Except.map, pure, Except.pure]

theorem meets_tokens (found : List PlacedToken) (hbound : position ≤ input.length) :
    (contract input).Meets input (.tokens found, position) (tokensBody found) position
      fun outcome => outcome = (scan (position + 1) (input.drop position)).map fun ts =>
        (found ++ ts, input.length) := by
  have hdeeper : (contract input).Deeper (.blanks, position) (.tokens found, position) :=
    Or.inr ⟨rfl, Nat.zero_lt_one⟩
  have hlength := congrArg List.length
    (List.takeWhile_append_dropWhile (p := Text.isBlank) (l := input.drop position))
  rw [List.length_append, List.length_drop] at hlength
  unfold tokensBody
  rw [Contract.meets_bind, scan_dropWhile, Nat.add_right_comm]
  apply meets_skipBlanks rfl hdeeper
  exact meets_nextToken (drop_takeWhile Text.isBlank rfl) (Nat.le_add_right _ _)
    of_head?_dropWhile (by omega)

theorem kept (input : List Char) : (contract input).Kept input := by
  intro p position hbound haccepts
  cases p with
  | tokens found => exact meets_tokens found (Nat.le_of_lt_succ hbound)
  | blanks => exact meets_blanks
  | token =>
      refine (meets_token (List.drop_eq_getElem_cons haccepts)).mono ?_
      intro outcome houtcome c cs h
      rw [List.drop_eq_getElem_cons haccepts] at h
      cases h
      exact houtcome
  | many belongs found => exact meets_many belongs found haccepts
  | literal column segments text => exact meets_literal column segments text

/-- Reading the source with a cursor comes to the outcome.  No call leads back to a loop before the
cursor has moved on, and the cursor is on a character or right behind the last one. -/
def ComesTo (source : String) (outcome : Except Cause (List PlacedToken)) : Prop :=
  Cursor.Ends source.toList (Cursor.Sound height (source.toList.length + 1))
    (Cursor.State.start program (.tokens [])) outcome

theorem comesTo_iff {source : String} {outcome : Except Cause (List PlacedToken)} :
    ComesTo source outcome ↔ outcome = Lexer.tokens source := by
  rcases (kept source.toList).ends (Procedure.tokens []) (Nat.succ_pos _) trivial with
    ⟨final, hfinal, hends⟩
  have hscan : final = (scan 1 source.toList).map fun ts => ([] ++ ts, source.toList.length) :=
    hfinal
  have htokens : final.map Prod.fst = Lexer.tokens source := by
    rw [hscan, Lexer.tokens]
    cases scan 1 source.toList <;> rfl
  rw [← htokens]
  constructor
  · exact fun h => h.unique hends
  · intro houtcome
    rw [houtcome]
    exact hends

theorem sound_of_reaches {source : String} {s : Cursor.State program (.tokens [])}
    (h : Cursor.Reaches source.toList (Cursor.State.start program (.tokens [])) s) :
    Cursor.Sound height (source.toList.length + 1) s ∧ Cursor.turn source.toList s ≠ .crashed := by
  have hends : ComesTo source (Lexer.tokens source) := comesTo_iff.mpr rfl
  exact Cursor.Ends.along hends h

end LexerCursor
end Blockwise
