import Blockwise.Proofs.Grammar.Cursor
import Blockwise.Proofs.Lexeme.Cursor

/-!
# Every source is compiled or refused

A source is read into tokens with one cursor and the tokens are parsed with another.  Neither
machine crashes and both come to an end, whatever the source and the role of the block.
-/

namespace Blockwise
namespace Tree

inductive Compiles (role : Role) (source : String) : Except Cause Tree → Prop where
  | refused : role.isTerminal = true → Compiles role source (.error (.noSource role))
  | unread {cause : Cause} : role.isTerminal = false →
      LexerCursor.ComesTo source (.error cause) → Compiles role source (.error cause)
  | parsed {ts : List PlacedToken} {outcome : Except Cause Tree} : role.isTerminal = false →
      LexerCursor.ComesTo source (.ok ts) → ParserCursor.ComesTo role ts outcome →
      Compiles role source outcome

variable {role : Role} {source : String} {ts : List PlacedToken} {outcome : Except Cause Tree}

theorem terminated_of_tokens (h : Lexer.tokens source = .ok ts) : ParserCursor.Terminated ts := by
  rcases (Grammar.wellPlaced_tokens h).ends with ⟨before, column, hts, _⟩
  exact ⟨before, column, hts⟩

theorem compiles_iff : Compiles role source outcome ↔ outcome = ofSource role source := by
  cases hrole : role.isTerminal with
  | true =>
      have hrefused : ofSource role source = .error (.noSource role) := if_pos hrole
      rw [hrefused]
      constructor
      · intro h
        cases h with
        | refused _ => rfl
        | unread hsome _ => cases hrole.symm.trans hsome
        | parsed hsome _ _ => cases hrole.symm.trans hsome
      · intro houtcome
        rw [houtcome]
        exact .refused hrole
  | false =>
      have hread : ofSource role source = Lexer.tokens source >>= Parser.block role :=
        if_neg (by rw [hrole]; exact Bool.false_ne_true)
      rw [hread]
      constructor
      · intro h
        cases h with
        | refused hnone => cases hrole.symm.trans hnone
        | unread _ htokens =>
            rw [← LexerCursor.comesTo_iff.mp htokens]
            rfl
        | parsed _ htokens hblock =>
            have hts := LexerCursor.comesTo_iff.mp htokens
            rw [← hts]
            exact (ParserCursor.comesTo_iff (terminated_of_tokens hts.symm) hrole).mp hblock
      · intro houtcome
        rw [houtcome]
        cases htokens : Lexer.tokens source with
        | error cause => exact .unread hrole (LexerCursor.comesTo_iff.mpr htokens.symm)
        | ok ts =>
            refine .parsed hrole (LexerCursor.comesTo_iff.mpr htokens.symm) ?_
            exact (ParserCursor.comesTo_iff (terminated_of_tokens htokens) hrole).mpr rfl

/-- A source is read to the end or to its first fault, without a look or an advance past its end.
The tokens end in the only end of the input.  Any such tokens are parsed with the cursor always on
one of them, and between two calls of the same level a token is consumed.  So compiling a source
comes to an outcome for every role, and it is that of the compiler. -/
theorem front_end_is_total :
    (∀ source, (∀ outcome, LexerCursor.ComesTo source outcome ↔ outcome = Lexer.tokens source) ∧
        ∀ s, Cursor.Reaches source.toList (.start LexerCursor.program (.tokens [])) s →
          Cursor.Sound LexerCursor.height (source.toList.length + 1) s ∧
            Cursor.turn source.toList s ≠ .crashed) ∧
      (∀ source ts, Lexer.tokens source = .ok ts → ∃ before column,
        ts = before ++ [⟨.endOfInput, column⟩] ∧ .endOfInput ∉ Grammar.tokensOf before) ∧
      (∀ role before column, role.isTerminal = false →
        let ts := before ++ [⟨.endOfInput, column⟩]
        (∀ outcome, ParserCursor.ComesTo role ts outcome ↔ outcome = Parser.block role ts) ∧
          ∀ s, Cursor.Reaches ts (.start ParserCursor.program (.block role)) s →
            Cursor.Sound ParserCursor.height ts.length s ∧ Cursor.turn ts s ≠ .crashed) ∧
      ∀ role source outcome, Compiles role source outcome ↔ outcome = ofSource role source := by
  refine ⟨fun _ => ⟨fun _ => LexerCursor.comesTo_iff, fun _ => LexerCursor.sound_of_reaches⟩,
    fun _ _ h => (Grammar.wellPlaced_tokens h).ends, ?_, fun _ _ _ => compiles_iff⟩
  intro role before column hrole ts
  have hterminated : ParserCursor.Terminated ts := ⟨before, column, rfl⟩
  exact ⟨fun _ => ParserCursor.comesTo_iff hterminated hrole,
    fun _ => ParserCursor.sound_of_reaches hterminated hrole⟩

theorem front_end_is_total_unfinished_sum :
    let source := "x +"
    let ts : List PlacedToken := [⟨.name "x", 1⟩, ⟨.symbol .plus, 3⟩, ⟨.endOfInput, 4⟩]
    LexerCursor.ComesTo source (.ok ts) ∧
      (∃ s, Cursor.turn source.toList (.start LexerCursor.program (.tokens [])) = .on s ∧
        Cursor.turn source.toList s ≠ .crashed) ∧
      (∃ before column, ts = before ++ [⟨.endOfInput, column⟩] ∧
        .endOfInput ∉ Grammar.tokensOf before) ∧
      ParserCursor.ComesTo .output ts (.error (.expectedValue ⟨.endOfInput, 4⟩)) ∧
      (∃ s, Cursor.turn ts (.start ParserCursor.program (.block .output)) = .on s ∧
        Cursor.turn ts s ≠ .crashed) ∧
      Compiles .output source (.error (.expectedValue ⟨.endOfInput, 4⟩)) := by
  intro source ts
  rcases front_end_is_total with ⟨hlexer, hends, hparser, hcompiler⟩
  have htokens : Lexer.tokens source = .ok ts := by cbv
  have hblock : Parser.block .output ts = .error (.expectedValue ⟨.endOfInput, 4⟩) := by cbv
  have hread : ofSource .output source = .error (.expectedValue ⟨.endOfInput, 4⟩) := by cbv
  rcases hparser .output [⟨.name "x", 1⟩, ⟨.symbol .plus, 3⟩] 4 rfl with ⟨hcomes, hsound⟩
  refine ⟨((hlexer source).1 _).mpr htokens.symm, ⟨_, rfl, ?_⟩, hends source ts htokens,
    (hcomes _).mpr hblock.symm, ⟨_, rfl, ?_⟩, (hcompiler _ _ _).mpr hread.symm⟩
  · exact ((hlexer source).2 _ (Relation.ReflTransGen.single rfl)).2
  · exact (hsound _ (Relation.ReflTransGen.single rfl)).2

end Tree
end Blockwise
