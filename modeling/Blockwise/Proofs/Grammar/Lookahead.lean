import Blockwise.Proofs.Grammar
import Blockwise.Proofs.Grammar.Outcome

/-!
# Readers that look one token ahead

A reader decides a language if it takes a member of the language off the front of any tokens, or
else blames the first token that it has no use for, while the tokens before that one are the start
of a member.  Either way nothing but the tokens up to the next one has a say in it, and their
columns have none.
-/

namespace Blockwise

def Cause.found? : Cause → Option PlacedToken
  | unexpectedToken found => some found
  | expectedValue found => some found
  | expectedSymbol _ found => some found
  | expectedKeyword _ found => some found
  | expectedType found => some found
  | expectedName found => some found
  | _ => none

namespace Grammar

open Blockwise.Parser

abbrev Reader (α : Type) :=
  StateT (List PlacedToken) (Except Cause) α

variable {α β : Type} {Language Inner : List Token → Prop} {reader reader' : Reader α}
  {ts used used' rest rest' more : List PlacedToken}

def Blames (reader : Reader α) (ts rest : List PlacedToken) : Prop :=
  ∃ cause, reader ts = .error cause ∧ cause.found? = some (front rest)

/-- The reader takes a member of the language, or it blames a token after the start of one.  It
does the same on all tokens that agree with these up to the next one. -/
inductive Decides (Language : List Token → Prop) (reader : Reader α) : List PlacedToken → Prop where
  | takes (a : α) (used : List PlacedToken) {rest : List PlacedToken} :
      Language (tokensOf used) →
      (∀ used' rest', tokensOf used' = tokensOf used →
        (front rest').token = (front rest).token → reader (used' ++ rest') = .ok (a, rest')) →
      Decides Language reader (used ++ rest)
  | blames (used : List PlacedToken) {rest : List PlacedToken} (more : List Token) :
      Language (tokensOf used ++ more) →
      (∀ used' rest', tokensOf used' = tokensOf used →
        (front rest').token = (front rest).token → Blames reader (used' ++ rest') rest') →
      Decides Language reader (used ++ rest)

theorem front_append (hused : tokensOf used' = tokensOf used)
    (hrest : (front rest').token = (front rest).token) :
    (front (used' ++ rest')).token = (front (used ++ rest)).token := by
  cases used with
  | nil =>
      rw [nil_of_tokensOf hused]
      exact hrest
  | cons t more =>
      rcases cons_of_tokensOf hused with ⟨column, others, rfl, _⟩
      rfl

namespace Decides

theorem mono {Language' : List Token → Prop} (h : Decides Language reader ts)
    (hmono : ∀ tokens, Language tokens → Language' tokens) : Decides Language' reader ts := by
  cases h with
  | takes a used hmember hreads => exact takes a used (hmono _ hmember) hreads
  | blames used more hmember hfails => exact blames used more (hmono _ hmember) hfails

theorem of_front (h : Decides Language reader' ts)
    (hsame : ∀ ts', (front ts').token = (front ts).token → reader ts' = reader' ts') :
    Decides Language reader ts := by
  cases h with
  | takes a used hmember hreads =>
      refine takes a used hmember ?_
      intro used' rest' hused hrest
      rw [hsame _ (front_append hused hrest)]
      exact hreads used' rest' hused hrest
  | blames used more hmember hfails =>
      refine blames used more hmember ?_
      intro used' rest' hused hrest
      rw [Blames, hsame _ (front_append hused hrest)]
      exact hfails used' rest' hused hrest

/-!
# Rules

Readers are put together one after another, with results changed, or from a token of a kind.  What
the first of two readers takes must leave something to go on with.
-/

theorem pure (a : α) (h : Language []) : Decides Language (pure a) ts := by
  refine takes a [] h ?_
  intro used' rest' hused _
  rw [nil_of_tokensOf hused]
  rfl

theorem fail (tokens : List Token) (h : Language tokens)
    (hfails : ∀ ts', (front ts').token = (front ts).token → Blames reader ts' ts') :
    Decides Language reader ts := by
  refine blames [] tokens h ?_
  intro used' rest' hused hrest
  rw [nil_of_tokensOf hused]
  exact hfails rest' hrest

theorem skip {token : Token} {column : Nat}
    (h : Decides (fun tokens => Language (token :: tokens)) reader' ts)
    (hskip : ∀ column' ts', reader (⟨token, column'⟩ :: ts') = reader' ts') :
    Decides Language reader (⟨token, column⟩ :: ts) := by
  cases h with
  | takes a used hmember hreads =>
      refine takes a (⟨token, column⟩ :: used) hmember ?_
      intro used' rest' hused hrest
      rcases cons_of_tokensOf hused with ⟨column', others, rfl, hothers⟩
      rw [List.cons_append, hskip]
      exact hreads others rest' hothers hrest
  | blames used more hmember hfails =>
      refine blames (⟨token, column⟩ :: used) more hmember ?_
      intro used' rest' hused hrest
      rcases cons_of_tokensOf hused with ⟨column', others, rfl, hothers⟩
      rw [Blames, List.cons_append, hskip]
      exact hfails others rest' hothers hrest

theorem bind {reader : Reader β} {next : β → Reader α} (h : Decides Inner reader ts)
    (hextend : ∀ tokens, Inner tokens → ∃ more, Language (tokens ++ more))
    (hnext : ∀ b used mid, ts = used ++ mid → Inner (tokensOf used) →
      Decides (fun tokens => Language (tokensOf used ++ tokens)) (next b) mid) :
    Decides Language (reader >>= next) ts := by
  cases h with
  | @takes b used mid hmember hreads =>
      have hbind (used' rest' : List PlacedToken) (hused : tokensOf used' = tokensOf used)
          (hrest : (front rest').token = (front mid).token) :
          (reader >>= next) (used' ++ rest') = next b rest' := by
        change (reader (used' ++ rest') >>= fun p => next p.1 p.2) = _
        rw [hreads used' rest' hused hrest]
        rfl
      have hdecides := hnext b used mid rfl hmember
      cases hdecides with
      | takes a used₂ hmember₂ hreads₂ =>
          rw [← List.append_assoc]
          refine takes a (used ++ used₂) ?_ ?_
          · rw [tokensOf_append]
            exact hmember₂
          · intro both rest' hboth hrest
            rw [tokensOf_append] at hboth
            rcases append_of_tokensOf hboth with ⟨first, second, rfl, hfirst, hsecond⟩
            have hfront := front_append hsecond hrest
            rw [List.append_assoc, hbind first _ hfirst hfront]
            exact hreads₂ second rest' hsecond hrest
      | blames used₂ more hmember₂ hfails₂ =>
          rw [← List.append_assoc]
          refine blames (used ++ used₂) more ?_ ?_
          · rw [tokensOf_append, List.append_assoc]
            exact hmember₂
          · intro both rest' hboth hrest
            rw [tokensOf_append] at hboth
            rcases append_of_tokensOf hboth with ⟨first, second, rfl, hfirst, hsecond⟩
            have hfront := front_append hsecond hrest
            rw [Blames, List.append_assoc, hbind first _ hfirst hfront]
            exact hfails₂ second rest' hsecond hrest
  | blames used more hmember hfails =>
      rcases hextend _ hmember with ⟨others, hextended⟩
      rw [List.append_assoc] at hextended
      refine blames used (more ++ others) hextended ?_
      intro used' rest' hused hrest
      rcases hfails used' rest' hused hrest with ⟨cause, herror, hfound⟩
      refine ⟨cause, ?_, hfound⟩
      change (reader (used' ++ rest') >>= fun p => next p.1 p.2) = _
      rw [herror]
      rfl

theorem map {reader : Reader β} {f : β → α} (h : Decides Language reader ts) :
    Decides Language (reader >>= fun b => Pure.pure (f b)) ts := by
  refine h.bind ?_ ?_
  · intro tokens hmember
    exact ⟨[], by rwa [List.append_nil]⟩
  · intro b used mid _ hmember
    exact pure (f b) (by rwa [List.append_nil])

theorem expect {ι : Type} (kind : ι → Token) (i : ι) (a : ι → α)
    (hend : ∀ i, kind i ≠ .endOfInput)
    (hreads : ∀ i column rest, reader (⟨kind i, column⟩ :: rest) = .ok (a i, rest))
    (hfails : ∀ ts, (∀ i, (front ts).token ≠ kind i) → Blames reader ts ts) :
    Decides (fun tokens => ∃ i, tokens = [kind i]) reader ts := by
  by_cases hkind : ∃ i, (front ts).token = kind i
  · rcases hkind with ⟨i, hi⟩
    rcases cons_of_front hi (hend i) with ⟨column, more, rfl⟩
    exact skip (pure (a i) ⟨i, rfl⟩) (hreads i)
  · refine fail [kind i] ⟨i, rfl⟩ ?_
    intro ts' hfront
    apply hfails
    intro j hj
    exact hkind ⟨j, hfront ▸ hj⟩

theorem expect_one {token : Token} (a : α) (hend : token ≠ .endOfInput)
    (hreads : ∀ column rest, reader (⟨token, column⟩ :: rest) = .ok (a, rest))
    (hfails : ∀ ts, (front ts).token ≠ token → Blames reader ts ts) :
    Decides (fun tokens => tokens = [token]) reader ts := by
  have hkind : Decides (fun tokens => ∃ _ : Unit, tokens = [token]) reader ts :=
    expect (fun _ => token) () (fun _ => a) (fun _ => hend) (fun _ => hreads)
      fun ts hfront => hfails ts (hfront ())
  refine hkind.mono ?_
  rintro tokens ⟨_, htokens⟩
  exact htokens

end Decides

end Grammar
end Blockwise
