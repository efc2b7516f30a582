import Blockwise.Proofs.Lexeme.Exactness
import Blockwise.Proofs.Lexeme.Quoting

/-!
# String literals as a codec

A text is written between quotes with a dollar sign before each dollar sign and each quote in it,
and a variable as its name after a dollar sign.  What is written like this is read back, and the
rows of texts and variables that can be written are all that is ever read.
-/

namespace Blockwise

open Lexer (isNameStart isNameChar)

def isName (s : String) : Bool :=
  match s.toList with
  | [] => false
  | c :: cs => isNameStart c && cs.all isNameChar

namespace Segment

def escape (cs : List Char) : List Char :=
  cs.flatMap fun c => if c = '$' ∨ c = '"' then ['$', c] else [c]

def rendering : Segment → List Char
  | text s => escape s.toList
  | var name => '$' :: name.toList

/-- A reader keeps the two apart: they are not two texts, and the second is no text that would go
on with the name of the first. -/
def Follows : Segment → Segment → Prop
  | text _, text _ => False
  | var _, text s => ∀ c ∈ s.toList.head?, isNameChar c = false
  | _, var _ => True

def Proper : Segment → Prop
  | text s => s ≠ ""
  | var name => isName name = true

instance : (segment : Segment) → Decidable segment.Proper
  | text s => inferInstanceAs (Decidable (s ≠ ""))
  | var name => inferInstanceAs (Decidable (isName name = true))

structure Tidy (segments : List Segment) : Prop where
  proper : ∀ segment ∈ segments, segment.Proper
  follow : segments.IsChain Follows

/-- A tidy row with a variable in it; a literal without variables is a string. -/
structure Normal (segments : List Segment) : Prop extends Tidy segments where
  hasVar : ∃ name, .var name ∈ segments

def Covers : Segment → List Item → Prop
  | text s, items => items.mapM Item.char? = some s.toList
  | var name, items => ∃ word : Word, items = [.var word] ∧ word.text = name

/-- The characters start with a literal of the length, and the segments, one after the other,
stand for all that is between its quotes. -/
def SpelledAt (cs : List Char) (length : Nat) (segments : List Segment) : Prop :=
  ∃ (l : Literal) (rest : List Char) (parts : List (List Item)),
    cs = l.chars ++ rest ∧ l.chars.length = length ∧ l.items = parts.flatten ∧
      List.Forall₂ Covers segments parts

end Segment

namespace Lexer

def quoted (inside : List Char) : String :=
  String.ofList ('"' :: (inside ++ ['"']))

end Lexer

/-!
# Writing

A source that is a literal and nothing else is read as the token of the literal.  A row is normal if
it is tidy and has a variable in it, and then it is a template.
-/

namespace Item

theorem chars_ofChar (c : Char) :
    (ofChar c).chars = if c = '$' ∨ c = '"' then ['$', c] else [c] := by
  unfold ofChar
  split <;> rfl

theorem flatMap_chars_ofChar (cs : List Char) :
    (cs.map ofChar).flatMap chars = Segment.escape cs := by
  rw [List.flatMap_map, Segment.escape]
  simp only [chars_ofChar]

theorem spelling_eq (items : List Item) : spelling items = items.flatMap chars ++ ['"'] := by
  induction items with
  | nil => rfl
  | cons item rest ih => rw [spelling, ih, List.flatMap_cons, List.append_assoc]

end Item

theorem Inset.flatMap_chars_items (inset : Inset) :
    inset.items.flatMap Item.chars = inset.segment.rendering := by
  cases inset with
  | text s => exact Item.flatMap_chars_ofChar s.toList
  | var name =>
      simp [items, segment, Segment.rendering, Item.chars, Word.text]

theorem Lexer.tokens_literal (l : Literal) :
    tokens (quoted (l.items.flatMap Item.chars)) =
      .ok [⟨l.token, 1⟩, ⟨.endOfInput, (l.items.flatMap Item.chars).length + 3⟩] := by
  let parts : List Spaced := [⟨[], .literal l, by simp⟩]
  let a : Arrangement := ⟨parts, [], List.isChain_singleton _, by simp⟩
  have hchars : a.chars = '"' :: (l.items.flatMap Item.chars ++ ['"']) := by
    simp [a, parts, Arrangement.chars, Spaced.chars, Lexeme.chars, Literal.chars,
      Item.spelling_eq]
  refine tokens_eq_ok_iff.mpr ⟨a, ?_, ?_⟩
  · rw [hchars, quoted, String.toList_ofList]
  · rw [Arrangement.tokens, hchars]
    simp [a, parts, Spaced.tokens, Lexeme.token]

theorem Literal.chars_ofText (s : String) :
    (Literal.ofText s).items.flatMap Item.chars = Segment.escape s.toList :=
  Item.flatMap_chars_ofChar s.toList

theorem Literal.chars_ofTemplate (t : Template) :
    (Literal.ofTemplate t).items.flatMap Item.chars = t.segments.flatMap Segment.rendering := by
  rw [ofTemplate, Template.segments, List.flatMap_map, List.flatMap_assoc]
  exact List.flatMap_congr fun inset _ => inset.flatMap_chars_items

namespace Segment

theorem exists_word {s : String} (h : isName s = true) : ∃ word : Word, word.text = s := by
  unfold isName at h
  split at h
  · cases h
  · next c cs hs =>
      rw [Bool.and_eq_true, List.all_eq_true] at h
      refine ⟨⟨c, cs, h.1, h.2⟩, ?_⟩
      rw [Word.text, Word.chars, ← hs, String.ofList_toList]

theorem exists_insets {segments : List Segment}
    (h : ∀ segment ∈ segments, segment.Proper) :
    ∃ insets : List Inset, insets.map Inset.segment = segments := by
  induction segments with
  | nil => exact ⟨[], rfl⟩
  | cons segment rest ih =>
      rcases List.forall_mem_cons.mp h with ⟨hproper, hrest⟩
      rcases ih hrest with ⟨insets, hinsets⟩
      cases segment with
      | text s => exact ⟨.text s :: insets, by rw [List.map_cons, hinsets]; rfl⟩
      | var name =>
          rcases exists_word hproper with ⟨word, rfl⟩
          exact ⟨.var word :: insets, by rw [List.map_cons, hinsets]; rfl⟩

theorem follows_segment {a b : Inset} (h : Follows a.segment b.segment) : a.Follows b := by
  cases a <;> cases b <;> exact h

theorem Normal.exists_template {segments : List Segment} (h : Normal segments) :
    ∃ t : Template, t.segments = segments := by
  rcases exists_insets h.proper with ⟨insets, rfl⟩
  have hvar : ∃ word, .var word ∈ insets := by
    rcases h.hasVar with ⟨name, hname⟩
    rcases List.mem_map.mp hname with ⟨inset, hinset, heq⟩
    cases inset with
    | text s => cases heq
    | var word => exact ⟨word, hinset⟩
  have hsome : ∀ s, .text s ∈ insets → s ≠ "" :=
    fun s hs => h.proper (.text s) (List.mem_map.mpr ⟨.text s, hs, rfl⟩)
  have hfollow : insets.IsChain Inset.Follows :=
    ((List.isChain_map Inset.segment).mp h.follow).imp fun _ _ => follows_segment
  exact ⟨⟨insets, hvar, hsome, hfollow⟩, rfl⟩

/-!
# Reading

What items stand for is tidy, because they keep apart, and each item belongs to the segment that it
stands for.  Every token of a row is that of one of its lexemes.
-/

section Reading

variable {c : Char} {items : List Item} {segments : List Segment}

theorem prepend_eq (c : Char) (segments : List Segment) :
    ∃ cs more, prepend c segments = .text (String.ofList (c :: cs)) :: more := by
  unfold prepend
  split <;> exact ⟨_, _, rfl⟩

theorem head?_spelling {s : String} {more : List Segment} (h : ofItems items = .text s :: more)
    (hc : c ∈ s.toList.head?) (hname : isNameChar c = true) :
    c ∈ (Item.spelling items).head? := by
  have hfirst : ∀ {d rest}, prepend d (ofItems rest) = .text s :: more → d = c := by
    intro d rest heq
    rcases prepend_eq d (ofItems rest) with ⟨cs, others, hprepend⟩
    rw [hprepend] at heq
    cases heq
    rw [String.toList_ofList] at hc
    exact Option.some.inj hc
  cases items with
  | nil => cases h
  | cons item rest =>
      cases item with
      | plain d hd =>
          rw [← hfirst h]
          rfl
      | dollar =>
          rw [← hfirst h] at hname
          cases hname
      | escape d hd =>
          rw [← hfirst h] at hname
          rcases hd with rfl | rfl <;> cases hname
      | var name => cases h

theorem Tidy.nil : Tidy [] where
  proper _ h := absurd h List.not_mem_nil
  follow := List.isChain_nil

theorem Tidy.cons {segment : Segment} (h : Tidy segments) (hproper : segment.Proper)
    (hnext : ∀ next ∈ segments.head?, segment.Follows next) : Tidy (segment :: segments) where
  proper := List.forall_mem_cons.mpr ⟨hproper, h.proper⟩
  follow := List.isChain_cons.mpr ⟨hnext, h.follow⟩

theorem Tidy.prepend (h : Tidy segments) (c : Char) : Tidy (prepend c segments) := by
  have hproper : ∀ cs, (Segment.text (String.ofList (c :: cs))).Proper := by
    intro cs
    simp [Proper]
  unfold Segment.prepend
  split
  · next s rest =>
      have hrest : Tidy rest :=
        ⟨(List.forall_mem_cons.mp h.proper).2, (List.isChain_cons.mp h.follow).2⟩
      refine hrest.cons (hproper _) ?_
      intro next hnext
      have hfollows : (Segment.text s).Follows next :=
        (List.isChain_cons.mp h.follow).1 next hnext
      cases next with
      | text _ => exact hfollows
      | var _ => trivial
  · next hnone =>
      refine h.cons (hproper _) ?_
      intro next hnext
      cases next with
      | text s => exact absurd (List.eq_cons_of_mem_head? hnext) (hnone s _)
      | var _ => trivial

theorem isName_text (word : Word) : isName word.text = true := by
  rw [isName, Word.text, String.toList_ofList, Word.chars]
  simp only [Bool.and_eq_true, List.all_eq_true]
  exact ⟨word.starts, word.continues⟩

theorem tidy_ofItems (h : Item.Apart items) : Tidy (ofItems items) := by
  induction items with
  | nil => exact Tidy.nil
  | cons item rest ih =>
      have hrest := ih h.2
      cases item with
      | plain d hd => exact hrest.prepend d
      | dollar => exact hrest.prepend '$'
      | escape d hd => exact hrest.prepend d
      | var word =>
          refine hrest.cons (isName_text word) ?_
          intro next hnext
          cases next with
          | var _ => trivial
          | text s =>
              intro c hc
              cases hname : isNameChar c with
              | false => rfl
              | true =>
                  have hspelled := List.eq_cons_of_mem_head? hnext
                  have htaken : isNameChar c = false :=
                    h.1 c (head?_spelling hspelled hc hname)
                  rw [hname] at htaken
                  cases htaken

theorem var_mem_prepend {name : String} (h : .var name ∈ segments) :
    .var name ∈ prepend c segments := by
  unfold prepend
  split
  · next s rest =>
      rcases List.mem_cons.mp h with heq | hrest
      · cases heq
      · exact List.mem_cons_of_mem _ hrest
  · exact List.mem_cons_of_mem _ h

theorem exists_var (h : items.mapM Item.char? = none) : ∃ name, .var name ∈ ofItems items := by
  induction items with
  | nil => cases h
  | cons item rest ih =>
      have hlater : ∀ d, item.char? = some d → ∃ name, .var name ∈ ofItems rest := by
        intro d hd
        apply ih
        rw [List.mapM_cons, hd] at h
        cases hrest : rest.mapM Item.char? with
        | none => rfl
        | some cs =>
            rw [hrest] at h
            cases h
      cases item with
      | plain d hd => exact (hlater d rfl).imp fun _ => var_mem_prepend
      | dollar => exact (hlater '$' rfl).imp fun _ => var_mem_prepend
      | escape d hd => exact (hlater d rfl).imp fun _ => var_mem_prepend
      | var word => exact ⟨word.text, List.mem_cons_self⟩

theorem covers_prepend {item : Item} (hitem : item.char? = some c) {parts : List (List Item)}
    (h : List.Forall₂ Covers segments parts) :
    ∃ parts', List.Forall₂ Covers (prepend c segments) parts' ∧
      parts'.flatten = item :: parts.flatten := by
  unfold prepend
  split
  · next s rest =>
      cases h with
      | @cons _ part _ parts hpart hparts =>
          refine ⟨(item :: part) :: parts, List.Forall₂.cons ?_ hparts, rfl⟩
          have hpart : part.mapM Item.char? = some s.toList := hpart
          rw [Covers, List.mapM_cons, hitem, hpart, String.toList_ofList]
          rfl
  · refine ⟨[item] :: parts, List.Forall₂.cons ?_ h, rfl⟩
    rw [Covers, List.mapM_cons, hitem, String.toList_ofList]
    rfl

theorem covers_ofItems (items : List Item) :
    ∃ parts, List.Forall₂ Covers (ofItems items) parts ∧ parts.flatten = items := by
  induction items with
  | nil => exact ⟨[], List.Forall₂.nil, rfl⟩
  | cons item rest ih =>
      rcases ih with ⟨parts, hparts, rfl⟩
      cases item with
      | plain d hd => exact covers_prepend rfl hparts
      | dollar => exact covers_prepend rfl hparts
      | escape d hd => exact covers_prepend rfl hparts
      | var word =>
          exact ⟨[.var word] :: parts, List.Forall₂.cons ⟨word, rfl, rfl⟩ hparts, rfl⟩

end Reading

theorem normal_of_token {l : Literal} {segments : List Segment}
    (h : l.token = .template segments) :
    Normal segments ∧
      ∃ parts, l.items = parts.flatten ∧ List.Forall₂ Covers segments parts := by
  unfold Literal.token at h
  split at h
  · cases h
  · next hnone =>
      cases h
      rcases covers_ofItems l.items with ⟨parts, hparts, hitems⟩
      exact ⟨⟨tidy_ofItems l.apart, exists_var hnone⟩, parts, hitems.symm, hparts⟩

end Segment

theorem Lexeme.eq_literal {l : Lexeme} {segments : List Segment}
    (h : l.token = .template segments) : ∃ literal, l = .literal literal := by
  cases l with
  | literal literal => exact ⟨literal, rfl⟩
  | word w =>
      rw [token] at h
      unfold Token.ofWord at h
      split at h
      all_goals
        first
          | cases h
          | split at h <;> cases h
  | whole _ | decimal _ _ | symbol _ => cases h

theorem Spaced.split_of_mem {before : Nat} {parts : List Spaced} {t : PlacedToken}
    (h : t ∈ tokens before parts) :
    ∃ earlier s later, parts = earlier ++ s :: later ∧ t.token = s.lexeme.token ∧
      t.column = before + (earlier.flatMap chars ++ s.blanks).length + 1 := by
  induction parts generalizing before with
  | nil => cases h
  | cons s rest ih =>
      rcases List.mem_cons.mp h with rfl | hrest
      · refine ⟨[], s, rest, rfl, rfl, ?_⟩
        rw [List.flatMap_nil, List.nil_append, Nat.add_comm]
      · rcases ih hrest with ⟨earlier, s', later, rfl, htoken, hcolumn⟩
        refine ⟨s :: earlier, s', later, rfl, htoken, ?_⟩
        simp only [hcolumn, List.flatMap_cons, List.length_append, Nat.add_assoc]

namespace Lexer

open Segment

theorem normal_of_start {column taken : Nat} {c : Char} {cs : List Char} {segments : List Segment}
    (h : start column c cs = .ok (.template segments, taken)) :
    Normal segments ∧ SpelledAt (c :: cs) (taken + 1) segments := by
  rcases found_start h with ⟨l, rest, hcs, htoken, hlength, _⟩
  rcases Lexeme.eq_literal htoken with ⟨literal, rfl⟩
  rcases normal_of_token htoken with ⟨hnormal, parts, hitems, hparts⟩
  exact ⟨hnormal, literal, rest, parts, hcs, hlength, hitems, hparts⟩

theorem normal_of_tokens {source : String} {ts : List PlacedToken} {segments : List Segment}
    {column : Nat} (hread : tokens source = .ok ts) (h : ⟨.template segments, column⟩ ∈ ts) :
    Normal segments ∧ ∃ before cs length, source.toList = before ++ cs ∧
      column = before.length + 1 ∧ SpelledAt cs length segments := by
  rcases tokens_eq_ok_iff.mp hread with ⟨a, hchars, rfl⟩
  have hpart : ⟨.template segments, column⟩ ∈ Spaced.tokens 0 a.parts := by
    rcases List.mem_append.mp h with hpart | hend
    · exact hpart
    · cases List.mem_singleton.mp hend
  rcases Spaced.split_of_mem hpart with ⟨earlier, s, later, hparts, htoken, hcolumn⟩
  rcases Lexeme.eq_literal htoken.symm with ⟨literal, hliteral⟩
  rw [hliteral] at htoken
  rcases normal_of_token htoken.symm with ⟨hnormal, parts, hitems, hcover⟩
  refine ⟨hnormal, earlier.flatMap Spaced.chars ++ s.blanks,
    literal.chars ++ (later.flatMap Spaced.chars ++ a.last), literal.chars.length, ?_, ?_,
    literal, _, parts, rfl, rfl, hitems, hcover⟩
  · rw [← hchars, Arrangement.chars, hparts, List.flatMap_append, List.flatMap_cons, Spaced.chars,
      hliteral, Lexeme.chars]
    simp only [List.append_assoc]
  · rw [Nat.zero_add] at hcolumn
    exact hcolumn

/-- A text between quotes, its dollar signs and quotes escaped, is one string token with this
text, and a normal row of texts and variables written like that is one template token with this
row.  Conversely, whatever the lexer reads as a template, as a single token or in a whole source,
is a normal row, and its texts and variables in their order make up all of the literal that
stands there. -/
theorem string_literals_exact :
    (∀ s : String, tokens (quoted (escape s.toList)) =
      .ok [⟨.string s, 1⟩, ⟨.endOfInput, (escape s.toList).length + 3⟩]) ∧
    (∀ segments, Normal segments → tokens (quoted (segments.flatMap rendering)) =
      .ok [⟨.template segments, 1⟩,
        ⟨.endOfInput, (segments.flatMap rendering).length + 3⟩]) ∧
    (∀ column c cs segments taken, start column c cs = .ok (.template segments, taken) →
      Normal segments ∧ SpelledAt (c :: cs) (taken + 1) segments) ∧
    ∀ source ts segments column, tokens source = .ok ts → ⟨.template segments, column⟩ ∈ ts →
      Normal segments ∧ ∃ before cs length, source.toList = before ++ cs ∧
        column = before.length + 1 ∧ SpelledAt cs length segments := by
  refine ⟨?_, ?_, fun _ _ _ _ _ => normal_of_start, fun _ _ _ _ => normal_of_tokens⟩
  · intro s
    have hread := tokens_literal (Literal.ofText s)
    rw [Literal.token_ofText, Literal.chars_ofText] at hread
    exact hread
  · intro segments h
    rcases h.exists_template with ⟨t, rfl⟩
    have hread := tokens_literal (Literal.ofTemplate t)
    rw [Literal.token_ofTemplate, Literal.chars_ofTemplate] at hread
    exact hread

/-- A text that ends in a dollar sign before a variable, and a text with a digit after a quote
behind it: `"5$$$x$"1"`. -/
theorem string_literals_exact_escapes :
    let segments : List Segment := [.text "5$", .var "x", .text "\"1"]
    let ts : List PlacedToken := [⟨.template segments, 1⟩, ⟨.endOfInput, 11⟩]
    Normal segments ∧ tokens "\"5$$$x$\"1\"" = .ok ts ∧
      start 1 '"' "5$$$x$\"1\"".toList = .ok (.template segments, 9) ∧
      SpelledAt ('"' :: "5$$$x$\"1\"".toList) 10 segments ∧
      ∃ before cs length, "\"5$$$x$\"1\"".toList = before ++ cs ∧ 1 = before.length + 1 ∧
        SpelledAt cs length segments := by
  intro segments ts
  have hquote : (Segment.var "x").Follows (.text "\"1") := by
    intro c hc
    cases hc
    decide
  have hfollow : segments.IsChain Follows :=
    List.isChain_cons_cons.mpr
      ⟨trivial, List.isChain_cons_cons.mpr ⟨hquote, List.isChain_singleton _⟩⟩
  have hnormal : Normal segments := ⟨⟨by decide, hfollow⟩, "x", by simp [segments]⟩
  have hwritten : quoted (segments.flatMap rendering) = "\"5$$$x$\"1\"" := by cbv
  have hread : tokens "\"5$$$x$\"1\"" = .ok ts := by
    have hexact := string_literals_exact.2.1 segments hnormal
    rw [hwritten] at hexact
    exact hexact
  have hstart : start 1 '"' "5$$$x$\"1\"".toList = .ok (.template segments, 9) := by cbv
  exact ⟨hnormal, hread, hstart, (string_literals_exact.2.2.1 _ _ _ _ _ hstart).2,
    (string_literals_exact.2.2.2 _ _ _ _ hread List.mem_cons_self).2⟩

end Lexer

end Blockwise
