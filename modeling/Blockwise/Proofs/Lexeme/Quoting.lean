import Blockwise.Proofs.Lexeme.Literals

/-!
# Writing string literals

Every text has a literal that spells it: a dollar sign is written before each dollar sign and
each quote in it.  A row of texts and variables has one too, as long as the reader would not
merge or split its parts.
-/

namespace Blockwise

open Lexer (isNameChar)

namespace Item

def ofChar (c : Char) : Item :=
  if h : c = '$' ∨ c = '"' then .escape c h
  else .plain c ⟨fun hquote => h (Or.inr hquote), fun hdollar => h (Or.inl hdollar)⟩

variable (c : Char)

theorem char?_ofChar : (ofChar c).char? = some c := by
  unfold ofChar
  split <;> rfl

theorem takes_ofChar (d : Char) : (ofChar c).takes d = false := by
  unfold ofChar
  split <;> rfl

theorem ofItems_ofChar (rest : List Item) :
    Segment.ofItems (ofChar c :: rest) = Segment.prepend c (Segment.ofItems rest) := by
  unfold ofChar
  split <;> rfl

theorem head?_chars_ofChar :
    (ofChar c).chars.head? = some '$' ∨ (ofChar c).chars.head? = some c := by
  unfold ofChar
  split
  · exact Or.inl rfl
  · exact Or.inr rfl

variable {c} {cs : List Char} {items : List Item}

theorem apart_ofChar (h : Apart items) : Apart (cs.map ofChar ++ items) := by
  induction cs with
  | nil => exact h
  | cons c more ih => exact ⟨fun d _ => takes_ofChar c d, ih⟩

theorem ofItems_map_ofChar :
    Segment.ofItems (cs.map ofChar ++ items) =
      cs.foldr Segment.prepend (Segment.ofItems items) := by
  induction cs with
  | nil => rfl
  | cons c more ih => rw [List.map_cons, List.cons_append, ofItems_ofChar, ih, List.foldr_cons]

theorem mapM_char?_ofChar : (cs.map ofChar).mapM char? = some cs := by
  induction cs with
  | nil => rfl
  | cons c more ih =>
      rw [List.map_cons, List.mapM_cons, char?_ofChar, ih]
      rfl

theorem mapM_char?_eq_none {name : Word} (h : .var name ∈ items) : items.mapM char? = none := by
  induction items with
  | nil => cases h
  | cons item rest ih =>
      rw [List.mapM_cons]
      rcases List.mem_cons.mp h with rfl | hrest
      · rfl
      · rw [ih hrest]
        cases item.char? <;> rfl

end Item

/-!
# Texts

A character is written with a dollar sign before it, or as it is.
-/

/-- The literal of a text. -/
def Literal.ofText (s : String) : Literal where
  items := s.toList.map Item.ofChar
  apart := by
    have hnil : Item.Apart [] := trivial
    have happend : Item.Apart (s.toList.map Item.ofChar ++ []) := Item.apart_ofChar hnil
    rwa [List.append_nil] at happend

theorem Literal.token_ofText (s : String) : (Literal.ofText s).token = .string s := by
  unfold token
  rw [ofText, Item.mapM_char?_ofChar]
  exact congrArg Token.string String.ofList_toList

/-!
# Templates

A reader keeps two parts apart unless both are texts, or a text would go on with the name of the
variable before it.
-/

inductive Inset where
  | text (s : String)
  | var (name : Word)

namespace Inset

def segment : Inset → Segment
  | text s => .text s
  | var name => .var name.text

def items : Inset → List Item
  | text s => s.toList.map Item.ofChar
  | var name => [.var name]

def Follows : Inset → Inset → Prop
  | text _, text _ => False
  | var _, text s => ∀ c ∈ s.toList.head?, isNameChar c = false
  | _, var _ => True

end Inset

/-- A row of texts and variables as a reader finds it. -/
structure Template where
  insets : List Inset
  hasVar : ∃ name, .var name ∈ insets
  nonempty : ∀ s, .text s ∈ insets → s ≠ ""
  follow : insets.IsChain Inset.Follows

namespace Template

def segments (t : Template) : List Segment :=
  t.insets.map Inset.segment

end Template

namespace Inset

variable {insets : List Inset}

theorem takes_var {name : Word} (hsome : ∀ s, .text s ∈ insets → s ≠ "")
    (hfollow : (.var name :: insets).IsChain Follows) :
    ∀ c ∈ (Item.spelling (insets.flatMap items)).head?, (Item.var name).takes c = false := by
  intro c hc
  cases insets with
  | nil =>
      cases hc
      rfl
  | cons next rest =>
      cases next with
      | var other =>
          cases hc
          rfl
      | text s =>
          have hfirst : ∀ c ∈ s.toList.head?, isNameChar c = false :=
            (List.isChain_cons_cons.mp hfollow).1
          cases hs : s.toList with
          | nil => exact absurd (String.toList_eq_nil_iff.mp hs) (hsome s List.mem_cons_self)
          | cons d ds =>
              rw [List.flatMap_cons, items, hs, List.map_cons, List.cons_append, Item.spelling,
                List.head?_append] at hc
              -- the text starts with its own first character or with the dollar sign before it
              rcases Item.head?_chars_ofChar d with hdollar | hplain
              · rw [hdollar] at hc
                cases hc
                rfl
              · rw [hplain] at hc
                cases hc
                rw [hs] at hfirst
                exact hfirst c rfl

theorem apart_items (hsome : ∀ s, .text s ∈ insets → s ≠ "") (hfollow : insets.IsChain Follows) :
    Item.Apart (insets.flatMap items) := by
  induction insets with
  | nil => trivial
  | cons inset rest ih =>
      have hrest := ih (fun s hs => hsome s (List.mem_cons_of_mem _ hs)) hfollow.of_cons
      cases inset with
      | text s => exact Item.apart_ofChar hrest
      | var name =>
          exact ⟨takes_var (fun s hs => hsome s (List.mem_cons_of_mem _ hs)) hfollow, hrest⟩

theorem ofItems_items (hsome : ∀ s, .text s ∈ insets → s ≠ "")
    (hfollow : insets.IsChain Follows) :
    Segment.ofItems (insets.flatMap items) = insets.map segment := by
  induction insets with
  | nil => rfl
  | cons inset rest ih =>
      have hrest := ih (fun s hs => hsome s (List.mem_cons_of_mem _ hs)) hfollow.of_cons
      cases inset with
      | var name =>
          rw [List.flatMap_cons, items, List.singleton_append, Segment.ofItems, hrest]
          rfl
      | text s =>
          have hnext : ∀ s' more, rest.map segment ≠ .text s' :: more := by
            intro s' more heq
            cases rest with
            | nil => cases heq
            | cons next others =>
                cases next with
                | text other => exact (List.isChain_cons_cons.mp hfollow).1
                | var name => cases heq
          have htext : s.toList.isEmpty = false := by
            rw [List.isEmpty_eq_false_iff, ne_eq, String.toList_eq_nil_iff]
            exact hsome s List.mem_cons_self
          rw [List.flatMap_cons, items, Item.ofItems_map_ofChar, hrest, Segment.foldr_prepend hnext,
            htext]
          simp [segment]

end Inset

def Literal.ofTemplate (t : Template) : Literal where
  items := t.insets.flatMap Inset.items
  apart := Inset.apart_items t.nonempty t.follow

theorem Literal.token_ofTemplate (t : Template) :
    (Literal.ofTemplate t).token = .template t.segments := by
  have hvar : ∃ name, .var name ∈ t.insets.flatMap Inset.items := by
    rcases t.hasVar with ⟨name, hname⟩
    exact ⟨name, List.mem_flatMap.mpr ⟨.var name, hname, List.mem_cons_self⟩⟩
  rcases hvar with ⟨name, hname⟩
  unfold token
  rw [ofTemplate, Item.mapM_char?_eq_none hname, Inset.ofItems_items t.nonempty t.follow]
  rfl

end Blockwise
