import Blockwise.Catalog
import Blockwise.Fault.Cause
import Blockwise.Proofs.Text
import Mathlib

/-!
# Templates filled in one pass

A template falls into literal texts and slots in one way only, which its braces alone decide: a
slot goes from an opening brace to the first closing brace after it.  Filling takes the slots in
turn and never looks at what it has put in, so an argument stands in the message as it is.  A slot
is seen exactly where no opening brace before it is still open.
-/

namespace Blockwise
namespace Template

variable {cs before after name : List Char} {ps : List Part} {arg? : String → Option String}

/-!
# The parts of a template

No opening brace comes before a slot that a reader finds, no closing brace stands inside it, and
nothing that could be a slot is left after the last of them.  Nothing of a template gets lost
between its parts, and there is one way to read it.
-/

def Slotless (cs : List Char) : Prop :=
  ∀ before after, cs = before ++ openBrace :: after → closeBrace ∉ after

/-- Every opening brace has a closing brace after it. -/
def Settled (cs : List Char) : Prop :=
  ∀ before after, cs = before ++ openBrace :: after → closeBrace ∈ after

/-- The parts as a reader finds them from left to right: no opening brace before a slot, no
closing brace inside it, and nothing that could be a slot after the last of them. -/
inductive Scanned : List Part → Prop where
  | last {cs : List Char} : Slotless cs → Scanned [.text cs]
  | slot {before name : List Char} {ps : List Part} :
      openBrace ∉ before → closeBrace ∉ name → Scanned ps →
      Scanned (.text before :: .slot name :: ps)

theorem slotless_of_not_mem (h : openBrace ∉ cs) : Slotless cs := by
  rintro before after rfl
  exact absurd (by simp) h

theorem slotless_unclosed (hbefore : openBrace ∉ before) (hafter : closeBrace ∉ after) :
    Slotless (before ++ openBrace :: after) := by
  intro before' after' heq hclose
  rcases List.append_eq_append_iff.mp heq with ⟨inner, rfl, hinner⟩ | ⟨inner, rfl, hinner⟩
  · cases inner with
    | nil =>
        cases hinner
        exact hafter hclose
    | cons c more =>
        cases hinner
        exact hafter (by simp [hclose])
  · cases inner with
    | nil =>
        cases hinner
        exact hafter hclose
    | cons c more =>
        cases hinner
        exact hbefore (by simp)

theorem written_slot_append (name rest : List Char) :
    Part.written (.slot name) ++ rest = openBrace :: (name ++ closeBrace :: rest) := by
  simp [Part.written]

theorem parts_slot (hbefore : openBrace ∉ before) (hname : closeBrace ∉ name)
    (rest : List Char) :
    parts (before ++ (Part.written (.slot name) ++ rest)) =
      .text before :: .slot name :: parts rest := by
  rw [written_slot_append, parts]
  split
  · next hopen => cases (Text.cut?_append hbefore).symm.trans hopen
  · next hopen =>
      cases (Text.cut?_append hbefore).symm.trans hopen
      split
      · next hclose => cases (Text.cut?_append hname).symm.trans hclose
      · next hclose =>
          cases (Text.cut?_append hname).symm.trans hclose
          rfl

theorem parts_of_slotless (h : Slotless cs) : parts cs = [.text cs] := by
  rw [parts]
  split
  · rfl
  · next hopen =>
      split
      · rfl
      · next hclose =>
          refine absurd ?_ (h _ _ (Text.eq_of_cut? hopen))
          rw [Text.eq_of_cut? hclose]
          simp

/-- Induction along the slots of a template. -/
theorem slots_induct {motive : List Char → Prop}
    (last : ∀ cs, Slotless cs → motive cs)
    (slot : ∀ before name rest, openBrace ∉ before → closeBrace ∉ name → motive rest →
      motive (before ++ (Part.written (.slot name) ++ rest)))
    (cs : List Char) : motive cs := by
  fun_induction parts cs with
  | case1 cs hopen => exact last cs (slotless_of_not_mem (Text.cut?_eq_none_iff.mp hopen))
  | case2 cs before rest hopen hclose =>
      rcases Text.cut?_eq_some_iff.mp hopen with ⟨hbefore, rfl⟩
      exact last _ (slotless_unclosed hbefore (Text.cut?_eq_none_iff.mp hclose))
  | case3 cs before rest hopen name after hclose _ ih =>
      rcases Text.cut?_eq_some_iff.mp hopen with ⟨hbefore, rfl⟩
      rcases Text.cut?_eq_some_iff.mp hclose with ⟨hname, rfl⟩
      rw [← written_slot_append]
      exact slot before name after hbefore hname ih

theorem scanned_parts (cs : List Char) : Scanned (parts cs) := by
  induction cs using slots_induct with
  | last cs h =>
      rw [parts_of_slotless h]
      exact Scanned.last h
  | slot before name rest hbefore hname ih =>
      rw [parts_slot hbefore hname]
      exact Scanned.slot hbefore hname ih

theorem written_parts (cs : List Char) : (parts cs).flatMap Part.written = cs := by
  induction cs using slots_induct with
  | last cs h => simp [parts_of_slotless h, Part.written]
  | slot before name rest hbefore hname ih =>
      rw [parts_slot hbefore hname, List.flatMap_cons, List.flatMap_cons, ih]
      rfl

theorem parts_of_scanned (h : Scanned ps) : parts (ps.flatMap Part.written) = ps := by
  induction h with
  | last hslotless => simpa [Part.written] using parts_of_slotless hslotless
  | slot hbefore hname _ ih =>
      rw [List.flatMap_cons, List.flatMap_cons, Part.written, parts_slot hbefore hname, ih]

theorem scanned_written_iff :
    Scanned ps ∧ ps.flatMap Part.written = cs ↔ ps = parts cs := by
  constructor
  · intro hgiven
    rcases hgiven with ⟨hscanned, rfl⟩
    exact (parts_of_scanned hscanned).symm
  · intro h
    rw [h]
    exact ⟨scanned_parts cs, written_parts cs⟩

/-!
# The message

A slot whose argument is known reads as the argument, and any other stays as it was written.
-/

def filling (arg? : String → Option String) (cs : List Char) : List Char :=
  (parts cs).flatMap (Part.filled arg?)

theorem toList_fill (template : String) (arg? : String → Option String) :
    (fill template arg?).toList = filling arg? template.toList :=
  String.toList_ofList

theorem filling_of_slotless (h : Slotless cs) : filling arg? cs = cs := by
  rw [filling, parts_of_slotless h, List.flatMap_singleton]
  rfl

theorem filling_slot (hbefore : openBrace ∉ before) (hname : closeBrace ∉ name)
    (rest : List Char) :
    filling arg? (before ++ (Part.written (.slot name) ++ rest)) =
      before ++ (Part.filled arg? (.slot name) ++ filling arg? rest) := by
  rw [filling, parts_slot hbefore hname, List.flatMap_cons, List.flatMap_cons]
  rfl

theorem filled_known {value : String} (h : arg? (String.ofList name) = some value) :
    Part.filled arg? (.slot name) = value.toList := by
  rw [Part.filled, h]

theorem filled_unknown (h : arg? (String.ofList name) = none) :
    Part.filled arg? (.slot name) = Part.written (.slot name) := by
  rw [Part.filled, h]

theorem filling_none (cs : List Char) : filling (fun _ => none) cs = cs := by
  induction cs using slots_induct with
  | last cs h => exact filling_of_slotless h
  | slot before name rest hbefore hname ih =>
      rw [filling_slot hbefore hname, ih, filled_unknown rfl]

/-!
# The loop

Filling goes round by round: each round takes the text up to the next slot and the slot over into
the message, or the whole rest if the next opening brace is never closed.
-/

/-- The message so far, and what is left of the template. -/
structure Progress where
  message : List Char
  rest : List Char

namespace Progress

def next? (arg? : String → Option String) (p : Progress) : Option Progress :=
  match Text.cut? openBrace p.rest with
  | none => none
  | some (before, after) =>
      match Text.cut? closeBrace after with
      | some (name, rest) => some ⟨p.message ++ before ++ Part.filled arg? (.slot name), rest⟩
      | none => some ⟨p.message ++ p.rest, []⟩

def Reaches (arg? : String → Option String) : Progress → Progress → Prop :=
  Relation.ReflTransGen fun p q => p.next? arg? = some q

variable {p q : Progress}

theorem next?_cases (h : p.next? arg? = some q) :
    (∃ before name, openBrace ∉ before ∧ closeBrace ∉ name ∧
      p.rest = before ++ (Part.written (.slot name) ++ q.rest) ∧
      q.message = p.message ++ before ++ Part.filled arg? (.slot name)) ∨
    p.rest ≠ [] ∧ Slotless p.rest ∧ q.message = p.message ++ p.rest ∧ q.rest = [] := by
  unfold next? at h
  split at h
  · cases h
  · next before after hopen =>
      rcases Text.cut?_eq_some_iff.mp hopen with ⟨hbefore, hrest⟩
      split at h
      · next name rest hclose =>
          rcases Text.cut?_eq_some_iff.mp hclose with ⟨hname, rfl⟩
          cases h
          refine Or.inl ⟨before, name, hbefore, hname, ?_, rfl⟩
          rw [written_slot_append, hrest]
      · next hclose =>
          cases h
          refine Or.inr ⟨by simp [hrest], ?_, rfl, rfl⟩
          rw [hrest]
          exact slotless_unclosed hbefore (Text.cut?_eq_none_iff.mp hclose)

theorem length_next?_lt (h : p.next? arg? = some q) : q.rest.length < p.rest.length := by
  rcases next?_cases h with ⟨before, name, _, _, hrest, _⟩ | ⟨hsome, _, _, hrest⟩
  · rw [hrest]
    simp [Part.written]
    omega
  · rw [hrest]
    exact List.length_pos_iff.mpr hsome

theorem filling_next? (h : p.next? arg? = some q) :
    q.message ++ filling arg? q.rest = p.message ++ filling arg? p.rest := by
  rcases next?_cases h with ⟨before, name, hbefore, hname, hrest, hmessage⟩ |
    ⟨_, hslotless, hmessage, hrest⟩
  · rw [hmessage, hrest, filling_slot hbefore hname]
    simp
  · rw [hmessage, hrest, filling_of_slotless hslotless,
      filling_of_slotless (slotless_of_not_mem List.not_mem_nil), List.append_nil]

theorem filling_of_reaches (h : Reaches arg? p q) :
    q.message ++ filling arg? q.rest = p.message ++ filling arg? p.rest := by
  induction h with
  | refl => rfl
  | tail _ hround ih => exact (filling_next? hround).trans ih

theorem filling_of_next?_eq_none (h : p.next? arg? = none) : filling arg? p.rest = p.rest := by
  unfold next? at h
  split at h
  · next hopen => exact filling_of_slotless (slotless_of_not_mem (Text.cut?_eq_none_iff.mp hopen))
  · split at h <;> cases h

theorem exists_end (arg? : String → Option String) (p : Progress) :
    ∃ last, Reaches arg? p last ∧ last.next? arg? = none := by
  cases hnext : p.next? arg? with
  | none => exact ⟨p, Relation.ReflTransGen.refl, hnext⟩
  | some q =>
      have hshorter := length_next?_lt hnext
      rcases exists_end arg? q with ⟨last, hreaches, hlast⟩
      exact ⟨last, Relation.ReflTransGen.head hnext hreaches, hlast⟩
termination_by p.rest.length

end Progress

/-- A template has one way to be read as texts and slots, whatever the arguments, and the loop of
filling ends with these parts in turn: texts as they are, slots as their arguments, or as they were
written where there is none.  So an argument stands in the message as it is, and without arguments
the message is the template. -/
theorem fill_in_one_pass (template : String) :
    ∃ ps, (∀ ps', Scanned ps' ∧ ps'.flatMap Part.written = template.toList ↔ ps' = ps) ∧
      (∀ arg?, fill template arg? = String.ofList (ps.flatMap (Part.filled arg?))) ∧
      (∀ arg? before name after value, ps = before ++ .slot name :: after →
        arg? (String.ofList name) = some value →
        fill template arg? = String.ofList (before.flatMap (Part.filled arg?)) ++ value ++
          String.ofList (after.flatMap (Part.filled arg?))) ∧
      fill template (fun _ => none) = template ∧
      ∀ arg?, ∃ last, Progress.Reaches arg? ⟨[], template.toList⟩ last ∧
        last.next? arg? = none ∧
          fill template arg? = String.ofList (last.message ++ last.rest) := by
  refine ⟨parts template.toList, fun _ => scanned_written_iff, fun _ => rfl, ?_, ?_, ?_⟩
  · intro arg? before name after value hparts hvalue
    rw [fill, hparts, List.flatMap_append, List.flatMap_cons, filled_known hvalue,
      String.ofList_append, String.ofList_append, String.ofList_toList, String.append_assoc]
  · rw [← String.toList_inj, toList_fill, filling_none]
  · intro arg?
    rcases Progress.exists_end arg? ⟨[], template.toList⟩ with ⟨last, hreaches, hlast⟩
    refine ⟨last, hreaches, hlast, ?_⟩
    have hmessage := Progress.filling_of_reaches hreaches
    rw [Progress.filling_of_next?_eq_none hlast, List.nil_append] at hmessage
    rw [← String.toList_inj, toList_fill, String.toList_ofList, hmessage]

theorem fill_in_one_pass_braces :
    let arg? : String → Option String := fun name =>
      if name = "a" then some "\x7bb\x7d" else if name = "b" then some "x" else none
    let before : List Part := [.text ['\x7d'], .slot ['b'], .text []]
    let after : List Part := [.text [' '], .slot ['c', '\x7b', 'b'], .text []]
    parts "\x7d\x7bb\x7d\x7ba\x7d \x7bc\x7bb\x7d".toList = before ++ .slot ['a'] :: after ∧
      arg? "a" = some "\x7bb\x7d" ∧
      fill "\x7d\x7bb\x7d\x7ba\x7d \x7bc\x7bb\x7d" arg? = "\x7dx\x7bb\x7d \x7bc\x7bb\x7d" := by
  intro arg? before after
  have hparts : parts "\x7d\x7bb\x7d\x7ba\x7d \x7bc\x7bb\x7d".toList =
      before ++ .slot ['a'] :: after := by cbv
  have hvalue : arg? "a" = some "\x7bb\x7d" := rfl
  rcases fill_in_one_pass "\x7d\x7bb\x7d\x7ba\x7d \x7bc\x7bb\x7d" with
    ⟨ps, hunique, _, hargument, _⟩
  have hps : ps = before ++ .slot ['a'] :: after := by
    rw [← hparts]
    exact ((hunique _).mp ⟨scanned_parts _, written_parts _⟩).symm
  refine ⟨hparts, hvalue, ?_⟩
  rw [hargument arg? before ['a'] after _ hps hvalue]
  cbv

/-!
# Known slots

Behind a settled text a slot is filled.  Behind an opening brace that is still open it is part of a
longer name, and stays as it was written where that is no argument's name.
-/

theorem settled_slot_iff {rest : List Char} :
    Settled (before ++ (Part.written (.slot name) ++ rest)) ↔ Settled rest := by
  have hwritten : before ++ (Part.written (.slot name) ++ rest) =
      (before ++ openBrace :: name) ++ closeBrace :: rest := by
    simp [Part.written]
  rw [hwritten]
  constructor
  · intro h before' after' hrest
    exact h ((before ++ openBrace :: name) ++ closeBrace :: before') after' (by simp [hrest])
  · intro h before' after' heq
    rcases List.append_eq_append_iff.mp heq with ⟨inner, rfl, hinner⟩ | ⟨inner, hbefore, hinner⟩
    · cases inner with
      | nil => cases hinner
      | cons c more =>
          cases hinner
          exact h more after' rfl
    · cases inner with
      | nil => cases hinner
      | cons c more =>
          cases hinner
          simp

theorem filling_settled (hname : closeBrace ∉ name) (rest : List Char) (hcs : Settled cs) :
    filling arg? (cs ++ (Part.written (.slot name) ++ rest)) =
      filling arg? cs ++ (Part.filled arg? (.slot name) ++ filling arg? rest) := by
  induction cs using slots_induct with
  | last cs hslotless =>
      have hopen : openBrace ∉ cs := by
        intro hmem
        rcases List.append_of_mem hmem with ⟨before, after, hsplit⟩
        exact hslotless before after hsplit (hcs before after hsplit)
      rw [filling_slot hopen hname, filling_of_slotless hslotless]
  | slot before first more hbefore hfirst ih =>
      rw [List.append_assoc, List.append_assoc, filling_slot hbefore hfirst,
        filling_slot hbefore hfirst, ih (settled_slot_iff.mp hcs)]
      simp only [List.append_assoc]

theorem filling_unsettled (hname : closeBrace ∉ name) (rest : List Char) (hcs : ¬ Settled cs)
    (hargs : ∀ s, (arg? s).isSome = true → openBrace ∉ s.toList) :
    filling arg? (cs ++ (Part.written (.slot name) ++ rest)) =
      filling arg? cs ++ (Part.written (.slot name) ++ filling arg? rest) := by
  induction cs using slots_induct with
  | last cs hslotless =>
      cases hopen : Text.cut? openBrace cs with
      | none =>
          rw [Text.cut?_eq_none_iff] at hopen
          exact absurd (fun before after heq => absurd (by simp [heq]) hopen) hcs
      | some found =>
          rcases found with ⟨before, after⟩
          rcases Text.cut?_eq_some_iff.mp hopen with ⟨hbefore, rfl⟩
          have hafter : closeBrace ∉ after := hslotless before after rfl
          have hlonger : before ++ openBrace :: after ++ (Part.written (.slot name) ++ rest) =
              before ++ (Part.written (.slot (after ++ openBrace :: name)) ++ rest) := by
            simp [Part.written]
          have hclose : closeBrace ∉ after ++ openBrace :: name := by
            rw [List.mem_append, List.mem_cons]
            rintro (hin | hbrace | hin)
            · exact hafter hin
            · cases hbrace
            · exact hname hin
          have hunknown : arg? (String.ofList (after ++ openBrace :: name)) = none := by
            rw [← Option.not_isSome_iff_eq_none]
            intro hsome
            exact hargs _ hsome (by simp)
          rw [hlonger, filling_slot hbefore hclose, filled_unknown hunknown,
            filling_of_slotless hslotless]
          simp [Part.written]
  | slot before first more hbefore hfirst ih =>
      rw [List.append_assoc, List.append_assoc, filling_slot hbefore hfirst,
        filling_slot hbefore hfirst, ih fun hmore => hcs (settled_slot_iff.mpr hmore)]
      simp only [List.append_assoc]

end Template

namespace Fault

open Template

/-- The slot of an argument that a fault has is filled, wherever it stands in the template of its
message, exactly if no opening brace before it is still open.  Otherwise it is part of a longer
name, and it stays as it is written, if no argument's name has an opening brace in it. -/
theorem slots_are_filled_when_settled {f : Fault} {catalog : Catalog} {template key value : String}
    {before after : List Char} (htemplate : catalog.templates.get? f.message = some template)
    (hkey : closeBrace ∉ key.toList) (hvalue : f.args.get? key = some value)
    (hslot : template.toList = before ++ Part.written (.slot key.toList) ++ after) :
    (Settled before → f.format catalog = catalog.get f.kind.key ++ ": " ++
      fill (String.ofList before) f.args.get? ++ value ++
        fill (String.ofList after) f.args.get?) ∧
    (¬ Settled before →
      (∀ name, f.args.contains name = true → openBrace ∉ name.toList) →
      f.format catalog = catalog.get f.kind.key ++ ": " ++
        fill (String.ofList before) f.args.get? ++
          String.ofList (Part.written (.slot key.toList)) ++
            fill (String.ofList after) f.args.get?) := by
  have hmessage : (f.format catalog).toList = (catalog.get f.kind.key ++ ": ").toList ++
      filling f.args.get? (before ++ (Part.written (.slot key.toList) ++ after)) := by
    have hget : catalog.get f.message = template := by rw [Catalog.get, htemplate, Option.getD_some]
    rw [format, hget, String.toList_append, toList_fill, hslot, List.append_assoc]
  have hknown : Part.filled f.args.get? (.slot key.toList) = value.toList :=
    filled_known (by rw [String.ofList_toList, hvalue])
  constructor
  · intro hsettled
    rw [← String.toList_inj, hmessage, filling_settled hkey after hsettled, hknown]
    simp [toList_fill]
  · intro hopen hnames
    rw [← String.toList_inj, hmessage, filling_unsettled hkey after hopen hnames]
    simp [toList_fill]

theorem slots_are_filled_when_settled_second :
    let catalog : Catalog := ⟨Dictionary.ofList
      [("error.msg.bad_num_lit", "\x7d \x7bx\x7d\x7bliteral\x7d\x7bliteral\x7d \x7b")]⟩
    let f := (Cause.badNumber "\x7bx\x7d").fault
    let before := "\x7d \x7bx\x7d\x7bliteral\x7d".toList
    Settled before ∧ f.args.get? "literal" = some "\x7bx\x7d" ∧
      f.format catalog = "error.name.value_error: " ++
        fill (String.ofList before) f.args.get? ++ "\x7bx\x7d" ++
          fill (String.ofList [' ', '\x7b']) f.args.get? ∧
      f.format catalog = "error.name.value_error: \x7d \x7bx\x7d\x7bx\x7d\x7bx\x7d \x7b" := by
  intro catalog f before
  have hbefore : before = ['\x7d', ' '] ++ (Part.written (.slot ['x']) ++
      ([] ++ (Part.written (.slot "literal".toList) ++ []))) := by decide
  have hsettled : Settled before := by
    rw [hbefore, settled_slot_iff, settled_slot_iff]
    intro _ _ hnil
    exact absurd hnil (by simp)
  have hvalue : f.args.get? "literal" = some "\x7bx\x7d" := by cbv
  have htemplate : catalog.templates.get? f.message =
      some "\x7d \x7bx\x7d\x7bliteral\x7d\x7bliteral\x7d \x7b" := by cbv
  have hslot : "\x7d \x7bx\x7d\x7bliteral\x7d\x7bliteral\x7d \x7b".toList =
      before ++ Part.written (.slot "literal".toList) ++ [' ', '\x7b'] := by decide
  have hfilled := (slots_are_filled_when_settled htemplate (by decide) hvalue hslot).1 hsettled
  refine ⟨hsettled, hvalue, hfilled, ?_⟩
  cbv

theorem open_brace_hides_slot :
    let text := "error.msg.bad_num_lit=\x7b \x7bliteral\x7d"
    let catalog : Catalog := ⟨Dictionary.ofList
      [("error.msg.bad_num_lit", "\x7b \x7bliteral\x7d")]⟩
    let f := (Cause.badNumber "7").fault
    Catalog.ofText text = .ok catalog ∧ f.args.get? "literal" = some "7" ∧
      f.format catalog = "error.name.value_error: \x7b \x7bliteral\x7d" := by
  intro text catalog f
  have hlines : Text.lines text = [text] := by cbv
  have hkept : Catalog.isSkipped (Text.trimmed text.toList) = false := by cbv
  have hentry : Catalog.entry? (Text.trimmed text.toList) =
      some ("error.msg.bad_num_lit", "\x7b \x7bliteral\x7d") := by cbv
  have hread : Catalog.ofText text = .ok catalog := by
    simp only [Catalog.ofText, hlines, Catalog.addLines, hkept, hentry]
    rfl
  have hvalue : f.args.get? "literal" = some "7" := by cbv
  refine ⟨hread, hvalue, ?_⟩
  cbv

end Fault
end Blockwise
