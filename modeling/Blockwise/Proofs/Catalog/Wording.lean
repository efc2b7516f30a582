import Blockwise.Catalog.English
import Blockwise.Program
import Blockwise.Proofs.Dictionary
import Blockwise.Proofs.Evaluation.Failures
import Blockwise.Proofs.Evaluation.Soundness
import Mathlib

/-!
# Faults in words

The English catalog has a name for every kind of fault and a template for every cause, and every
cause has an argument for each slot of its template.  So whatever goes wrong with a source, a chart
or an evaluation reads in full: no slot stays open, and no key stands in for a text.
-/

namespace Blockwise

/-!
# Templates

A template whose slots all have arguments is filled completely.
-/

namespace Template

def slots (template : String) : List String :=
  (parts template.toList).filterMap fun
    | .text _ => none
    | .slot name => some (String.ofList name)

inductive Part.Reads (args : Dictionary String) : Part → List Char → Prop where
  | text {cs : List Char} : Reads args (.text cs) cs
  | slot {name : List Char} {value : String} :
      args.get? (String.ofList name) = some value → Reads args (.slot name) value.toList

/-- The message is the template with an argument in the place of every slot. -/
def Reads (args : Dictionary String) (template message : String) : Prop :=
  ∃ pieces, List.Forall₂ (Part.Reads args) (parts template.toList) pieces ∧
    message = String.ofList pieces.flatten

theorem Part.reads_filled {args : Dictionary String} {part : Part}
    (h : ∀ name, part = .slot name → args.contains (String.ofList name) = true) :
    part.Reads args (part.filled args.get?) := by
  cases part with
  | text cs => exact Reads.text
  | slot name =>
      rcases Option.isSome_iff_exists.mp (h name rfl) with ⟨value, hvalue⟩
      rw [filled, hvalue]
      exact Reads.slot hvalue

theorem reads_fill {args : Dictionary String} {template : String}
    (h : ∀ slot ∈ slots template, args.contains slot = true) :
    Reads args template (fill template args.get?) := by
  exists (parts template.toList).map (Part.filled args.get?)
  constructor
  · rw [List.forall₂_map_right_iff, List.forall₂_same]
    intro part hpart
    apply Part.reads_filled
    intro name hslot
    subst hslot
    exact h _ (List.mem_filterMap.mpr ⟨.slot name, hpart, rfl⟩)
  · rw [← List.flatMap_def]
    rfl

end Template

/-!
# Faults

A fault reads in full if the catalog has its name and its message, and an argument stands in the
place of every slot.
-/

/-- The fault reads in full in the words of the catalog: its name and its message are there, and
an argument stands in the place of every slot. -/
def Fault.ReadsIn (f : Fault) (catalog : Catalog) : Prop :=
  ∃ name template message,
    catalog.templates.get? f.kind.key = some name ∧
    catalog.templates.get? f.message = some template ∧
    (∀ slot ∈ Template.slots template, f.args.contains slot = true) ∧
    Template.Reads f.args template message ∧
    f.format catalog = name ++ ": " ++ message

theorem Fault.readsIn {f : Fault} {catalog : Catalog} {name template : String}
    (hname : catalog.templates.get? f.kind.key = some name)
    (htemplate : catalog.templates.get? f.message = some template)
    (hslots : ∀ slot ∈ Template.slots template, f.args.contains slot = true) :
    f.ReadsIn catalog := by
  refine ⟨name, template, _, hname, htemplate, hslots, Template.reads_fill hslots, ?_⟩
  simp [format, Catalog.get, hname, htemplate]

/-!
# The English catalog

The table has a message for the key of every cause, and its slots are among the arguments of the
cause.
-/

namespace Catalog

theorem nodup_englishKeys : ((englishNames ++ englishMessages).map Prod.fst).Nodup := by
  decide +kernel

theorem get?_english {key template : String}
    (h : (key, template) ∈ englishNames ++ englishMessages) :
    english.templates.get? key = some template :=
  Dictionary.get?_insertAll_of_mem ∅ nodup_englishKeys h

theorem exists_entry {entries : List (String × String)} {key : String}
    (h : key ∈ entries.map Prod.fst) : ∃ text, (key, text) ∈ entries := by
  rcases List.mem_map.mp h with ⟨⟨key, text⟩, hentry, rfl⟩
  exact ⟨text, hentry⟩

theorem exists_englishName (kind : FaultKind) : ∃ name, (kind.key, name) ∈ englishNames := by
  apply exists_entry
  cases kind <;> decide

theorem exists_englishMessage (cause : Cause) :
    ∃ template, (cause.key, template) ∈ englishMessages := by
  apply exists_entry
  cases cause <;>
    simp only [Cause.key, Cause.label, englishMessages, List.map_cons, List.map_nil,
      String.reduceAppend, List.mem_cons, String.reduceEq, true_or, false_or]

def Covers (template : String) (names : List String) : Bool :=
  (Template.slots template).all fun slot => names.contains slot

theorem covers_englishMessage {cause : Cause} {template : String}
    (h : (cause.key, template) ∈ englishMessages) :
    Covers template (cause.args.map Prod.fst) = true := by
  -- the constructor says which template is meant and which names the arguments have
  cases cause <;>
    simp only [Cause.key, Cause.label, englishMessages, String.reduceAppend, List.mem_cons,
      Prod.mk.injEq, String.reduceEq, false_and, true_and, false_or, or_false,
      List.not_mem_nil] at h <;>
    subst h <;>
    simp only [Cause.args, Cause.foundArgs, List.map_cons, List.map_nil] <;>
    decide +kernel

theorem readsIn_english (cause : Cause) : cause.fault.ReadsIn english := by
  rcases exists_englishName cause.kind with ⟨name, hname⟩
  rcases exists_englishMessage cause with ⟨template, hmessage⟩
  have hcovers := covers_englishMessage hmessage
  rw [Covers, List.all_eq_true] at hcovers
  apply Fault.readsIn
  · exact get?_english (List.mem_append_left _ hname)
  · exact get?_english (List.mem_append_right _ hmessage)
  · intro slot hslot
    have hname := List.contains_iff_mem.mp (hcovers slot hslot)
    exact Dictionary.contains_ofList.mpr hname

/-!
# Everything that goes wrong

The lexer, the parser and a build fail with a cause.  An evaluation fails with one as well, or with
the fault that a read was called off with.
-/

/-- What goes wrong with a source or with a chart reads in full, and so does what an evaluation of
a compiled source fails with, its reads being answered with a line or called off. -/
theorem faults_read_in_english :
    (∀ source cause, Lexer.tokens source = .error cause → cause.fault.ReadsIn english) ∧
    (∀ role source cause, Tree.ofSource role source = .error cause →
      cause.fault.ReadsIn english) ∧
    (∀ chart errors, Program.build chart = .error errors →
      ∀ e ∈ errors, e.cause.fault.ReadsIn english) ∧
    (∀ role source tree, Tree.ofSource role source = .ok tree →
      ∀ store : Store, store.Written →
        (tree.evaluate store).Ensures Evaluation.Interruptible fun r =>
          ∀ fault, r.1 = .error fault → fault.ReadsIn english) := by
  constructor
  · exact fun _ cause _ => readsIn_english cause
  constructor
  · exact fun _ _ cause _ => readsIn_english cause
  constructor
  · exact fun _ _ _ e _ => readsIn_english e.cause
  · intro role source tree hsource store hstore
    have hanswer : ∀ fault, Evaluation.Interruptible (.error fault) → fault.ReadsIn english := by
      intro fault hfault
      have hinterrupted : fault = Cause.interrupted.fault := hfault
      rw [hinterrupted]
      exact readsIn_english .interrupted
    have hfails := Tree.failsAs_of_ofSource (fun cause _ => readsIn_english cause) hanswer hsource
    have hvariables : store.FailsAs fun fault => fault.ReadsIn english :=
      fun name value hget => Value.failsAs_of_written (hstore name value hget)
    apply (hfails store hvariables).mono
    intro r hr fault hfault
    have hresult := hr.1
    rw [hfault] at hresult
    exact hresult

theorem faults_read_in_english_unfinished :
    Lexer.tokens "a # b" = .error (.unexpectedChar '#' 3) ∧
    (Cause.unexpectedChar '#' 3).fault.ReadsIn english ∧
    Tree.ofSource .output "" = .error (.expectedValue ⟨.endOfInput, 1⟩) ∧
    (Cause.expectedValue ⟨.endOfInput, 1⟩).fault.ReadsIn english ∧
    Program.build .new = .error [⟨some ⟨0⟩, .openLink ⟨0⟩⟩] ∧
    (Cause.openLink ⟨0⟩).fault.ReadsIn english ∧
    Tree.ofSource .decision "x" = .ok (.get "x") ∧
    Tree.evaluate (.get "x") ∅ = .done (.error (Cause.notDefined "x").fault, ∅) ∧
    (Cause.notDefined "x").fault.ReadsIn english := by
  rcases faults_read_in_english with ⟨htokens, hsource, hbuild, hevaluate⟩
  have hsign : Lexer.tokens "a # b" = .error (.unexpectedChar '#' 3) := by cbv
  have hvalue : Tree.ofSource .output "" = .error (.expectedValue ⟨.endOfInput, 1⟩) := by cbv
  have hlink : Program.build .new = .error [⟨some ⟨0⟩, .openLink ⟨0⟩⟩] := by cbv
  have hname : Tree.ofSource .decision "x" = .ok (.get "x") := by cbv
  have hresult : Tree.evaluate (.get "x") ∅ =
      .done (.error (Cause.notDefined "x").fault, ∅) := rfl
  have hopen := hbuild .new _ hlink ⟨some ⟨0⟩, .openLink ⟨0⟩⟩ List.mem_cons_self
  have hundefined := hevaluate .decision "x" (.get "x") hname ∅ Store.written_empty
  rw [hresult] at hundefined
  have hfault : (Cause.notDefined "x").fault.ReadsIn english := hundefined _ rfl
  exact ⟨hsign, htokens _ _ hsign, hvalue, hsource _ _ _ hvalue, hlink, hopen, hname, hresult,
    hfault⟩

end Catalog
end Blockwise
