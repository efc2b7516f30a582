import Blockwise.Desk.Window
import Blockwise.Proofs.Chart.Editing
import Blockwise.Proofs.Desk.Sitting

/-!
# Fresh diagnostics

What is wrong with the blocks is kept beside the chart, and renewed for a block when something is
typed into its field.  So it is at any time what a new desk with the same chart would find: the
blocks that hold a source and do not compile, each with its error in the words of the catalog.
-/

namespace Blockwise

/-!
# Blocks by id

An id names one block at most, so a change of the block leaves what is found by any other id as it
was.
-/

namespace Chart

variable {chart : Chart} {id : BlockId} {b : Block}

theorem find?_at {before after : List Block} (h : b.id ∉ before.map Block.id) :
    (before ++ b :: after).find? (fun other => other.id = b.id) = some b := by
  have hnone : before.find? (fun other => other.id = b.id) = none := by
    rw [List.find?_eq_none]
    intro other hother hid
    exact h (List.mem_map.mpr ⟨other, hother, of_decide_eq_true hid⟩)
  simp [List.find?_append, hnone]

theorem modifyFirst_at {before after : List Block} (h : b.id ∉ before.map Block.id)
    (f : Block → Block) :
    modifyFirst b.id f (before ++ b :: after) = before ++ f b :: after := by
  induction before with
  | nil => simp [modifyFirst]
  | cons first before ih =>
      rw [List.map_cons, List.mem_cons, not_or] at h
      rw [List.cons_append, modifyFirst, if_neg (Ne.symm h.1), ih h.2]
      rfl

theorem ids_setContent (chart : Chart) (id : BlockId) (content : String) :
    (chart.setContent id content).ids = chart.ids := by
  have hid : ∀ b : Block, ({ b with content := content } : Block).id = b.id := fun _ => rfl
  exact ids_modify hid chart id

theorem get?_setContent (chart : Chart) (id other : BlockId) (content : String) :
    (chart.setContent id content).get? other =
      if other = id then (chart.get? id).map fun b => { b with content := content }
      else chart.get? other := by
  have hid : ∀ b : Block, ({ b with content := content } : Block).id = b.id := fun _ => rfl
  exact get?_modify hid chart id other

end Chart

namespace Desk

variable {d : Desk} {id other : BlockId} {text : String} {stale : List BlockId}
  {diagnosis : Option String} {diagnostics diagnostics' : List (BlockId × String)}

/-!
# Diagnostics by id

The diagnostics are in the order of ids, with no more than one for each.  Two lists of them that say
the same about every block are the same list.
-/

def ById (diagnostics : List (BlockId × String)) : Prop :=
  diagnostics.Pairwise fun x y => x.1.word < y.1.word

theorem not_mem_of_before (h : ∀ entry ∈ diagnostics, id.word < entry.1.word) :
    (id, text) ∉ diagnostics := by
  intro hmem
  exact absurd (h _ hmem) (UInt64.lt_irrefl _)

theorem ById.nodup (h : ById diagnostics) : (diagnostics.map Prod.fst).Nodup := by
  unfold List.Nodup
  rw [List.pairwise_map]
  apply h.imp
  intro x y hlt hsame
  rw [hsame] at hlt
  exact UInt64.lt_irrefl _ hlt

theorem ById.ext (h : ById diagnostics) (h' : ById diagnostics')
    (hmem : ∀ entry, entry ∈ diagnostics ↔ entry ∈ diagnostics') : diagnostics = diagnostics' := by
  have hperm : diagnostics.Perm diagnostics' :=
    (List.perm_ext_iff_of_nodup h.nodup.of_map h'.nodup.of_map).mpr hmem
  apply hperm.eq_of_pairwise _ h h'
  intro x y _ _ hlt hgt
  exact absurd (UInt64.lt_trans hlt hgt) (UInt64.lt_irrefl _)

theorem mem_own : (other, text) ∈ (diagnosis.map (id, ·)).toList ↔
    other = id ∧ diagnosis = some text := by
  cases diagnosis with
  | none => simp
  | some found => simp [eq_comm, and_comm]

theorem mem_putDiagnosis (h : ById diagnostics) :
    (other, text) ∈ putDiagnosis id diagnosis diagnostics ↔
      if other = id then diagnosis = some text else (other, text) ∈ diagnostics := by
  induction diagnostics with
  | nil =>
      rw [putDiagnosis, mem_own]
      split <;> simp_all
  | cons first rest ih =>
      rcases List.pairwise_cons.mp h with ⟨hfirst, hrest⟩
      rw [putDiagnosis]
      split
      · next hhere =>
          have hlater : (id, text) ∉ rest := by
            rw [hhere] at hfirst
            exact not_mem_of_before hfirst
          rw [List.mem_append, mem_own]
          by_cases hother : other = id
          · simp [hother, hlater]
          · have hne : (other, text) ≠ first := by
              intro hsame
              rw [← hsame] at hhere
              exact hother hhere
            simp [hother, hne]
      · next hhere =>
          split
          · next hbefore =>
              have hlater : (id, text) ∉ first :: rest := by
                apply not_mem_of_before
                intro entry hentry
                rcases List.mem_cons.mp hentry with rfl | hentry
                · exact hbefore
                · exact UInt64.lt_trans hbefore (hfirst entry hentry)
              rw [List.mem_append, mem_own]
              by_cases hother : other = id
              · simp only [hother, hlater, true_and, or_false, if_true]
              · simp [hother]
          · rw [List.mem_cons, ih hrest]
            by_cases hother : other = id
            · have hne : (id, text) ≠ first := by
                intro hsame
                rw [← hsame] at hhere
                exact hhere rfl
              simp [hother, hne]
            · simp [hother]

theorem ById.putDiagnosis (h : ById diagnostics) (id : BlockId) (diagnosis : Option String) :
    ById (putDiagnosis id diagnosis diagnostics) := by
  have hown : ById (diagnosis.map (id, ·)).toList := by
    cases diagnosis with
    | none => exact List.Pairwise.nil
    | some found => exact List.pairwise_singleton _ _
  have hbelow : ∀ {entries : List (BlockId × String)}, ById entries →
      (∀ entry ∈ entries, id.word < entry.1.word) →
      ById ((diagnosis.map (id, ·)).toList ++ entries) := by
    intro entries hentries hlater
    apply List.pairwise_append.mpr
    refine ⟨hown, hentries, ?_⟩
    intro x hx entry hentry
    rw [(mem_own.mp hx).1]
    exact hlater entry hentry
  induction diagnostics with
  | nil => exact hown
  | cons first rest ih =>
      rcases List.pairwise_cons.mp h with ⟨hfirst, hrest⟩
      rw [Desk.putDiagnosis]
      split
      · next hhere =>
          rw [hhere] at hfirst
          exact hbelow hrest hfirst
      · next hhere =>
          split
          · next hbefore =>
              apply hbelow h
              intro entry hentry
              rcases List.mem_cons.mp hentry with rfl | hentry
              · exact hbefore
              · exact UInt64.lt_trans hbefore (hfirst entry hentry)
          · next hafter =>
              have hword : first.1.word ≠ id.word := fun hsame => hhere (congrArg BlockId.mk hsame)
              have hbefore := UInt64.lt_of_le_of_ne (UInt64.not_lt.mp hafter) hword
              apply List.pairwise_cons.mpr
              constructor
              · intro entry hentry
                have hentry' : (entry.1, entry.2) ∈ Desk.putDiagnosis id diagnosis rest := hentry
                rw [mem_putDiagnosis hrest] at hentry'
                split at hentry'
                · next hsame =>
                    rw [hsame]
                    exact hbefore
                · exact hfirst entry hentry'
              · exact ih hrest

/-!
# Renewing diagnoses

The diagnostics are stale for the blocks that are listed and fresh for all others.  Renewing a
diagnosis leaves one stale block less, and at a new desk every block has been looked at.
-/

def finding? (catalog : Catalog) (chart : Chart) (id : BlockId) : Option String :=
  (chart.get? id).bind (diagnosis? catalog)

theorem diagnosis?_eq_some_iff {catalog : Catalog} {b : Block} :
    diagnosis? catalog b = some text ↔
      b.kind.role.isTerminal = false ∧
        ∃ cause, b.compile = .error cause ∧ text = cause.fault.format catalog := by
  unfold diagnosis?
  cases hterminal : b.kind.role.isTerminal with
  | true => simp
  | false =>
      cases hcompile : b.compile with
      | ok tree => simp
      | error cause => simp [eq_comm]

theorem finding?_eq_some_iff {catalog : Catalog} {chart : Chart} (hnodup : chart.ids.Nodup) :
    finding? catalog chart id = some text ↔
      ∃ b ∈ chart.blocks, b.id = id ∧ b.kind.role.isTerminal = false ∧
        ∃ cause, b.compile = .error cause ∧ text = cause.fault.format catalog := by
  unfold finding?
  rw [Option.bind_eq_some_iff]
  constructor
  · intro hfound
    rcases hfound with ⟨b, hb, hdiagnosis⟩
    exact ⟨b, Chart.mem_blocks_of_get? hb, Chart.id_of_get? hb,
      diagnosis?_eq_some_iff.mp hdiagnosis⟩
  · intro hfound
    rcases hfound with ⟨b, hb, rfl, hdiagnosis⟩
    exact ⟨b, Chart.get?_of_mem hnodup hb, diagnosis?_eq_some_iff.mpr hdiagnosis⟩

/-- The diagnostics are those of the chart, except perhaps for the blocks that are listed. -/
structure FreshBut (stale : List BlockId) (d : Desk) : Prop where
  byId : ById d.diagnostics
  mem : ∀ id text, id ∉ stale →
    ((id, text) ∈ d.diagnostics ↔ finding? d.catalog d.chart id = some text)

abbrev Fresh (d : Desk) : Prop :=
  d.FreshBut []

theorem FreshBut.validate (h : d.FreshBut (id :: stale))
    (hgone : d.chart.get? id = none → ∀ text, (id, text) ∉ d.diagnostics) :
    (d.validate id).FreshBut stale := by
  have hothers : ∀ other text, other ∉ stale → other ≠ id →
      ((other, text) ∈ d.diagnostics ↔ finding? d.catalog d.chart other = some text) := by
    intro other text hother hne
    apply h.mem
    rw [List.mem_cons, not_or]
    exact ⟨hne, hother⟩
  cases hget : d.chart.get? id with
  | none =>
      rw [Desk.validate, hget]
      constructor
      · exact h.byId
      · intro other text hother
        by_cases hsame : other = id
        · simp [finding?, hsame, hget, hgone hget text]
        · exact hothers other text hother hsame
  | some b =>
      rw [Desk.validate, hget]
      constructor
      · exact h.byId.putDiagnosis id (diagnosis? d.catalog b)
      · intro other text hother
        show (other, text) ∈ Desk.putDiagnosis id (diagnosis? d.catalog b) d.diagnostics ↔
          finding? d.catalog d.chart other = some text
        rw [mem_putDiagnosis h.byId]
        split
        · next hsame => simp [finding?, hsame, hget]
        · next hne => exact hothers other text hother hne

theorem FreshBut.validateEach {ids : List BlockId} (h : d.FreshBut ids)
    (hids : ∀ id ∈ ids, d.chart.has id = true) : (ids.foldl Desk.validate d).Fresh := by
  induction ids generalizing d with
  | nil => exact h
  | cons id ids ih =>
      rw [List.foldl_cons]
      have hhas := hids id List.mem_cons_self
      have hgone : d.chart.get? id = none → ∀ text, (id, text) ∉ d.diagnostics := by
        intro hnone
        rw [Chart.has, hnone] at hhas
        cases hhas
      apply ih (h.validate hgone)
      rcases d.exists_validate id with ⟨diagnostics, hvalidate⟩
      intro other hother
      rw [hvalidate]
      exact hids other (List.mem_cons_of_mem id hother)

theorem fresh_new (chart : Chart) (catalog : Catalog) (delay : Nat) :
    (Desk.new chart catalog delay).Fresh := by
  apply FreshBut.validateEach
  · constructor
    · exact List.Pairwise.nil
    · intro id text hid
      show (id, text) ∈ [] ↔ (chart.get? id).bind _ = some text
      simp [Chart.get?_eq_none hid]
  · intro id hid
    exact Chart.has_iff_mem_ids.mpr hid

theorem mem_diagnostics_new {chart : Chart} {catalog : Catalog} {delay : Nat} :
    (id, text) ∈ (Desk.new chart catalog delay).diagnostics ↔
      finding? catalog chart id = some text := by
  rcases exists_validateAll _ with ⟨diagnostics, hnew⟩
  rw [(fresh_new chart catalog delay).mem id text List.not_mem_nil, Desk.new, hnew]

theorem FreshBut.eq_new (h : d.Fresh) (delay : Nat) :
    d.diagnostics = (Desk.new d.chart d.catalog delay).diagnostics := by
  apply h.byId.ext (fresh_new d.chart d.catalog delay).byId
  rintro ⟨id, text⟩
  rw [h.mem id text List.not_mem_nil, mem_diagnostics_new]

theorem FreshBut.edit (h : d.Fresh) (id : BlockId) (content : String) :
    (d.edit id content).Fresh := by
  apply FreshBut.validate
  · constructor
    · exact h.byId
    · intro other text hother
      rw [List.mem_singleton] at hother
      show (other, text) ∈ d.diagnostics ↔ ((d.chart.setContent id content).get? other).bind _ = _
      rw [Chart.get?_setContent, if_neg hother]
      exact h.mem other text List.not_mem_nil
  · intro hnone text
    have hbefore : d.chart.get? id = none := by
      have hchanged : (d.chart.setContent id content).get? id = none := hnone
      rwa [Chart.get?_setContent, if_pos rfl, Option.map_eq_none_iff] at hchanged
    show (id, text) ∉ d.diagnostics
    rw [h.mem id text List.not_mem_nil, finding?, hbefore]
    simp

/-!
# Typing into the fields

What is typed in a frame changes the fields place by place, and the blocks that hold no source have
none.  The fields are locked while the run is live.  What was typed is looked at after all of them.
-/

def typeInto : List (Option String) → List Block → List Block × List BlockId
  | some text :: typed, b :: rest =>
      let (blocks, edited) := typeInto typed rest
      if b.kind.role.isTerminal then (b :: blocks, edited)
      else ({ b with content := text } :: blocks, b.id :: edited)
  | none :: typed, b :: rest =>
      let (blocks, edited) := typeInto typed rest
      (b :: blocks, edited)
  | _, blocks => (blocks, [])

def typeFields (d : Desk) (typed : List (Option String)) : Desk :=
  if d.run.isLive then d
  else
    let (blocks, edited) := typeInto typed d.chart.blocks
    edited.foldl validate { d with chart := { d.chart with blocks := blocks } }

section Typing

variable {typed : List (Option String)} {blocks : List Block}

theorem ids_typeInto : (typeInto typed blocks).1.map Block.id = blocks.map Block.id := by
  fun_induction typeInto typed blocks with
  | case1 text typed b rest blocks edited hrest hterminal ih =>
      rw [hrest] at ih
      simp [ih]
  | case2 text typed b rest blocks edited hrest hterminal ih =>
      rw [hrest] at ih
      simp [ih]
  | case3 typed b rest blocks edited hrest ih =>
      rw [hrest] at ih
      simp [ih]
  | case4 => rfl

theorem mem_ids_of_edited (h : id ∈ (typeInto typed blocks).2) : id ∈ blocks.map Block.id := by
  fun_induction typeInto typed blocks with
  | case1 text typed b rest blocks edited hrest hterminal ih =>
      rw [hrest] at ih
      exact List.mem_cons_of_mem _ (ih h)
  | case2 text typed b rest blocks edited hrest hterminal ih =>
      rw [hrest] at ih
      rcases List.mem_cons.mp h with rfl | hlater
      · exact List.mem_cons_self
      · exact List.mem_cons_of_mem _ (ih hlater)
  | case3 typed b rest blocks edited hrest ih =>
      rw [hrest] at ih
      exact List.mem_cons_of_mem _ (ih h)
  | case4 => cases h

theorem find?_typeInto (h : id ∉ (typeInto typed blocks).2) :
    (typeInto typed blocks).1.find? (fun b => b.id = id) = blocks.find? (fun b => b.id = id) := by
  fun_induction typeInto typed blocks with
  | case1 text typed b rest blocks edited hrest hterminal ih =>
      rw [hrest] at ih
      rw [List.find?_cons, List.find?_cons, ih h]
  | case2 text typed b rest blocks edited hrest hterminal ih =>
      rw [hrest] at ih
      rw [List.mem_cons, not_or] at h
      have hother : ¬ b.id = id := fun hsame => h.1 hsame.symm
      simp [hother, ih h.2]
  | case3 typed b rest blocks edited hrest ih =>
      rw [hrest] at ih
      rw [List.find?_cons, List.find?_cons, ih h]
  | case4 => rfl

theorem FreshBut.typeFields (h : d.Fresh) (typed : List (Option String)) :
    (d.typeFields typed).Fresh := by
  unfold Desk.typeFields
  split
  · exact h
  · apply FreshBut.validateEach
    · constructor
      · exact h.byId
      · intro id text hid
        show (id, text) ∈ d.diagnostics ↔ (List.find? _ _).bind _ = _
        rw [find?_typeInto hid]
        exact h.mem id text List.not_mem_nil
    · intro id hid
      apply Chart.has_iff_mem_ids.mpr
      show id ∈ List.map _ _
      rw [ids_typeInto]
      exact mem_ids_of_edited hid

theorem exists_typeFields (d : Desk) (typed : List (Option String)) :
    ∃ chart diagnostics, chart.ids = d.chart.ids ∧
      d.typeFields typed = { d with chart := chart, diagnostics := diagnostics } := by
  unfold typeFields
  split
  · exact ⟨d.chart, d.diagnostics, rfl, rfl⟩
  · let chart : Chart := { d.chart with blocks := (typeInto typed d.chart.blocks).1 }
    rcases exists_validateEach { d with chart := chart } (typeInto typed d.chart.blocks).2 with
      ⟨diagnostics, hvalidate⟩
    exact ⟨chart, diagnostics, ids_typeInto, hvalidate⟩

theorem typeInto_nil (blocks : List Block) : typeInto [] blocks = (blocks, []) := by
  cases blocks <;> rfl

theorem typeInto_at (before after : List Block) (b : Block) (text : String) :
    typeInto (before.map (fun _ => none) ++ [some text]) (before ++ b :: after) =
      if b.kind.role.isTerminal then (before ++ b :: after, [])
      else (before ++ { b with content := text } :: after, [b.id]) := by
  induction before with
  | nil =>
      show typeInto [some text] (b :: after) = _
      rw [typeInto, typeInto_nil]
      rfl
  | cons first before ih =>
      rw [List.map_cons, List.cons_append, List.cons_append, typeInto, ih]
      by_cases hterminal : b.kind.role.isTerminal = true <;> simp [hterminal]

theorem editField_eq_typeFields {before after : List Block} {b : Block}
    (hblocks : d.chart.blocks = before ++ b :: after) (hfirst : b.id ∉ before.map Block.id)
    (htext : b.content ≠ text) :
    Window.editField d b.id text =
      d.typeFields (before.map (fun _ => none) ++ [some text]) := by
  have hget : d.chart.get? b.id = some b := by
    rw [Chart.get?, hblocks, Chart.find?_at hfirst]
  have hchanged : d.chart.setContent b.id text =
      { d.chart with blocks := before ++ { b with content := text } :: after } := by
    rw [Chart.setContent, Chart.modify, hblocks, Chart.modifyFirst_at hfirst]
  rw [Window.editField, hget, typeFields, hblocks, typeInto_at]
  by_cases hlive : d.run.isLive = true
  · simp [hlive]
  · by_cases hterminal : b.kind.role.isTerminal = true
    · simp [hlive, hterminal, ← hblocks]
    · simp [hlive, hterminal, htext, edit, hchanged]

end Typing

end Desk

/-!
# Sittings with typing

Nothing but an edit touches the chart or its diagnostics.
-/

/-- What can be done in a window: something is typed into the fields of a frame, or the desk and
the worker have a turn. -/
inductive Gesture where
  | fields (typed : List (Option String))
  | turn (turn : Turn)

def Catalog.bare : Catalog where
  templates := ∅

namespace Sitting

def gesture (s : Sitting) : Gesture → Sitting
  | .fields typed => { s with desk := s.desk.typeFields typed }
  | .turn turn => s.step turn

def gestures (s : Sitting) (done : List Gesture) : Sitting :=
  done.foldl gesture s

theorem desk_step (s : Sitting) {turn : Turn} (hturn : ∀ id content, turn ≠ .edit id content) :
    (s.step turn).desk.chart = s.desk.chart ∧ (s.step turn).desk.catalog = s.desk.catalog ∧
      (s.step turn).desk.diagnostics = s.desk.diagnostics := by
  have hbegin : (s.begin turn).desk.chart = s.desk.chart ∧
      (s.begin turn).desk.catalog = s.desk.catalog ∧
      (s.begin turn).desk.diagnostics = s.desk.diagnostics := by
    cases turn with
    | edit id content => exact absurd rfl (hturn id content)
    | control call =>
        rw [begin]
        split <;> exact ⟨rfl, rfl, rfl⟩
    | _ => exact ⟨rfl, rfl, rfl⟩
  cases turn with
  | work chance => exact ⟨rfl, rfl, rfl⟩
  | proceed =>
      show s.proceed.desk.chart = _ ∧ s.proceed.desk.catalog = _ ∧ s.proceed.desk.diagnostics = _
      unfold proceed
      split <;> exact ⟨rfl, rfl, rfl⟩
  | _ =>
      by_cases hfree : s.isFree
      · simpa only [step, if_pos hfree] using hbegin
      · simp only [step, if_neg hfree, and_self]

structure Diagnosed (catalog : Catalog) (s : Sitting) : Prop where
  catalog : s.desk.catalog = catalog
  nodup : s.desk.chart.ids.Nodup
  fresh : s.desk.Fresh

variable {s : Sitting} {catalog : Catalog}

theorem diagnosed_new {chart : Chart} (hchart : chart.Drawn) (catalog : Catalog) (delay : Nat) :
    (new chart catalog delay).Diagnosed catalog := by
  rcases Desk.exists_validateAll _ with ⟨diagnostics, hnew⟩
  have hfresh := Desk.fresh_new chart catalog delay
  constructor
  · show (Desk.new chart catalog delay).catalog = catalog
    rw [Desk.new, hnew]
  · show (Desk.new chart catalog delay).chart.ids.Nodup
    rw [Desk.new, hnew]
    exact hchart.wellNamed.nodup
  · exact hfresh

theorem Diagnosed.edit (h : s.Diagnosed catalog) (id : BlockId) (content : String) :
    Diagnosed catalog { s with desk := s.desk.edit id content } := by
  rcases s.desk.exists_edit id content with ⟨diagnostics, hedit⟩
  constructor
  · show (s.desk.edit id content).catalog = catalog
    rw [hedit]
    exact h.catalog
  · show (s.desk.edit id content).chart.ids.Nodup
    rw [hedit, Chart.ids_setContent]
    exact h.nodup
  · exact h.fresh.edit id content

theorem Diagnosed.step (h : s.Diagnosed catalog) (turn : Turn) :
    (s.step turn).Diagnosed catalog := by
  by_cases hedit : ∃ id content, turn = .edit id content
  · rcases hedit with ⟨id, content, rfl⟩
    by_cases hfree : s.isFree
    · simp only [Sitting.step, if_pos hfree]
      exact h.edit id content
    · simp only [Sitting.step, if_neg hfree]
      exact h
  · have hturn : ∀ id content, turn ≠ .edit id content := by
      intro id content hsame
      exact hedit ⟨id, content, hsame⟩
    rcases s.desk_step hturn with ⟨hchart, hcatalog, hdiagnostics⟩
    constructor
    · rw [hcatalog]
      exact h.catalog
    · rw [hchart]
      exact h.nodup
    · constructor
      · rw [hdiagnostics]
        exact h.fresh.byId
      · rw [hdiagnostics, hchart, hcatalog]
        exact h.fresh.mem

theorem Diagnosed.gesture (h : s.Diagnosed catalog) (g : Gesture) :
    (s.gesture g).Diagnosed catalog := by
  cases g with
  | fields typed =>
      rcases s.desk.exists_typeFields typed with ⟨chart, diagnostics, hids, htyped⟩
      constructor
      · show (s.desk.typeFields typed).catalog = catalog
        rw [htyped]
        exact h.catalog
      · show (s.desk.typeFields typed).chart.ids.Nodup
        rw [htyped, hids]
        exact h.nodup
      · exact h.fresh.typeFields typed
  | turn turn => exact h.step turn

theorem Diagnosed.gestures (h : s.Diagnosed catalog) (done : List Gesture) :
    (s.gestures done).Diagnosed catalog := by
  induction done generalizing s with
  | nil => exact h
  | cons g done ih => exact ih (h.gesture g)

/-- Whatever is typed and done in a window, what it says about the blocks is what a new one would
say about the same chart: the blocks that hold a source and do not compile have an entry, which is
their error in the words of the catalog. -/
theorem diagnostics_are_fresh {chart : Chart} (hchart : chart.Drawn) (catalog : Catalog)
    (delay : Nat) (done : List Gesture) :
    let d := ((new chart catalog delay).gestures done).desk
    d.diagnostics = (Desk.new d.chart catalog delay).diagnostics ∧
      (d.diagnostics.map Prod.fst).Nodup ∧
      ∀ id text, (id, text) ∈ d.diagnostics ↔
        ∃ b ∈ d.chart.blocks, b.id = id ∧ b.kind.role.isTerminal = false ∧
          ∃ cause, b.compile = .error cause ∧ text = cause.fault.format catalog := by
  intro d
  have hd := (diagnosed_new hchart catalog delay).gestures done
  have hnew := hd.fresh.eq_new delay
  rw [hd.catalog] at hnew
  refine ⟨hnew, hd.fresh.byId.nodup, ?_⟩
  intro id text
  rw [hd.fresh.mem id text List.not_mem_nil, hd.catalog]
  exact Desk.finding?_eq_some_iff hd.nodup

def retyping : List Gesture :=
  [.fields [none, some ""], .fields [none, some "x"], .turn (.edit ⟨1⟩ "")]

theorem diagnostics_are_fresh_retyping :
    let chart := Chart.new.edit (.add (.output none) "x")
    let d := ((new chart .bare 0).gestures retyping).desk
    chart.Drawn ∧ d.diagnostics = [(⟨1⟩, "error.name.syntax_error: error.msg.expected_value")] ∧
      d.diagnostics = (Desk.new d.chart .bare 0).diagnostics ∧
      ∃ b ∈ d.chart.blocks, b.id = ⟨1⟩ ∧ ∃ cause, b.compile = .error cause := by
  intro chart d
  have hdrawn : chart.Drawn := Chart.Drawn.new.edit _ fun _ => by decide
  have hdiagnostics : d.diagnostics =
      [(⟨1⟩, "error.name.syntax_error: error.msg.expected_value")] := by cbv
  rcases diagnostics_are_fresh hdrawn .bare 0 retyping with ⟨hnew, _, hmem⟩
  have hentry : (⟨1⟩, "error.name.syntax_error: error.msg.expected_value") ∈ d.diagnostics := by
    rw [hdiagnostics]
    exact List.mem_cons_self
  rcases (hmem _ _).mp hentry with ⟨b, hb, hid, _, cause, hcompile, _⟩
  exact ⟨hdrawn, hdiagnostics, hnew, b, hb, hid, cause, hcompile⟩

end Sitting
end Blockwise
