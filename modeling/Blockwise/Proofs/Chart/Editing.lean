import Blockwise.Chart.Editing
import Blockwise.Proofs.Chart.RoundTrip
import Blockwise.Proofs.Chart.Walk
import Mathlib.Data.List.Nodup
import Mathlib.Data.List.Perm.Subperm

/-!
# Names of blocks

Each block of a chart has an id of its own, and none has the reserved one.  Loading a chart checks
this, a new block takes an id that is free, and no other edit changes an id.
-/

namespace Blockwise

namespace BlockKind

structure SetsLinks (relinked? : BlockKind → Option BlockKind) (targets : List BlockId) : Prop where
  shape : ∀ kind, (∃ relinked, relinked? kind = some relinked) ↔
    kind.links.length = targets.length
  result : ∀ kind relinked, relinked? kind = some relinked →
    relinked.role = kind.role ∧ relinked.links = targets.map some

theorem setsLinks_withNext? (target : BlockId) :
    SetsLinks (fun kind => kind.withNext? target) [target] where
  shape := by
    intro kind
    cases kind <;> simp [withNext?, links]
  result := by
    intro kind relinked h
    cases kind <;> cases h <;> exact ⟨rfl, rfl⟩

theorem setsLinks_withBranches? (onTrue onFalse : BlockId) :
    SetsLinks (fun kind => kind.withBranches? onTrue onFalse) [onTrue, onFalse] where
  shape := by
    intro kind
    cases kind <;> simp [withBranches?, links]
  result := by
    intro kind relinked h
    cases kind with
    | decision _ _ =>
        cases h
        exact ⟨rfl, rfl⟩
    | _ => cases h

theorem length_links_eq_two_iff {kind : BlockKind} :
    kind.links.length = 2 ↔ kind.role = .decision := by
  cases kind <;> simp [links, role]

end BlockKind

namespace Chart

variable {chart chart' : Chart} {id other : BlockId} {b : Block} {f : Block → Block}

/-- Each id names one block, the reserved id names none, and the start is that of a START
block. -/
structure WellNamed (chart : Chart) : Prop where
  nodup : chart.ids.Nodup
  unreserved : BlockId.reserved ∉ chart.ids
  start : ∃ b, chart.get? chart.start = some b ∧ b.kind.role = .start

/-!
# Loading

The check of a chart passes exactly where its blocks are well named.
-/

theorem checkIds_eq_ok_iff {earlier ids : List BlockId} :
    checkIds earlier ids = .ok () ↔
      ids.Nodup ∧ BlockId.reserved ∉ ids ∧ ∀ id ∈ ids, id ∉ earlier := by
  induction ids generalizing earlier with
  | nil => simp [checkIds]
  | cons id rest ih =>
      unfold checkIds
      split
      · next hreserved => simp [hreserved]
      · next hreserved =>
          split
          · next hearlier => simp [hearlier]
          · next hearlier =>
              rw [ih]
              simp only [List.nodup_cons, List.mem_cons, not_or, forall_eq_or_imp]
              constructor
              · intro hgiven
                rcases hgiven with ⟨hnodup, hfree, hrest⟩
                exact ⟨⟨fun hmem => (hrest id hmem).1 rfl, hnodup⟩,
                  ⟨fun hsame => hreserved hsame.symm, hfree⟩, hearlier,
                  fun i hi => (hrest i hi).2⟩
              · intro hgiven
                rcases hgiven with ⟨⟨hnew, hnodup⟩, ⟨_, hfree⟩, _, hrest⟩
                refine ⟨hnodup, hfree, ?_⟩
                intro i hi
                exact ⟨fun hsame => hnew (hsame ▸ hi), hrest i hi⟩

theorem validate_eq (chart : Chart) :
    chart.validate =
      (checkIds [] chart.ids).bind fun _ =>
        if ∃ b, chart.get? chart.start = some b ∧ b.kind.role = .start then .ok ()
        else .error (.badStart chart.start) := by
  unfold validate startBlock?
  cases hget : chart.get? chart.start with
  | none => simp [Bind.bind]
  | some b =>
      rcases b with ⟨id, content, kind⟩
      cases kind <;> simp [BlockKind.role, Bind.bind]

theorem validate_eq_ok_iff : chart.validate = .ok () ↔ chart.WellNamed := by
  have hids : checkIds [] chart.ids = .ok () ↔
      chart.ids.Nodup ∧ BlockId.reserved ∉ chart.ids := by
    simp [checkIds_eq_ok_iff]
  rw [validate_eq]
  constructor
  · intro h
    cases hcheck : checkIds [] chart.ids with
    | error e =>
        rw [hcheck] at h
        cases h
    | ok u =>
        rw [hcheck] at h
        rcases hids.mp hcheck with ⟨hnodup, hunreserved⟩
        refine ⟨hnodup, hunreserved, ?_⟩
        by_contra hstart
        simp [Except.bind, hstart] at h
  · intro h
    rw [hids.mpr ⟨h.nodup, h.unreserved⟩]
    simp [Except.bind, h.start]

theorem wellNamed_new : new.WellNamed :=
  validate_eq_ok_iff.mp rfl

/-!
# Changing a block

The block of an id is changed where it is, so the ids stay as they are in their order.
-/

theorem exists_modifyFirst {blocks : List Block} (h : blocks.find? (fun b => b.id = id) = some b)
    (f : Block → Block) :
    ∃ before after, blocks = before ++ b :: after ∧
      modifyFirst id f blocks = before ++ f b :: after := by
  induction blocks with
  | nil => cases h
  | cons first rest ih =>
      by_cases hid : first.id = id
      · simp only [List.find?_cons, hid, decide_true] at h
        cases h
        exact ⟨[], rest, rfl, by simp [modifyFirst, hid]⟩
      · simp only [List.find?_cons, hid, decide_false] at h
        rcases ih h with ⟨before, after, hrest, hmodified⟩
        refine ⟨first :: before, after, by rw [hrest]; rfl, ?_⟩
        rw [modifyFirst, if_neg hid, hmodified]
        rfl

theorem ids_modify (hf : ∀ b, (f b).id = b.id) (chart : Chart) (id : BlockId) :
    (chart.modify id f).ids = chart.ids := by
  have hids : ∀ blocks : List Block,
      (modifyFirst id f blocks).map Block.id = blocks.map Block.id := by
    intro blocks
    induction blocks with
    | nil => rfl
    | cons first rest ih =>
        unfold modifyFirst
        split
        · simp [hf]
        · simp [ih]
  exact hids chart.blocks

theorem get?_modify (hf : ∀ b, (f b).id = b.id) (chart : Chart) (id other : BlockId) :
    (chart.modify id f).get? other =
      if other = id then (chart.get? id).map f else chart.get? other := by
  have hfind : ∀ blocks : List Block,
      (modifyFirst id f blocks).find? (fun b => b.id = other) =
        if other = id then (blocks.find? (fun b => b.id = id)).map f
        else blocks.find? (fun b => b.id = other) := by
    intro blocks
    induction blocks with
    | nil => simp [modifyFirst]
    | cons first rest ih =>
        unfold modifyFirst
        by_cases hfirst : first.id = id
        · by_cases hother : other = id
          · simp [hfirst, hf, hother]
          · have hne : ¬id = other := fun hsame => hother hsame.symm
            simp [hfirst, hf, hother, hne]
        · by_cases hother : other = id
          · rw [if_pos hother] at ih ⊢
            rw [hother] at ih ⊢
            simp [hfirst, ih]
          · rw [if_neg hother] at ih ⊢
            by_cases hhere : first.id = other
            · simp [hhere, hother]
            · simp [hfirst, hhere, ih]
  exact hfind chart.blocks

theorem WellNamed.modify (h : chart.WellNamed) (hid : ∀ b, (f b).id = b.id)
    (hrole : ∀ b, chart.get? id = some b → (f b).kind.role = b.kind.role) :
    (chart.modify id f).WellNamed where
  nodup := by
    rw [ids_modify hid]
    exact h.nodup
  unreserved := by
    rw [ids_modify hid]
    exact h.unreserved
  start := by
    rcases h.start with ⟨b, hb, hstart⟩
    change ∃ b, (chart.modify id f).get? chart.start = some b ∧ _
    rw [get?_modify hid]
    split
    · next hsame =>
        rw [hsame] at hb
        refine ⟨f b, by rw [hb]; rfl, ?_⟩
        rw [hrole b hb, hstart]
    · exact ⟨b, hb, hstart⟩

/-!
# New ids

Among one more number than there are blocks, one is the id of no block.
-/

theorem lt_afterHighest {ids : List BlockId} (h : id ∈ ids) :
    id.word.toNat < ids.foldl (fun n id => max n (id.word.toNat + 1)) 0 := by
  have hfold : ∀ (ids : List BlockId) (n : Nat),
      n ≤ ids.foldl (fun n id => max n (id.word.toNat + 1)) n ∧
        ∀ id ∈ ids, id.word.toNat < ids.foldl (fun n id => max n (id.word.toNat + 1)) n := by
    intro ids
    induction ids with
    | nil => simp
    | cons first rest ih =>
        intro n
        rcases ih (max n (first.word.toNat + 1)) with ⟨hstart, hrest⟩
        refine ⟨by rw [List.foldl_cons]; omega, ?_⟩
        intro i hi
        rw [List.foldl_cons]
        rcases List.mem_cons.mp hi with rfl | hmem
        · omega
        · exact hrest i hmem
  exact (hfold ids 0).2 id h

theorem toNat_ofNat_of_lt {n : Nat} (h : n < UInt64.size - 1) : (UInt64.ofNat n).toNat = n :=
  UInt64.toNat_ofNat_of_lt' (by omega)

theorem ne_reserved_of_lt {n : Nat} (h : n < UInt64.size - 1) :
    (⟨UInt64.ofNat n⟩ : BlockId) ≠ .reserved := by
  intro hsame
  have hword : (UInt64.ofNat n).toNat = UInt64.size - 1 :=
    congrArg (fun id : BlockId => id.word.toNat) hsame
  rw [toNat_ofNat_of_lt h] at hword
  omega

theorem exists_free (h : chart.blocks.length < UInt64.size - 1) :
    ∃ n < chart.blocks.length + 1, (⟨UInt64.ofNat n⟩ : BlockId) ∉ chart.ids := by
  by_contra hnone
  push Not at hnone
  let names : List BlockId := (List.range (chart.blocks.length + 1)).map fun n => ⟨UInt64.ofNat n⟩
  have hsubset : names ⊆ chart.ids := by
    intro id hid
    rcases List.mem_map.mp hid with ⟨n, hn, rfl⟩
    exact hnone n (List.mem_range.mp hn)
  have hnodup : names.Nodup := by
    refine List.nodup_range.map_on ?_
    intro n hn m hm hsame
    rw [List.mem_range] at hn hm
    have hword : (UInt64.ofNat n).toNat = (UInt64.ofNat m).toNat :=
      congrArg (fun id : BlockId => id.word.toNat) hsame
    rwa [toNat_ofNat_of_lt (by omega), toNat_ofNat_of_lt (by omega)] at hword
  have hlength := (List.subperm_of_subset hnodup hsubset).length_le
  simp only [names, ids, List.length_map, List.length_range] at hlength
  omega

theorem lowestFree_fresh (h : chart.blocks.length < UInt64.size - 1) :
    chart.lowestFree ∉ chart.ids ∧ chart.lowestFree ≠ .reserved := by
  rcases exists_free h with ⟨n, hn, hfree⟩
  let isFree (n : Nat) : Bool := !chart.ids.contains ⟨UInt64.ofNat n⟩
  cases hfind : (List.range (chart.blocks.length + 1)).find? isFree with
  | none =>
      have hused := List.find?_eq_none.mp hfind n (List.mem_range.mpr hn)
      simp [isFree, hfree] at hused
  | some m =>
      have hm := List.mem_range.mp (List.mem_of_find?_eq_some hfind)
      have hfound := List.find?_some hfind
      have hlowest : chart.lowestFree = ⟨UInt64.ofNat m⟩ := by
        change BlockId.mk (UInt64.ofNat (((List.range _).find? isFree).getD 0)) = _
        rw [hfind]
        rfl
      rw [hlowest]
      exact ⟨by simpa [isFree] using hfound, ne_reserved_of_lt (by omega)⟩

theorem nextId_fresh (h : chart.blocks.length < UInt64.size - 1) :
    chart.nextId ∉ chart.ids ∧ chart.nextId ≠ .reserved := by
  unfold nextId
  dsimp only
  split
  · next hbelow =>
      have hsmall : chart.ids.foldl (fun n id => max n (id.word.toNat + 1)) 0 < UInt64.size - 1 :=
        hbelow
      refine ⟨?_, ne_reserved_of_lt hsmall⟩
      intro hmem
      have hlt := lt_afterHighest hmem
      rw [toNat_ofNat_of_lt hsmall] at hlt
      exact Nat.lt_irrefl _ hlt
  · exact lowestFree_fresh h

theorem get?_add_of_some (h : chart.get? id = some b) (kind : BlockKind) (content : String) :
    (chart.add kind content).2.get? id = some b := by
  unfold get? at h ⊢
  simp only [add, List.find?_append, h]
  rfl

theorem WellNamed.add (h : chart.WellNamed) (hroom : chart.blocks.length < UInt64.size - 1)
    (kind : BlockKind) (content : String) : (chart.add kind content).2.WellNamed := by
  rcases nextId_fresh hroom with ⟨hnew, hfree⟩
  have hids : (chart.add kind content).2.ids = chart.ids ++ [chart.nextId] := by
    simp [Chart.add, ids]
  refine ⟨?_, ?_, ?_⟩
  · rw [hids, List.nodup_append]
    refine ⟨h.nodup, List.nodup_singleton _, ?_⟩
    intro id hid other hother hsame
    rw [List.mem_singleton.mp hother] at hsame
    exact hnew (hsame ▸ hid)
  · rw [hids, List.mem_append, List.mem_singleton, not_or]
    exact ⟨h.unreserved, fun hsame => hfree hsame.symm⟩
  · rcases h.start with ⟨b, hb, hstart⟩
    exact ⟨b, get?_add_of_some hb kind content, hstart⟩

/-!
# Setting links

Both ways to set links look for the targets first, then for the block, and then at its shape.
-/

def relink (chart : Chart) (targets : List BlockId) (source : BlockId)
    (relinked? : BlockKind → Option BlockKind) (refusal : ChartError) : Except ChartError Chart :=
  match targets.find? (fun target => !chart.has target) with
  | some target => .error (.unknownBlock target)
  | none =>
      match chart.get? source with
      | none => .error (.unknownBlock source)
      | some b =>
          match relinked? b.kind with
          | none => .error refusal
          | some kind => .ok (chart.setKind source kind)

theorem connect_eq (chart : Chart) (source target : BlockId) :
    chart.connect source target =
      chart.relink [target] source (fun kind => kind.withNext? target) (.notLinear source) := by
  unfold connect relink require
  cases htarget : chart.get? target with
  | none => simp [has, htarget, Bind.bind, Except.bind]
  | some t =>
      cases hsource : chart.get? source with
      | none => simp [has, htarget, Bind.bind, Except.bind]
      | some b =>
          cases hkind : b.kind.withNext? target with
          | none => simp [has, htarget, hkind, Bind.bind, Except.bind]
          | some kind => simp [has, htarget, hkind, Bind.bind, Except.bind, pure, Except.pure]

theorem connectBranch_eq (chart : Chart) (source onTrue onFalse : BlockId) :
    chart.connectBranch source onTrue onFalse =
      chart.relink [onTrue, onFalse] source (fun kind => kind.withBranches? onTrue onFalse)
        (.notDecision source) := by
  unfold connectBranch relink require
  cases htrue : chart.get? onTrue with
  | none => simp [has, htrue, Bind.bind, Except.bind]
  | some t =>
      cases hfalse : chart.get? onFalse with
      | none => simp [has, htrue, hfalse, Bind.bind, Except.bind]
      | some f =>
          cases hsource : chart.get? source with
          | none => simp [has, htrue, hfalse, Bind.bind, Except.bind]
          | some b =>
              cases hkind : b.kind.withBranches? onTrue onFalse with
              | none => simp [has, htrue, hfalse, hkind, Bind.bind, Except.bind]
              | some kind =>
                  simp [has, htrue, hfalse, hkind, Bind.bind, Except.bind, pure, Except.pure]

variable {source : BlockId} {targets : List BlockId} {relinked? : BlockKind → Option BlockKind}
  {refusal error : ChartError}

theorem relink_eq_ok_iff :
    chart.relink targets source relinked? refusal = .ok chart' ↔
      (∀ target ∈ targets, chart.has target = true) ∧
        ∃ b kind, chart.get? source = some b ∧ relinked? b.kind = some kind ∧
          chart.setKind source kind = chart' := by
  have htargets : targets.find? (fun target => !chart.has target) = none ↔
      ∀ target ∈ targets, chart.has target = true := by
    simp
  rw [← htargets]
  unfold relink
  cases targets.find? (fun target => !chart.has target) with
  | some target => simp
  | none =>
      cases chart.get? source with
      | none => simp
      | some b => cases hkind : relinked? b.kind <;> simp [hkind]

def Relinked (chart : Chart) (source : BlockId) (targets : List BlockId) (chart' : Chart) : Prop :=
  ∃ before b after kind,
    chart.blocks = before ++ b :: after ∧ b.id = source ∧
      kind.role = b.kind.role ∧ kind.links = targets.map some ∧
      chart' = { chart with blocks := before ++ { b with kind := kind } :: after }

/-- Setting links works exactly where the targets are there, and the block with as many links.
Nothing but these links changes. -/
theorem relink_spec (hsets : BlockKind.SetsLinks relinked? targets) :
    ((∃ chart', chart.relink targets source relinked? refusal = .ok chart') ↔
        (∀ target ∈ targets, chart.has target = true) ∧
          ∃ b, chart.get? source = some b ∧ b.kind.links.length = targets.length) ∧
      ∀ chart', chart.relink targets source relinked? refusal = .ok chart' →
        chart.Relinked source targets chart' := by
  constructor
  · constructor
    · intro hgiven
      rcases hgiven with ⟨chart', h⟩
      rcases relink_eq_ok_iff.mp h with ⟨htargets, b, kind, hb, hkind, _⟩
      exact ⟨htargets, b, hb, (hsets.shape b.kind).mp ⟨kind, hkind⟩⟩
    · intro hgiven
      rcases hgiven with ⟨htargets, b, hb, hshape⟩
      rcases (hsets.shape b.kind).mpr hshape with ⟨kind, hkind⟩
      exact ⟨_, relink_eq_ok_iff.mpr ⟨htargets, b, kind, hb, hkind, rfl⟩⟩
  · intro chart' h
    rcases relink_eq_ok_iff.mp h with ⟨_, b, kind, hb, hkind, rfl⟩
    rcases hsets.result b.kind kind hkind with ⟨hrole, hlinks⟩
    rcases exists_modifyFirst hb fun b => { b with kind := kind } with
      ⟨before, after, hblocks, hmodified⟩
    refine ⟨before, b, after, kind, hblocks, id_of_get? hb, hrole, hlinks, ?_⟩
    rw [setKind, modify, hmodified]

theorem connect_spec (chart : Chart) (source target : BlockId) :
    ((∃ chart', chart.connect source target = .ok chart') ↔
        chart.has target = true ∧ ∃ b, chart.get? source = some b ∧ b.kind.links.length = 1) ∧
      ∀ chart', chart.connect source target = .ok chart' →
        chart.Relinked source [target] chart' := by
  rw [connect_eq]
  simpa using relink_spec (BlockKind.setsLinks_withNext? target)

theorem connectBranch_spec (chart : Chart) (source onTrue onFalse : BlockId) :
    ((∃ chart', chart.connectBranch source onTrue onFalse = .ok chart') ↔
        (chart.has onTrue = true ∧ chart.has onFalse = true) ∧
          ∃ b, chart.get? source = some b ∧ b.kind.role = .decision) ∧
      ∀ chart', chart.connectBranch source onTrue onFalse = .ok chart' →
        chart.Relinked source [onTrue, onFalse] chart' := by
  rw [connectBranch_eq]
  simpa [BlockKind.length_links_eq_two_iff] using
    relink_spec (BlockKind.setsLinks_withBranches? onTrue onFalse)

theorem WellNamed.relink (h : chart.WellNamed) (hsets : BlockKind.SetsLinks relinked? targets)
    (hrelink : chart.relink targets source relinked? refusal = .ok chart') :
    chart'.WellNamed := by
  rcases relink_eq_ok_iff.mp hrelink with ⟨_, b, kind, hb, hkind, rfl⟩
  refine h.modify (fun _ => rfl) ?_
  intro b' hb'
  cases hb.symm.trans hb'
  exact (hsets.result b.kind kind hkind).1

/-!
# Charts as they are drawn

A chart is drawn by edits, from the empty one or from a text.  An edit that is refused leaves it as
it was.
-/

inductive Edit where
  | add (kind : BlockKind) (content : String)
  | connect (source target : BlockId)
  | connectBranch (source onTrue onFalse : BlockId)
  | setContent (id : BlockId) (content : String)

namespace Edit

def isAdd : Edit → Bool
  | add _ _ => true
  | _ => false

end Edit

def edited (chart : Chart) : Edit → Except ChartError Chart
  | .add kind content => .ok (chart.add kind content).2
  | .connect source target => chart.connect source target
  | .connectBranch source onTrue onFalse => chart.connectBranch source onTrue onFalse
  | .setContent id content => .ok (chart.setContent id content)

def edit (chart : Chart) (e : Edit) : Chart :=
  (chart.edited e).toOption.getD chart

/-- The charts that come from the empty one or from a text by edits.  There is always an id left
for a block that is added. -/
inductive Drawn : Chart → Prop where
  | new : Drawn new
  | loaded {text : String} {chart : Chart} : ofText text = .ok chart → Drawn chart
  | edit {chart : Chart} (e : Edit) : Drawn chart →
      (e.isAdd = true → chart.blocks.length < UInt64.size - 1) → Drawn (chart.edit e)

theorem edit_of_error {e : Edit} (h : chart.edited e = .error error) : chart.edit e = chart := by
  rw [edit, h]
  rfl

theorem WellNamed.edited (h : chart.WellNamed) {e : Edit}
    (hroom : e.isAdd = true → chart.blocks.length < UInt64.size - 1)
    (hedited : chart.edited e = .ok chart') : chart'.WellNamed := by
  cases e with
  | add kind content =>
      cases hedited
      exact h.add (hroom rfl) kind content
  | connect source target =>
      rw [Chart.edited, connect_eq] at hedited
      exact h.relink (BlockKind.setsLinks_withNext? target) hedited
  | connectBranch source onTrue onFalse =>
      rw [Chart.edited, connectBranch_eq] at hedited
      exact h.relink (BlockKind.setsLinks_withBranches? onTrue onFalse) hedited
  | setContent id content =>
      cases hedited
      exact h.modify (fun _ => rfl) fun _ _ => rfl

theorem Drawn.wellNamed (h : chart.Drawn) : chart.WellNamed := by
  induction h with
  | new => exact wellNamed_new
  | loaded htext => exact validate_eq_ok_iff.mp (validate_of_ofText htext)
  | @edit chart e _ hroom ih =>
      cases hedited : chart.edited e with
      | error error =>
          rw [edit_of_error hedited]
          exact ih
      | ok chart' =>
          have hedit : chart.edit e = chart' := by
            rw [Chart.edit, hedited]
            rfl
          rw [hedit]
          exact ih.edited hroom hedited

end Chart
end Blockwise
