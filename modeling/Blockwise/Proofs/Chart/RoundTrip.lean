import Blockwise.Chart.Format
import Blockwise.Proofs.Json.RoundTrip

/-!
# Saving and loading charts

Every chart is what its text says.  Loading checks the chart as well, so a chart that was saved
loads if it is valid, and otherwise fails as its own check does.
-/

namespace Blockwise
namespace Chart

/-!
# Plain values

What is written of a chart is plain: numbers are natural, and no string has a part missing.
-/

theorem isPlain_linkJson (link : Option BlockId) : (linkJson link).isPlain := by
  cases link with
  | none => rfl
  | some id => rfl

theorem isPlain_blockJson (b : Block) : (blockJson b).isPlain := by
  rcases b with ⟨id, content, kind⟩
  cases kind <;>
    simp [blockJson, object, kindFields, Json.isPlain, Json.membersArePlain, isPlain_linkJson,
      idJson, Json.text]

theorem arePlain_map_blockJson (blocks : List Block) :
    Json.arePlain (blocks.map blockJson) := by
  induction blocks with
  | nil => rfl
  | cons b blocks ih =>
      rw [List.map_cons, Json.arePlain, isPlain_blockJson b, ih]
      rfl

theorem isPlain_toJson (chart : Chart) : chart.toJson.isPlain := by
  simp [toJson, object, Json.isPlain, Json.membersArePlain, idJson, arePlain_map_blockJson]

/-!
# Fields

An id and a link are read from the fields that they are written in, and so is a link that is left
unset.
-/

theorem id?_idJson (id : BlockId) : id? (idJson id) = some id := by
  have hlt : id.word.toNat < UInt64.size := id.word.toNat_lt_size
  rw [idJson, id?, if_pos hlt, UInt64.ofNat_toNat]

theorem link?_linkJson {key : String} {members : Members} {link : Option BlockId}
    (hkey : Json.valuesOf key members = [linkJson link]) : link? key members = some link := by
  cases link with
  | none => simp [link?, optional?, hkey, linkJson]
  | some id =>
      have hid := id?_idJson id
      rw [idJson] at hid
      simp [link?, optional?, hkey, linkJson, idJson, hid]

theorem inRange_idJson (id : BlockId) : (idJson id).inRange := by
  have hlt : id.word.toNat < UInt64.size := id.word.toNat_lt_size
  rw [idJson, Json.inRange, Json.leading, if_pos hlt]
  simp [Json.isFinite]

theorem isSound_idJson (depth : Nat) (id : BlockId) : (idJson id).isSound depth := by
  have hrange := inRange_idJson id
  rw [idJson] at hrange ⊢
  rwa [Json.isSound]

theorem isSound_linkJson (depth : Nat) (link : Option BlockId) :
    (linkJson link).isSound depth := by
  cases link with
  | none => simp [linkJson, Json.isSound]
  | some id => exact isSound_idJson depth id

theorem isSound_blockJson (b : Block) : (blockJson b).isSound (depthLimit - 2) := by
  rcases b with ⟨id, content, kind⟩
  cases kind <;>
    simp [blockJson, object, kindFields, Json.isSound, Json.membersAreSound, isSound_idJson,
      isSound_linkJson, Json.text, depthLimit]

/-!
# Blocks

The name of the kind leads to the fields that were written for it.
-/

def blockMembers (b : Block) : Members :=
  ([("id", idJson b.id), ("content", Json.text b.content), ("kind", Json.text b.kind.formatName)]
    ++ kindFields b.kind).map fun (key, value) => (some key, value)

theorem once?_id (b : Block) : once? "id" (blockMembers b) = some (idJson b.id) := by
  rcases b with ⟨id, content, kind⟩
  cases kind <;> rfl

theorem content?_blockMembers (b : Block) : content? (blockMembers b) = some b.content := by
  rcases b with ⟨id, content, kind⟩
  cases kind <;> rfl

theorem once?_kind (b : Block) :
    once? "kind" (blockMembers b) = some (Json.text b.kind.formatName) := by
  rcases b with ⟨id, content, kind⟩
  cases kind <;> rfl

theorem kindName?_formatName (kind : BlockKind) :
    kindName? (Json.text kind.formatName) = some kind.formatName := by
  cases kind <;> rfl

theorem kind?_blockMembers (b : Block) : kind? (blockMembers b) = some b.kind := by
  rcases b with ⟨id, content, kind⟩
  simp only [kind?, once?_kind, Option.bind_eq_bind, Option.bind_some, kindName?_formatName]
  cases kind with
  | start next =>
      have hnext : link? "next" (blockMembers ⟨id, content, .start next⟩) = some next :=
        link?_linkJson rfl
      simp [BlockKind.formatName, hnext]
  | finish => rfl
  | input next =>
      have hnext : link? "next" (blockMembers ⟨id, content, .input next⟩) = some next :=
        link?_linkJson rfl
      have hinput : once? "is_input" (blockMembers ⟨id, content, .input next⟩) =
          some (.bool true) := rfl
      simp [BlockKind.formatName, hnext, hinput]
  | output next =>
      have hnext : link? "next" (blockMembers ⟨id, content, .output next⟩) = some next :=
        link?_linkJson rfl
      have hinput : once? "is_input" (blockMembers ⟨id, content, .output next⟩) =
          some (.bool false) := rfl
      simp [BlockKind.formatName, hnext, hinput]
  | decision onTrue onFalse =>
      have htrue : link? "on_true" (blockMembers ⟨id, content, .decision onTrue onFalse⟩) =
          some onTrue := link?_linkJson rfl
      have hfalse : link? "on_false" (blockMembers ⟨id, content, .decision onTrue onFalse⟩) =
          some onFalse := link?_linkJson rfl
      simp [BlockKind.formatName, htrue, hfalse]
  | declaration next =>
      have hnext : link? "next" (blockMembers ⟨id, content, .declaration next⟩) = some next :=
        link?_linkJson rfl
      simp [BlockKind.formatName, hnext]
  | assignment next =>
      have hnext : link? "next" (blockMembers ⟨id, content, .assignment next⟩) = some next :=
        link?_linkJson rfl
      simp [BlockKind.formatName, hnext]

theorem block?_blockJson (b : Block) : block? (blockJson b) = some b := by
  have hsound := isSound_blockJson b
  have hobject : blockJson b = .object (blockMembers b) := rfl
  rw [hobject] at hsound ⊢
  simp [block?, hsound, once?_id, id?_idJson, content?_blockMembers, kind?_blockMembers]

theorem mapM_block? (blocks : List Block) : (blocks.map blockJson).mapM block? = some blocks := by
  induction blocks with
  | nil => rfl
  | cons b blocks ih =>
      rw [List.map_cons, List.mapM_cons, block?_blockJson, ih]
      rfl

/-!
# Charts

The text of a chart has a start and its blocks, and nothing that a reader would skip.
-/

theorem ofJson?_toJson (chart : Chart) : ofJson? chart.toJson = some chart := by
  have hstart : once? "start" [(some "start", idJson chart.start),
      (some "blocks", .array (chart.blocks.map blockJson))] = some (idJson chart.start) := rfl
  have hblocks : once? "blocks" [(some "start", idJson chart.start),
      (some "blocks", .array (chart.blocks.map blockJson))] =
        some (.array (chart.blocks.map blockJson)) := rfl
  have hfields : ofFields? (idJson chart.start) (.array (chart.blocks.map blockJson)) =
      some chart := by
    simp only [ofFields?, id?_idJson, mapM_block?]
    rfl
  simp [toJson, object, ofJson?, hstart, hblocks, hfields]

/-- Every chart is what its text says, so loading it does no more than check it. -/
theorem ofText_eq_validate (chart : Chart) :
    ofText chart.toText = (do chart.validate; return chart) := by
  rw [ofText, toText, Json.ofText?_toText _ (isPlain_toJson chart), Option.bind_some,
    ofJson?_toJson]

theorem validate_of_ofText {text : String} {chart : Chart} (h : ofText text = .ok chart) :
    chart.validate = .ok () := by
  unfold ofText at h
  split at h
  · cases h
  · next found _ =>
      cases hvalid : found.validate with
      | error e =>
          rw [hvalid] at h
          cases h
      | ok u =>
          rw [hvalid] at h
          cases h
          exact hvalid

/-- A chart that was saved loads as itself if it is valid, and otherwise fails with the error of
its check; so saving what a text loads as and loading it again gives the same chart. -/
theorem ofText_toText :
    (∀ chart : Chart, chart.validate = .ok () → ofText chart.toText = .ok chart) ∧
      (∀ (chart : Chart) (error : ChartError), chart.validate = .error error →
        ofText chart.toText = .error error) ∧
      (∀ (text : String) (chart : Chart), ofText text = .ok chart →
        ofText chart.toText = .ok chart) := by
  have hvalid : ∀ chart : Chart, chart.validate = .ok () → ofText chart.toText = .ok chart := by
    intro chart hchart
    rw [ofText_eq_validate, hchart]
    rfl
  refine ⟨hvalid, ?_, ?_⟩
  · intro chart error hchart
    rw [ofText_eq_validate, hchart]
    rfl
  · intro text chart htext
    exact hvalid chart (validate_of_ofText htext)

theorem ofText_toText_loop :
    (ofText (toText ⟨⟨0⟩, [⟨⟨0⟩, "", .start (some ⟨1⟩)⟩,
        ⟨⟨1⟩, "\"é\t\x01\"", .output (some ⟨1⟩)⟩]⟩) =
      .ok ⟨⟨0⟩, [⟨⟨0⟩, "", .start (some ⟨1⟩)⟩, ⟨⟨1⟩, "\"é\t\x01\"", .output (some ⟨1⟩)⟩]⟩) ∧
    (ofText (toText ⟨⟨0⟩, [⟨⟨0⟩, "", .start none⟩, ⟨⟨0⟩, "", .finish⟩]⟩) =
      .error (.duplicateId ⟨0⟩)) :=
  ⟨ofText_toText.1 _ rfl, ofText_toText.2.1 _ _ rfl⟩

end Chart
end Blockwise
