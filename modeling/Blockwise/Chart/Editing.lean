import Blockwise.Chart

/-!
# Editing charts

A block is changed by its id, a new one takes the next id, and links are set to blocks that the
chart has.
-/

namespace Blockwise
namespace Chart

def modifyFirst (id : BlockId) (f : Block → Block) : List Block → List Block
  | [] => []
  | b :: rest => if b.id = id then f b :: rest else b :: modifyFirst id f rest

/-- Changes the block that `get?` finds for the id. -/
def modify (chart : Chart) (id : BlockId) (f : Block → Block) : Chart :=
  { chart with blocks := modifyFirst id f chart.blocks }

def setContent (chart : Chart) (id : BlockId) (content : String) : Chart :=
  chart.modify id fun b => { b with content := content }

def setKind (chart : Chart) (id : BlockId) (kind : BlockKind) : Chart :=
  chart.modify id fun b => { b with kind := kind }

def setId (chart : Chart) (id newId : BlockId) : Chart :=
  chart.modify id fun b => { b with id := newId }

def lowestFree (chart : Chart) : BlockId :=
  let isFree (n : Nat) : Bool := !chart.ids.contains ⟨UInt64.ofNat n⟩
  ⟨UInt64.ofNat (((List.range (chart.blocks.length + 1)).find? isFree).getD 0)⟩

/-- The id for the next block: one more than the highest, or the lowest free one where that
would be the reserved id. -/
def nextId (chart : Chart) : BlockId :=
  let afterHighest := chart.ids.foldl (fun n id => max n (id.word.toNat + 1)) 0
  if afterHighest < BlockId.reserved.word.toNat then ⟨UInt64.ofNat afterHighest⟩
  else chart.lowestFree

def add (chart : Chart) (kind : BlockKind) (content : String) : BlockId × Chart :=
  let id := chart.nextId
  (id, { chart with blocks := chart.blocks ++ [⟨id, content, kind⟩] })

def require (chart : Chart) (id : BlockId) : Except ChartError Block :=
  match chart.get? id with
  | some b => .ok b
  | none => .error (.unknownBlock id)

/-- Points the single link of a block at a block. -/
def connect (chart : Chart) (source target : BlockId) : Except ChartError Chart := do
  let _ ← chart.require target
  let b ← chart.require source
  match b.kind.withNext? target with
  | some kind => return chart.setKind source kind
  | none => .error (.notLinear source)

/-- Points both branches of a decision at blocks. -/
def connectBranch (chart : Chart) (source onTrue onFalse : BlockId) :
    Except ChartError Chart := do
  let _ ← chart.require onTrue
  let _ ← chart.require onFalse
  let b ← chart.require source
  match b.kind.withBranches? onTrue onFalse with
  | some kind => return chart.setKind source kind
  | none => .error (.notDecision source)

end Chart
end Blockwise
