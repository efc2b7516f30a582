import Blockwise.Chart.Role

/-!
# Flowcharts

A chart is a list of blocks that refer to each other by id, and the id of its START block.
Links may be unset while a chart is being drawn, and they may lead back.
-/

namespace Blockwise

/-- A block's role with its outgoing links; a link that is not set is missing. -/
inductive BlockKind where
  | start (next : Option BlockId)
  | finish
  | input (next : Option BlockId)
  | output (next : Option BlockId)
  | decision (onTrue onFalse : Option BlockId)
  | declaration (next : Option BlockId)
  | assignment (next : Option BlockId)
  deriving DecidableEq, Repr

namespace BlockKind

def role : BlockKind → Role
  | start _ => .start
  | finish => .finish
  | input _ => .input
  | output _ => .output
  | decision _ _ => .decision
  | declaration _ => .declaration
  | assignment _ => .assignment

def ofRole : Role → BlockKind
  | .start => start none
  | .finish => finish
  | .input => input none
  | .output => output none
  | .decision => decision none none
  | .declaration => declaration none
  | .assignment => assignment none

/-- The outgoing links; a decision's true branch comes first. -/
def links : BlockKind → List (Option BlockId)
  | finish => []
  | decision onTrue onFalse => [onTrue, onFalse]
  | start next | input next | output next | declaration next | assignment next => [next]

def withNext? (kind : BlockKind) (target : BlockId) : Option BlockKind :=
  match kind with
  | start _ => some (start (some target))
  | input _ => some (input (some target))
  | output _ => some (output (some target))
  | declaration _ => some (declaration (some target))
  | assignment _ => some (assignment (some target))
  | finish | decision _ _ => none

def withBranches? (kind : BlockKind) (onTrue onFalse : BlockId) : Option BlockKind :=
  match kind with
  | decision _ _ => some (decision (some onTrue) (some onFalse))
  | _ => none

end BlockKind

structure Block where
  id : BlockId
  content : String
  kind : BlockKind
  deriving DecidableEq

structure Chart where
  start : BlockId
  blocks : List Block
  deriving DecidableEq

inductive ChartError where
  | json
  | reservedId (id : BlockId)
  | duplicateId (id : BlockId)
  | badStart (id : BlockId)
  | unknownBlock (id : BlockId)
  | notLinear (id : BlockId)
  | notDecision (id : BlockId)
  deriving DecidableEq

namespace ChartError

def message : ChartError → String
  | json => "invalid flowchart JSON"
  | reservedId id => "block id " ++ id.text ++ " is reserved"
  | duplicateId id => "block id " ++ id.text ++ " is used more than once"
  | badStart id => "start block " ++ id.text ++ " is missing or not a START block"
  | unknownBlock id => "no block with id " ++ id.text
  | notLinear id => "block " ++ id.text ++ " has no single outgoing link"
  | notDecision id => "block " ++ id.text ++ " is not a decision block"

end ChartError

namespace Chart

def new : Chart where
  start := ⟨0⟩
  blocks := [⟨⟨0⟩, "", .start none⟩]

def ids (chart : Chart) : List BlockId :=
  chart.blocks.map Block.id

def get? (chart : Chart) (id : BlockId) : Option Block :=
  chart.blocks.find? (fun b => b.id = id)

def has (chart : Chart) (id : BlockId) : Bool :=
  (chart.get? id).isSome

def startBlock? (chart : Chart) : Option Block :=
  chart.get? chart.start

/-!
# Validity

A valid chart has distinct ids, none of them reserved, and its start is that of a START block.
-/

/-- The first fault among the ids of the blocks; `earlier` are the ids before them. -/
def checkIds (earlier : List BlockId) : List BlockId → Except ChartError Unit
  | [] => .ok ()
  | id :: rest =>
      if id = .reserved then .error (.reservedId id)
      else if id ∈ earlier then .error (.duplicateId id)
      else checkIds (id :: earlier) rest

def validate (chart : Chart) : Except ChartError Unit := do
  checkIds [] chart.ids
  match chart.startBlock? with
  | some ⟨_, _, .start _⟩ => .ok ()
  | _ => .error (.badStart chart.start)

end Chart

end Blockwise
