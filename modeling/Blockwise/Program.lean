import Blockwise.Chart
import Blockwise.Tree.Parser

/-!
# Programs

A program holds the compiled form of every block that a run of a chart can reach, except END
blocks: a run ends where there is nothing to carry out.  Building one reports every failure that
it meets, in the order of a breadth-first walk from the block after START.
-/

namespace Blockwise

inductive Successor where
  | next (target : BlockId)
  | branch (onTrue onFalse : BlockId)
  deriving DecidableEq

namespace Successor

def targets : Successor → List BlockId
  | next target => [target]
  | branch onTrue onFalse => [onTrue, onFalse]

end Successor

structure BuildError where
  block : Option BlockId
  cause : Cause

/-- A block as a run carries it out. -/
structure Step where
  tree : Tree
  successor : Successor

namespace Block

def compile (b : Block) : Except Cause Tree :=
  Tree.ofSource b.kind.role b.content

end Block

namespace Chart

/-!
# Links

A link resolves if it is set and leads to a block.  A block has a successor if it has links and all
of them resolve.
-/

def resolves (chart : Chart) (link : Option BlockId) : Bool :=
  link.any chart.has

def openLink (id : BlockId) : BuildError :=
  ⟨some id, .openLink id⟩

def linkErrors (chart : Chart) (b : Block) : List BuildError :=
  (b.kind.links.filter (fun link => !chart.resolves link)).map fun _ => openLink b.id

def successor? (chart : Chart) (b : Block) : Option Successor :=
  match b.kind.links.all chart.resolves, b.kind.links with
  | true, [some target] => some (.next target)
  | true, [some onTrue, some onFalse] => some (.branch onTrue onFalse)
  | _, _ => none

def targets (chart : Chart) (b : Block) : List BlockId :=
  match chart.successor? b with
  | some s => s.targets
  | none => []

/-!
# Reachable blocks

The walk does not go on from END, nor from a block with a link that does not resolve.
-/

/-- Which of the targets are unseen, each once, and what remains unseen. -/
def discover (unseen : List BlockId) : List BlockId → List BlockId × List BlockId
  | [] => ([], unseen)
  | target :: rest =>
      if target ∈ unseen then
        let (found, remaining) := discover (unseen.filter (· ≠ target)) rest
        (target :: found, remaining)
      else discover unseen rest

theorem length_discover_le (unseen targets : List BlockId) :
    (discover unseen targets).1.length + (discover unseen targets).2.length
      ≤ unseen.length := by
  induction targets generalizing unseen with
  | nil => simp [discover]
  | cons target rest ih =>
      unfold discover
      split
      · next member =>
          have shorter : (unseen.filter (· ≠ target)).length < unseen.length :=
            List.length_filter_lt_length_iff_exists.mpr ⟨target, member, by simp⟩
          have step := ih (unseen.filter (· ≠ target))
          simp only [List.length_cons]
          omega
      · exact ih unseen

/-- The blocks that are reached from the queued ids, in the order of a breadth-first walk.  The
walk does not go on from END, nor from a block with a link that does not resolve. -/
def walk (chart : Chart) (queue unseen : List BlockId) : List Block :=
  match queue with
  | [] => []
  | id :: rest =>
      match chart.get? id with
      | none => walk chart rest unseen
      | some b =>
          if b.kind = .finish then walk chart rest unseen
          else
            have := length_discover_le unseen (chart.targets b)
            b :: walk chart (rest ++ (discover unseen (chart.targets b)).1)
              (discover unseen (chart.targets b)).2
termination_by queue.length + unseen.length
decreasing_by
  · simp
  · simp
  · simp only [List.length_append, List.length_cons]
    omega

def reach (chart : Chart) (entry : BlockId) : List Block :=
  chart.walk [entry] (chart.ids.filter (· ≠ entry))

/-!
# Building

A build starts at the block after START, and compiles what it reaches from there.
-/

def compileErrors (b : Block) : List BuildError :=
  match b.compile with
  | .ok _ => []
  | .error cause => [⟨some b.id, cause⟩]

def entry (chart : Chart) : Except BuildError BlockId :=
  match chart.startBlock? with
  | none => .error ⟨none, .openLink chart.start⟩
  | some b =>
      match b.kind with
      | .start (some target) =>
          if chart.has target then .ok target else .error (openLink b.id)
      | _ => .error (openLink b.id)

def step? (chart : Chart) (b : Block) : Option (BlockId × Step) :=
  match chart.successor? b, b.compile with
  | some successor, .ok tree => some (b.id, ⟨tree, successor⟩)
  | _, _ => none

end Chart

structure Program where
  entry : BlockId
  steps : List (BlockId × Step)

namespace Program

def get? (program : Program) (id : BlockId) : Option Step :=
  program.steps.lookup id

def size (program : Program) : Nat :=
  program.steps.length

def isEmpty (program : Program) : Bool :=
  program.steps.isEmpty

def build (chart : Chart) : Except (List BuildError) Program :=
  match chart.entry with
  | .error e => .error [e]
  | .ok entry =>
      let blocks := chart.reach entry
      let errors := blocks.flatMap fun b => chart.linkErrors b ++ Chart.compileErrors b
      if errors.isEmpty then .ok ⟨entry, blocks.filterMap chart.step?⟩
      else .error errors

end Program

end Blockwise
