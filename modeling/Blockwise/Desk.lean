import Blockwise.Catalog.English
import Blockwise.Chart.Editing
import Blockwise.Run.Rest
import Blockwise.Text

/-!
# The desk

The desk is where a chart is edited and run: it keeps, beside the chart, what is wrong with its
blocks, the current run and a console that shows what the run wrote, read and failed with.
-/

namespace Blockwise

inductive ConsoleLine where
  | written (s : String)
  | entered (s : String)
  | failed (s : String)
  deriving DecidableEq, Repr

inductive Tab where
  | console
  | table
  deriving DecidableEq, Repr

structure Desk where
  chart : Chart
  catalog : Catalog
  diagnostics : List (BlockId × String)
  run : Run
  delay : Nat
  console : Array ConsoleLine
  input : String
  errorBlock : Option BlockId
  tab : Tab
  wasLive : Bool

namespace Desk

/-!
# Diagnostics

The desk keeps what is wrong with the blocks that do not compile, in the words of the catalog.
Blocks that hold no source are never wrong.
-/

def diagnosis? (catalog : Catalog) (b : Block) : Option String :=
  if b.kind.role.isTerminal then none
  else
    match b.compile with
    | .ok _ => none
    | .error cause => some (cause.fault.format catalog)

def putDiagnosis (id : BlockId) (diagnosis : Option String) :
    List (BlockId × String) → List (BlockId × String)
  | [] => (diagnosis.map (id, ·)).toList
  | entry :: rest =>
      if entry.1 = id then (diagnosis.map (id, ·)).toList ++ rest
      else if id.word < entry.1.word then (diagnosis.map (id, ·)).toList ++ entry :: rest
      else entry :: putDiagnosis id diagnosis rest

/-- Renews the diagnosis of a block that exists. -/
def validate (d : Desk) (id : BlockId) : Desk :=
  match d.chart.get? id with
  | none => d
  | some b =>
      { d with diagnostics := putDiagnosis id (diagnosis? d.catalog b) d.diagnostics }

def validateAll (d : Desk) : Desk :=
  d.chart.ids.foldl validate d

def new (chart : Chart) (catalog : Catalog) (delay : Nat) : Desk :=
  validateAll
    { chart := chart
      catalog := catalog
      diagnostics := []
      run := .new delay
      delay := delay
      console := #[]
      input := ""
      errorBlock := none
      tab := .console
      wasLive := false }

/-- Changes the content of a block and renews its diagnosis. -/
def edit (d : Desk) (id : BlockId) (content : String) : Desk :=
  { d with chart := d.chart.setContent id content }.validate id

/-!
# Running

A run is started with an empty console and polled as long as the desk shows it.
-/

def buildErrorLine (catalog : Catalog) (e : BuildError) : ConsoleLine :=
  let place := match e.block with
    | some id => id.text ++ " "
    | none => ""
  .failed (place ++ e.cause.fault.format catalog)

def startRun (d : Desk) : Desk :=
  let (errors, run) := (Run.new d.delay).start d.chart
  { d with
    run := run
    console := (errors.map (buildErrorLine d.catalog)).toArray
    input := ""
    errorBlock := errors.findSome? BuildError.block }

def submitInput (d : Desk) : Desk :=
  let (taken, run) := d.run.submit d.input
  { d with
    run := run
    input := ""
    console := if taken then d.console.push (.entered d.input) else d.console }

/-- Takes what the run has sent, a batch from each channel; tells whether anything came. -/
def poll (d : Desk) : Bool × Desk :=
  let (lines, run) := d.run.drainOutput
  let (faults, run) := run.drainErrors
  let (updates, run) := run.drainUpdates
  let written := lines.map ConsoleLine.written
  let failed := faults.map fun f => ConsoleLine.failed (f.format d.catalog)
  (!(lines.isEmpty && faults.isEmpty && updates.isEmpty),
    { d with
      run := run
      console := d.console ++ (written ++ failed).toArray
      errorBlock := if faults.isEmpty then d.errorBlock else run.current? })

/-- Polls for a frame; tells whether another frame is needed: while the run is live, once more
after it has ended, and as long as something comes. -/
def needsRepaint (d : Desk) : Bool × Desk :=
  let live := d.run.isLive
  let (came, polled) := d.poll
  (live || (d.wasLive && !live) || came, { polled with wasLive := live })

def settle (o : Observer) (d : Desk) : Desk :=
  { d with run := d.run.settle o }

def pending (d : Desk) : Nat :=
  match d.run.engine with
  | none => 0
  | some e => e.wires.output.size + e.wires.errors.size + e.wires.updates.size

def pollFor : Nat → Desk → Desk
  | 0, d => d
  | n + 1, d =>
      match d.poll with
      | (true, d') => pollFor n d'
      | (false, d') => d'

def pollAll (d : Desk) : Desk :=
  pollFor (d.pending + 1) d

end Desk

/-!
# Texts

The links of a block and the values of variables are shown as texts.
-/

namespace BlockKind

def linkText : Option BlockId → String
  | some id => id.text
  | none => "?"

def linksText : BlockKind → String
  | finish => ""
  | decision onTrue onFalse => "T → " ++ linkText onTrue ++ "  F → " ++ linkText onFalse
  | start next | input next | output next | declaration next | assignment next =>
      "→ " ++ linkText next

end BlockKind

namespace Value

def shown : Value → String
  | string s => Text.quote s
  | other => other.text

end Value

end Blockwise
