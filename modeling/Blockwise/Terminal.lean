import Blockwise.Catalog.English
import Blockwise.Run.Rest

/-!
# Running in a terminal

A chart can be run without a window: what it writes is printed, and lines of standard input answer
its reads.  The supervisor goes round in a loop that looks at the run and never waits for it.  It
shares its time with the worker and with a reader that fetches the lines of standard input, and
its own work is cut into steps like theirs.
-/

namespace Blockwise

/-- Where the loop of the supervisor stands.  It looks whether the worker has ended and prints what
the run has sent, then sees whether a read is pending and fetches a line for it.  If the worker
`finished` before the printing, the loop prints the last of what the run has sent and ends. -/
inductive Terminal.Phase where
  | looking
  | flushing (finished : Bool)
  | prompting
  | fetching
  | closing
  | exited (success : Bool)
  deriving DecidableEq, Repr

structure Terminal where
  catalog : Catalog
  run : Run
  phase : Terminal.Phase
  prompted : Bool
  lines : Channel String
  inputEnded : Bool
  printed : Array String
  complaints : Array String

namespace Terminal

def buildErrorLine (catalog : Catalog) (e : BuildError) : String :=
  let place := match e.block with
    | some id => " at " ++ id.text
    | none => ""
  "build error" ++ place ++ ": " ++ e.cause.fault.format catalog ++ "\n"

def faultLine (catalog : Catalog) (current : Option BlockId) (f : Fault) : String :=
  let place := match current with
    | some id => " at " ++ id.text
    | none => ""
  "error" ++ place ++ ": " ++ f.format catalog ++ "\n"

/-- Starts a run of the chart; one that does not build is over at once. -/
def start (chart : Chart) (catalog : Catalog) (delay : Nat) : Terminal :=
  let (errors, run) := (Run.new delay).start chart
  { catalog := catalog
    run := run
    phase := if errors.isEmpty then .looking else .exited false
    prompted := false
    lines := .empty
    inputEnded := false
    printed := #[]
    complaints := (errors.map (buildErrorLine catalog)).toArray }

/-!
# The reader

The reader hands over the lines of standard input, and then its end.
-/

def deliver (t : Terminal) (line : String) : Terminal :=
  { t with lines := t.lines.send line }

def endInput (t : Terminal) : Terminal :=
  { t with inputEnded := true }

/-!
# The loop

What the run has sent is printed a batch at a time.  The end of standard input stops a run that
waits for a line.
-/

/-- Prints a batch of what the run has sent; tells whether there was any. -/
def flush (t : Terminal) : Bool × Terminal :=
  let (written, run) := t.run.drainOutput
  let (faults, run) := run.drainErrors
  let (updates, run) := run.drainUpdates
  (!(written.isEmpty && faults.isEmpty && updates.isEmpty),
    { t with
      run := run
      printed := t.printed ++ (written.map (· ++ "\n")).toArray
      complaints := t.complaints ++ (faults.map (faultLine t.catalog run.current?)).toArray })

/-- Fetches a line for the pending read.  The end of standard input stops the run. -/
def fetch (o : Observer) (t : Terminal) : Terminal :=
  match t.lines.receive? with
  | some (line, lines) =>
      { t with
        run := (t.run.submit line).2, lines := lines, prompted := false, phase := .looking }
  | none =>
      if t.inputEnded then { t with run := t.run.stop o, phase := .looking }
      else { t with phase := .looking }

def step (o : Observer) (t : Terminal) : Terminal :=
  match t.phase with
  | .looking => { t with phase := .flushing (!t.run.isLive) }
  | .flushing finished =>
      match t.flush with
      | (true, t') => t'
      | (false, t') => { t' with phase := if finished then .closing else .prompting }
  | .prompting =>
      match t.run.prompt? with
      | none => { t with prompted := false, phase := .looking }
      | some prompt =>
          { t with
            printed := if t.prompted then t.printed else t.printed.push (prompt ++ "> ")
            prompted := true
            phase := .fetching }
  | .fetching => t.fetch o
  | .closing =>
      match t.flush with
      | (true, t') => t'
      | (false, t') => { t' with phase := .exited (t'.run.state = .stopped .finished) }
  | .exited _ => t

/-!
# Whole runs

The loop goes round, with the worker at rest before each step, until nothing more can happen by
itself.
-/

def settle (o : Observer) (t : Terminal) : Terminal :=
  { t with run := t.run.settle o }

/-- Whether the loop would only come round again: it needs a line that has not come, or a delay
must pass. -/
def isStuck (t : Terminal) : Bool :=
  match t.phase with
  | .exited _ => true
  | .fetching => t.lines.isEmpty && !t.inputEnded
  | .prompting => t.run.prompt?.isNone && t.run.isLive
  | _ => false

def advanceFor (o : Observer) : (fuel : Nat) → Terminal → Terminal
  | 0, t => t
  | fuel + 1, t =>
      let t := t.settle o
      if t.isStuck then t else advanceFor o fuel (t.step o)

def advance (o : Observer) (t : Terminal) : Terminal :=
  advanceFor o o.fuel t

def ofInput (o : Observer) (chart : Chart) (catalog : Catalog) (delay : Nat) (input : String) :
    Terminal :=
  let fed := (Text.lines input).foldl deliver (start chart catalog delay)
  fed.endInput.advance o

def wake (t : Terminal) : Terminal :=
  { t with run := t.run.wake }

def succeeded (t : Terminal) : Bool :=
  t.phase = .exited true

def standardOutput (t : Terminal) : String :=
  String.join t.printed.toList

def standardError (t : Terminal) : String :=
  String.join t.complaints.toList

def cleared (t : Terminal) : Terminal :=
  { t with printed := #[], complaints := #[] }

end Terminal

end Blockwise
