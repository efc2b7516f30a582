import Blockwise.Chart.Format
import Blockwise.Demo
import Blockwise.Terminal
import Blockwise.Terminal.Options

/-!
# The command line

Loads a chart and a catalog and runs the chart in the terminal.
-/

namespace Blockwise

/-- Watches a run for some steps at a time and waits out no delay: the loop below does. -/
def Terminal.watcher : Observer where
  waitsOut := fun _ => false
  fuel := 10000

def Terminal.readLine (t : Terminal) : IO Terminal := do
  let input ← IO.getStdin
  let line ← try input.getLine catch _ => pure ""
  match Text.lines line with
  | text :: _ => return t.deliver text
  | [] => return t.endInput

/-- Prints what there is to print and waits for whatever the run waits for, until it is over. -/
partial def Terminal.converse (t : Terminal) : IO UInt32 := do
  let t := t.advance watcher
  IO.print t.standardOutput
  (← IO.getStdout).flush
  IO.eprint t.standardError
  let t := t.cleared
  match t.phase with
  | .exited success => return if success then 0 else 1
  | .fetching => (← t.readLine).converse
  | _ =>
      IO.sleep (UInt32.ofNat (t.run.restingFor?.getD 0))
      (t.wake.step watcher).converse

def loadChart : Option String → IO (Except String Chart)
  | none => return Demo.build.mapError ChartError.message
  | some path => do
      try
        return (Chart.ofText (← IO.FS.readFile path)).mapError ChartError.message
      catch e => return .error (toString e)

def loadCatalog : Option String → IO (Except String Catalog)
  | none => return .ok Catalog.english
  | some path => do
      try
        return (Catalog.ofText (← IO.FS.readFile path)).mapError CatalogError.message
      catch e => return .error (toString e)

def complain (message : String) (code : UInt32) : IO UInt32 := do
  IO.eprintln message
  return code

def Options.perform (o : Options) : IO UInt32 := do
  match ← loadChart o.chart with
  | .error message => complain message 1
  | .ok chart =>
      match ← loadCatalog o.catalog with
      | .error message => complain message 1
      | .ok catalog =>
          if o.headless then
            (Terminal.start chart catalog (o.delayOr Run.defaultDelay)).converse
          else complain "there is no window to open: use --headless" 1

end Blockwise

def main (arguments : List String) : IO UInt32 :=
  match Blockwise.Options.ofArguments? arguments with
  | some options => options.perform
  | none => Blockwise.complain "usage: [CHART] [--delay-ms N] [--headless] [--catalog PATH]" 2
