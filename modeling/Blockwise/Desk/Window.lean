import Blockwise.Desk

/-!
# The window

What the window shows of a desk, text by text, and how it answers to clicks and typing.
-/

namespace Blockwise
namespace Window

inductive Colour where
  | theme
  | muted
  | good
  | current
  | bad
  | output
  | entered
  | number
  | boolean
  | grey
  deriving DecidableEq, Repr

namespace Colour

def code? : Colour → Option String
  | theme => none
  | muted => some "8c8c8c"
  | good => some "50c850"
  | current => some "e6c850"
  | bad => some "dc5050"
  | output => some "d2d2aa"
  | entered => some "78b4ff"
  | number => some "b4ffb4"
  | boolean => some "64b4ff"
  | grey => some "a0a0a0"

end Colour

inductive Control where
  | run
  | pause
  | resume
  | step
  | stop
  | show (tab : Tab)
  | send
  deriving DecidableEq, Repr

structure Item where
  text : String
  colour : Colour
  control : Option Control
  deriving Repr

def plain (text : String) (colour : Colour) : Item :=
  ⟨text, colour, none⟩

def button (text : String) (control : Control) : Item :=
  ⟨text, .theme, some control⟩

/-!
# The view

The view lists the texts of the window in the order of drawing.
-/

def stateItem : RunState → Item
  | .idle => plain "idle" .muted
  | .building => plain "building" .muted
  | .running => plain "running" .good
  | .paused => plain "paused" .current
  | .stopped .finished => plain "✓  finished" .good
  | .stopped .aborted => plain "stopped" .muted
  | .stopped .error => plain "✗  Error" .bad
  | .stopped .buildFailed => plain "✗  BuildFailed" .bad

def controlItems (d : Desk) : List Item :=
  let state := d.run.state
  let broken := d.diagnostics.length
  [button "▶ Run" .run,
    if state = .paused then button "Resume" .resume else button "Pause" .pause,
    button "Step" .step,
    button "■ Stop" .stop,
    plain (toString d.delay) .theme,
    plain "delay (ms)" .theme,
    stateItem state]
  ++ if broken = 0 then [] else [plain (toString broken ++ " block(s) do not compile") .bad]

def borderItems (d : Desk) (id : BlockId) : List Item :=
  if d.errorBlock = some id then [plain "<border>" .bad]
  else if d.run.current? = some id then [plain "<border>" .current]
  else []

def blockItems (d : Desk) (b : Block) : List Item :=
  let head :=
    [plain b.id.text .muted, plain b.kind.role.label .theme, plain b.kind.linksText .muted]
  let diagnosis := (d.diagnostics.lookup b.id).toList.map fun text => plain text .bad
  let body :=
    if b.kind.role.isTerminal then [] else plain b.content .theme :: diagnosis
  borderItems d b.id ++ head ++ body

def lineItem : ConsoleLine → Item
  | .written s => plain s .output
  | .entered s => plain ("> " ++ s) .entered
  | .failed s => plain s .bad

def consoleItems (d : Desk) : List Item :=
  let lines :=
    if d.console.isEmpty then [plain "No output." .grey] else d.console.toList.map lineItem
  [plain (d.run.prompt?.getD "no input requested") .theme, plain d.input .theme,
    button "Send" .send] ++ lines

def valueColour : Value → Colour
  | .number _ => .number
  | .string _ => .output
  | .boolean _ => .boolean
  | _ => .grey

def variableItems (entry : String × Value) : List Item :=
  [plain entry.1 .muted,
    plain (entry.2.shown ++ " : " ++ entry.2.type.name) (valueColour entry.2)]

def tableItems (d : Desk) : List Item :=
  if d.run.known.isEmpty then [plain "No variables." .grey]
  else
    plain "name" .theme :: plain "value" .theme :: d.run.known.entries.flatMap variableItems

def variablesLabel : String := "Variables ("

/-- Every text of the window, in the order of drawing. -/
def view (d : Desk) : List Item :=
  let count := toString d.run.known.size
  controlItems d ++ plain "Blocks" .theme :: d.chart.blocks.flatMap (blockItems d)
    ++ [button "Console" (.show .console),
      button (variablesLabel ++ count ++ ")") (.show .table)]
    ++ match d.tab with
      | .console => consoleItems d
      | .table => tableItems d

/-!
# Clicks

A click on a text does what the first control with its label does, if that is enabled.
-/

def isActive (d : Desk) : Bool :=
  Run.isActiveStage d.run.state

def press (o : Observer) (d : Desk) : Control → Desk
  | .run => if isActive d then d else d.startRun
  | .pause => { d with run := d.run.pause }
  | .resume => { d with run := d.run.resume }
  | .step => { d with run := d.run.advance }
  | .stop => if isActive d then { d with run := d.run.stop o } else d
  | .show tab => { d with tab := tab }
  | .send => if d.run.prompt?.isSome then d.submitInput else d

/-- Whether a text answers to a label; the tab of variables is known by its first word. -/
def matchesLabel (label : String) (text : String) : Bool :=
  if label = "Variables" then text.startsWith variablesLabel else text = label

def click (o : Observer) (d : Desk) (label : String) : Desk :=
  match (view d).find? (fun item => matchesLabel label item.text) with
  | some ⟨_, _, some control⟩ => press o d control
  | _ => d

/-!
# Typing

The fields of the blocks, the input box and the slider of the delay can be typed into.
-/

/-- Types into the field of a block.  Fields are locked while the run is live. -/
def editField (d : Desk) (id : BlockId) (text : String) : Desk :=
  match d.chart.get? id with
  | some b =>
      if d.run.isLive || b.kind.role.isTerminal || b.content = text then d
      else d.edit id text
  | none => d

def answer (d : Desk) (text : String) : Desk :=
  if d.tab = .console ∧ d.run.prompt?.isSome then { d with input := text }.submitInput else d

def maxDelay : Nat := 2000

def isNumberWord (cs : List Char) : Bool :=
  let word := String.ofList (cs.map Char.toLower)
  word = "inf" || word = "infinity" || word = "nan"

/-- The delay that a typed text stands for.  Blanks anywhere in it are ignored, and a minus sign
may be the typographical one.  The number is kept within the slider and rounded to a whole one,
a half upwards. -/
def delayOf? (text : String) : Option Nat :=
  let cs := (text.toList.filter (fun c => !Text.isBlank c)).map fun c =>
    if c = '\u2212' then '-' else c
  let (negative, unsigned) := Numeral.splitSign cs
  if isNumberWord unsigned then some (if negative then 0 else maxDelay)
  else
    (Numeral.ofChars? cs).map fun n =>
      let x := n.toFloat
      if n.negative then 0
      else if x ≥ 2000 then maxDelay
      else
        let whole := if Function.fraction x ≥ 0.5 then x.floor + 1 else x.floor
        whole.toUInt64.toNat

def setDelay (d : Desk) (delay : Nat) : Desk :=
  if delay = d.delay then d else { d with delay := delay, run := d.run.setDelay delay }

def typeDelay (d : Desk) (text : String) : Desk :=
  match delayOf? text with
  | some delay => setDelay d delay
  | none => d

/-- The desk as it is when it is next drawn: at rest, polled until nothing comes, and the delay
of the next run within the slider.  The current run keeps its delay. -/
def refresh (o : Observer) (d : Desk) : Desk :=
  let polled := (d.settle o).pollAll
  { polled with delay := min polled.delay maxDelay }

end Window
end Blockwise
