import Blockwise.Chart
import Blockwise.Json.Printer
import Blockwise.Json.Reader

/-!
# Charts as JSON

A chart is an object of its `start` and its `blocks`; a block is an object of its `id`, its
`content`, the name of its `kind` and the fields of that kind.  Fields that are not known are
ignored, but no known field may be given twice.
-/

namespace Blockwise

namespace BlockKind

def formatName : BlockKind → String
  | start _ => "start"
  | finish => "end"
  | input _ | output _ => "io"
  | decision _ _ => "cond"
  | declaration _ => "init"
  | assignment _ => "calc"

end BlockKind

namespace Chart

/-!
# Writing

The text has a start and the blocks, and a block the fields of its kind.
-/

def idJson (id : BlockId) : Json :=
  .natural id.word.toNat

def linkJson : Option BlockId → Json
  | some id => idJson id
  | none => .null

def kindFields : BlockKind → List (String × Json)
  | .finish => []
  | .input next => [("is_input", .bool true), ("next", linkJson next)]
  | .output next => [("is_input", .bool false), ("next", linkJson next)]
  | .decision onTrue onFalse => [("on_true", linkJson onTrue), ("on_false", linkJson onFalse)]
  | .start next | .declaration next | .assignment next => [("next", linkJson next)]

def object (fields : List (String × Json)) : Json :=
  .object (fields.map fun (key, value) => (some key, value))

def blockJson (b : Block) : Json :=
  object
    ([("id", idJson b.id), ("content", Json.text b.content), ("kind", Json.text b.kind.formatName)]
      ++ kindFields b.kind)

def toJson (chart : Chart) : Json :=
  object [("start", idJson chart.start), ("blocks", .array (chart.blocks.map blockJson))]

def toText (chart : Chart) : String :=
  chart.toJson.toText

/-!
# Reading

All fields are read before a block is put together from them, so even an unknown one must be sound.
The name of a kind is spelled out, or given by its place among the kinds.
-/

abbrev Members := List (Option String × Json)

/-- The value of a field that is given once. -/
def once? (key : String) (members : Members) : Option Json :=
  match Json.valuesOf key members with
  | [value] => some value
  | _ => none

def optional? (key : String) (members : Members) : Option (Option Json) :=
  match Json.valuesOf key members with
  | [] => some none
  | [value] => some (some value)
  | _ => none

def id? : Json → Option BlockId
  | .natural n => if n < UInt64.size then some ⟨UInt64.ofNat n⟩ else none
  | _ => none

/-- A link that is set, or unset by `null` or by being left out. -/
def link? (key : String) (members : Members) : Option (Option BlockId) := do
  match ← optional? key members with
  | none | some .null => return none
  | some value => return some (← id? value)

def formatNames : List String :=
  ["start", "end", "io", "cond", "init", "calc"]

def kindName? : Json → Option String
  | .string s => s.filter formatNames.contains
  | .natural n => formatNames[n]?
  | _ => none

def kind? (members : Members) : Option BlockKind := do
  match ← kindName? (← once? "kind" members) with
  | "start" => return .start (← link? "next" members)
  | "end" => return .finish
  | "io" =>
      match ← once? "is_input" members with
      | .bool isInput =>
          let next ← link? "next" members
          return if isInput then .input next else .output next
      | _ => none
  | "cond" => return .decision (← link? "on_true" members) (← link? "on_false" members)
  | "init" => return .declaration (← link? "next" members)
  | "calc" => return .assignment (← link? "next" members)
  | _ => none

def content? (members : Members) : Option String := do
  match ← optional? "content" members with
  | none => return ""
  | some (.string s) => s
  | some _ => none

/-- How deep lists and objects may nest, that of the chart and that of its blocks included. -/
def depthLimit : Nat := 127

def block? (j : Json) : Option Block := do
  if j.isSound (depthLimit - 2) then
    match j with
    | .object members =>
        return ⟨← id? (← once? "id" members), ← content? members, ← kind? members⟩
    | _ => none
  else none

def ofFields? (start blocks : Json) : Option Chart := do
  match blocks with
  | .array items => return ⟨← id? start, ← items.mapM block?⟩
  | _ => none

/-- A chart that need not be valid: an object of its fields, or a list of them in order. -/
def ofJson? : Json → Option Chart
  | .object members => do
      if members.all (fun m => m.1.isSome) then
        ofFields? (← once? "start" members) (← once? "blocks" members)
      else none
  | .array [start, blocks] => ofFields? start blocks
  | _ => none

def ofText (text : String) : Except ChartError Chart :=
  match (Json.ofText? text).bind ofJson? with
  | none => .error .json
  | some chart => do
      chart.validate
      return chart

end Chart

end Blockwise
