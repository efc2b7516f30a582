import Blockwise.Catalog.Template
import Blockwise.Fault
import Blockwise.Text

/-!
# Message catalogs

A catalog gives the templates of messages by key.  Its text has one entry `key=template` a line;
empty lines and lines that start with `#` are skipped.
-/

namespace Blockwise

inductive CatalogError where
  | malformed (line : Nat)
  | duplicate (line : Nat) (key : String)
  deriving DecidableEq, Repr

namespace CatalogError

def message : CatalogError → String
  | malformed line => "line " ++ toString line ++ ": expected `key=value`"
  | duplicate line key => "line " ++ toString line ++ ": duplicate key `" ++ key ++ "`"

end CatalogError

structure Catalog where
  templates : Dictionary String
  deriving DecidableEq

namespace Catalog

def entry? (line : List Char) : Option (String × String) :=
  match Text.cut? '=' line with
  | none => none
  | some (before, template) =>
      let key := Text.trimmed before
      if key.isEmpty then none else some (String.ofList key, String.ofList template)

def isSkipped (line : List Char) : Bool :=
  match line with
  | [] => true
  | c :: _ => c == '#'

/-- Adds the entries of the lines, the first of which has the number. -/
def addLines (templates : Dictionary String) (number : Nat) :
    List String → Except CatalogError (Dictionary String)
  | [] => .ok templates
  | raw :: rest =>
      let line := Text.trimmed raw.toList
      if isSkipped line then addLines templates (number + 1) rest
      else
        match entry? line with
        | none => .error (.malformed number)
        | some (key, template) =>
            if templates.contains key then .error (.duplicate number key)
            else addLines (templates.insert key template) (number + 1) rest

def ofText (text : String) : Except CatalogError Catalog := do
  let templates ← addLines ∅ 1 (Text.lines text)
  return ⟨templates⟩

/-- The template of a key, the key itself if there is none. -/
def get (catalog : Catalog) (key : String) : String :=
  (catalog.templates.get? key).getD key

def contains (catalog : Catalog) (key : String) : Bool :=
  catalog.templates.contains key

def size (catalog : Catalog) : Nat :=
  catalog.templates.size

def isEmpty (catalog : Catalog) : Bool :=
  catalog.templates.isEmpty

end Catalog

namespace Fault

def format (f : Fault) (catalog : Catalog) : String :=
  catalog.get f.kind.key ++ ": " ++ Template.fill (catalog.get f.message) f.args.get?

end Fault

end Blockwise
