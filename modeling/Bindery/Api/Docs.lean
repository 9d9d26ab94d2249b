import Bindery.Collection.Ordered
import Bindery.Format.Json

/-!
# Documentation

What an assembly says about a declaration for its readers. Custom notes keep the order
in which they are written.
-/

namespace Bindery.Api

inductive Stability where
  | experimental
  | stable
  | deprecated
  | external
  deriving DecidableEq

namespace Stability

def word : Stability → String
  | experimental => "experimental"
  | stable => "stable"
  | deprecated => "deprecated"
  | external => "external"

def ofWord? : String → Option Stability
  | "experimental" => some experimental
  | "stable" => some stable
  | "deprecated" => some deprecated
  | "external" => some external
  | _ => none

theorem ofWord?_word (s : Stability) : ofWord? s.word = some s := by
  cases s <;> rfl

def isNotable : Stability → Bool
  | experimental => true
  | deprecated => true
  | _ => false

end Stability

structure Docs where
  summary : Option String := none
  remarks : Option String := none
  returns : Option String := none
  default : Option String := none
  deprecated : Option String := none
  sample : Option String := none
  see : Option String := none
  stability : Option Stability := none
  subclassable : Bool := false
  custom : OrderedMap String := .empty
  deriving DecidableEq, Inhabited

namespace Docs

def isDeprecated (docs : Docs) : Bool := docs.deprecated.isSome

def isEmpty (docs : Docs) : Bool :=
  docs.summary.isNone && docs.remarks.isNone && docs.returns.isNone && docs.default.isNone &&
    docs.deprecated.isNone && docs.sample.isNone && docs.see.isNone &&
    docs.stability.isNone && !docs.subclassable && docs.custom.isEmpty

def textField (key : String) (text : Option String) : Json.Fields :=
  match text with
  | some text => [(key, .string text)]
  | none => []

def toJson (docs : Docs) : Json :=
  .object <|
    textField "summary" docs.summary ++
    textField "remarks" docs.remarks ++
    textField "returns" docs.returns ++
    textField "default" docs.default ++
    textField "deprecated" docs.deprecated ++
    textField "example" docs.sample ++
    textField "see" docs.see ++
    textField "stability" (docs.stability.map Stability.word) ++
    (if docs.subclassable then [("subclassable", .bool true)] else []) ++
    (if docs.custom.isEmpty then []
      else [("custom", .object (docs.custom.entries.map fun (key, text) => (key, .string text)))])

def read (word : Json → Option String) (value : Json) : Option Docs := do
  let fields ← value.asFields?
  let text (key : String) := Json.optional key Json.asString? fields
  return {
    summary := ← text "summary"
    remarks := ← text "remarks"
    returns := ← text "returns"
    default := ← text "default"
    deprecated := ← text "deprecated"
    sample := ← text "example"
    see := ← text "see"
    stability := ← Json.optional "stability"
      (fun value => (word value).bind Stability.ofWord?) fields
    subclassable := ← Json.defaulted "subclassable" Json.asBool? false fields
    custom := .ofList (← Json.defaulted "custom" (Json.asEntries? Json.asString?) [] fields) }

def ofJson? (value : Json) : Option Docs := read Json.asWord? value

/-- Reads the documentation of a type or of one of its members. Types are read whole, and
there a word may be given more loosely. -/
def ofTypeJson? (value : Json) : Option Docs := read Json.asLooseWord? value

end Docs

end Bindery.Api
