import Bindery.Api.TypeEntry
import Bindery.Collection.Sorted
import Bindery.Format.Json.Reader

/-!
# Assemblies

An assembly describes a library: its types, its submodules, what it depends on, and
the Python module that each part is mapped to. `Assembly.ofText?` reads the JSON text
of an assembly. Types are read whole, so no part of them may be unreadable or nested
beyond `nestingLimit`; elsewhere unknown fields are skipped unread.
-/

namespace Bindery.Api

structure PythonTarget where
  module : String
  distribution : Option String := none
  deriving DecidableEq, Inhabited

namespace PythonTarget

def toJson (t : PythonTarget) : Json :=
  .object ([("module", .string t.module)] ++ Docs.textField "distName" t.distribution)

def ofJson? (value : Json) : Option PythonTarget := do
  let fields ← value.asFields?
  return {
    module := ← Json.required "module" Json.asString? fields
    distribution := ← Json.optional "distName" Json.asString? fields }

end PythonTarget

structure Targets where
  python : Option PythonTarget := none
  deriving DecidableEq, Inhabited

namespace Targets

def ofModule (module : String) : Targets := { python := some { module } }

def toJson (t : Targets) : Json :=
  .object <| match t.python with
    | some python => [("python", python.toJson)]
    | none => []

def ofJson? (value : Json) : Option Targets := do
  let fields ← value.asFields?
  return { python := ← Json.optional "python" PythonTarget.ofJson? fields }

def read? (fields : Json.Fields) : Option Targets :=
  Json.defaulted "targets" ofJson? {} fields

def withModule (t : Targets) (module : String) : Targets :=
  match t.python with
  | some python => { t with python := some { python with module } }
  | none => { t with python := some { module } }

end Targets

structure Readme where
  markdown : String
  deriving DecidableEq, Inhabited

namespace Readme

def toJson (r : Readme) : Json := .object [("markdown", .string r.markdown)]

def ofJson? (value : Json) : Option Readme := do
  let fields ← value.asFields?
  return { markdown := ← Json.required "markdown" Json.asString? fields }

def toFields : Option Readme → Json.Fields
  | some readme => [("readme", readme.toJson)]
  | none => []

def read? (fields : Json.Fields) : Option (Option Readme) :=
  Json.optional "readme" ofJson? fields

end Readme

structure Submodule where
  targets : Targets := {}
  readme : Option Readme := none
  deriving DecidableEq, Inhabited

namespace Submodule

def toJson (s : Submodule) : Json :=
  .object ([("targets", s.targets.toJson)] ++ Readme.toFields s.readme)

def ofJson? (value : Json) : Option Submodule := do
  let fields ← value.asFields?
  return { targets := ← Targets.read? fields, readme := ← Readme.read? fields }

end Submodule

def submodulesToJson (submodules : SortedMap Submodule) : Json :=
  .object (submodules.entries.map fun (fqn, submodule) => (fqn, submodule.toJson))

def readSubmodules? (fields : Json.Fields) : Option (SortedMap Submodule) :=
  (Json.defaulted "submodules" (Json.asEntries? Submodule.ofJson?) [] fields).map .ofList

structure DependencyTargets where
  targets : Targets := {}
  submodules : SortedMap Submodule := .empty
  deriving DecidableEq, Inhabited

namespace DependencyTargets

def toJson (d : DependencyTargets) : Json :=
  .object [("targets", d.targets.toJson), ("submodules", submodulesToJson d.submodules)]

def ofJson? (value : Json) : Option DependencyTargets := do
  let fields ← value.asFields?
  return { targets := ← Targets.read? fields, submodules := ← readSubmodules? fields }

end DependencyTargets

def closureToJson (closure : SortedMap DependencyTargets) : Json :=
  .object (closure.entries.map fun (name, targets) => (name, targets.toJson))

structure Assembly where
  name : String
  version : String
  description : Option String := none
  docs : Option Docs := none
  readme : Option Readme := none
  targets : Targets := {}
  submodules : SortedMap Submodule := .empty
  dependencies : SortedMap String := .empty
  closure : SortedMap DependencyTargets := .empty
  types : OrderedMap TypeEntry := .empty
  deriving Inhabited

namespace Assembly

def ofModule (name version module : String) : Assembly :=
  { name, version, targets := .ofModule module }

def withType (a : Assembly) (entry : TypeEntry) : Assembly :=
  { a with types := a.types.insert entry.fqn entry }

def withSubmodule (a : Assembly) (fqn : String) (module : Option String) : Assembly :=
  let targets := match module with
    | some module => .ofModule module
    | none => {}
  { a with submodules := a.submodules.insert fqn { targets } }

def withDependency (a : Assembly) (name version module : String) : Assembly :=
  { a with
    dependencies := a.dependencies.insert name version
    closure := a.closure.insert name { targets := .ofModule module } }

def pythonModule? (a : Assembly) : Option String := a.targets.python.map (·.module)

def distribution (a : Assembly) : String :=
  (a.targets.python.bind (·.distribution)).getD a.name

def tarball (a : Assembly) : String :=
  let name := String.ofList (a.name.toList.dropWhile (· = '@'))
  Text.replaceChar '/' '-' name ++ "@" ++ a.version ++ ".jsii.tgz"

def toJson (a : Assembly) : Json :=
  .object <|
    [("name", .string a.name), ("version", .string a.version)] ++
    Docs.textField "description" a.description ++ docsField a.docs ++
    Readme.toFields a.readme ++
    [("targets", a.targets.toJson),
      ("submodules", submodulesToJson a.submodules),
      ("dependencies",
        .object (a.dependencies.entries.map fun (name, version) => (name, .string version))),
      ("dependencyClosure", closureToJson a.closure),
      ("types", .object (a.types.entries.map fun (fqn, entry) => (fqn, entry.toJson)))]

def ofJson? (value : Json) : Option Assembly := do
  let fields ← value.asFields?
  return {
    name := ← Json.required "name" Json.asString? fields
    version := ← Json.required "version" Json.asString? fields
    description := ← Json.optional "description" Json.asString? fields
    docs := ← Json.optional "docs" Docs.ofJson? fields
    readme := ← Readme.read? fields
    targets := ← Targets.read? fields
    submodules := ← readSubmodules? fields
    dependencies :=
      .ofList (← Json.defaulted "dependencies" (Json.asEntries? Json.asString?) [] fields)
    closure :=
      .ofList (← Json.defaulted "dependencyClosure"
        (Json.asEntries? DependencyTargets.ofJson?) [] fields)
    types := .ofList (← Json.defaulted "types" (Json.asEntries? TypeEntry.ofJson?) [] fields) }

def nestingLimit : Nat := 127

/-- The types of an assembly can be read whole: the object that holds them is itself
nested in one other. -/
def typesReadable (value : Json) : Bool :=
  match value with
  | .object fields =>
    fields.all fun (key, types) =>
      key ≠ "types" || (types.readable && types.depth + 1 ≤ nestingLimit)
  | _ => true

def ofText? (text : String) : Option Assembly := do
  let value ← Json.parse? text
  if typesReadable value then ofJson? value else none

end Assembly

end Bindery.Api
