import Bindery.Api.Assembly
import Bindery.Fault
import Bindery.File.Disk
import Bindery.Format.Toml.Reader

/-!
# Settings

Settings say what to generate and which Python modules assemblies and submodules are mapped
to. They are read from a TOML document; unknown keys are ignored. `Settings.apply` changes
an assembly as they demand.
-/

namespace Bindery

open Api

inductive Target where
  | python
  | php
  deriving DecidableEq

namespace Target

def word : Target → String
  | python => "python"
  | php => "php"

def ofWord? : String → Option Target
  | "python" => some python
  | "php" => some php
  | _ => none

def ofWord (word : String) : Outcome Target :=
  match ofWord? word with
  | some target => .ok target
  | none => .error (.config (.unknownTarget word))

end Target

structure Generation where
  assembly : Option Path := none
  dependencies : List Path := []
  output : Option Path := none
  checks : Bool := true
  targets : List Target := [.python]

structure Overrides where
  python : Option String := none
  submodules : SortedMap String := .empty

structure Settings where
  generation : Generation := {}
  modules : SortedMap Overrides := .empty

def Overrides.toJson (o : Overrides) : Json :=
  .object [("python", .ofOption (o.python.map .string)),
    ("submodules",
      .object (o.submodules.entries.map fun (fqn, package) => (fqn, .string package)))]

def Generation.toJson (g : Generation) : Json :=
  let path := fun p : Path => Json.string p.text
  .object [("assembly", .ofOption (g.assembly.map path)),
    ("dependencies", .array (g.dependencies.map path)),
    ("output", .ofOption (g.output.map path)),
    ("runtime_type_checking", .bool g.checks),
    ("targets", .strings (g.targets.map Target.word))]

namespace Settings

open Toml (Node)

/-- The fields of a record: a table by keys, or an array by positions. Fields that are
absent keep their default values. -/
inductive Fields where
  | named (entries : List (String × Node))
  | positional (items : List Node)

namespace Fields

def ofNode? (node : Node) : Option Fields :=
  (node.entries?.map .named) <|> (node.items?.map .positional)

def read {α : Type} (fields : Fields) (key : String) (position : Nat) (read : Node → Option α)
    (default : α) : Option α :=
  let found := match fields with
    | .named entries => entries.lookup key
    | .positional items => items[position]?
  match found with
  | some node => read node
  | none => some default

end Fields

def listOf {α : Type} (read : Node → Option α) (node : Node) : Option (List α) := do
  (← node.items?).mapM read

def mapOf {α : Type} (read : Node → Option α) (node : Node) : Option (SortedMap α) := do
  let entries ← (← node.entries?).mapM fun (key, node) => (read node).map (key, ·)
  return .ofList entries

def isHollow (node : Node) : Bool :=
  node.entries?.any List.isEmpty || node.items?.any List.isEmpty

/-- A target: its word, or a table with its word as the only key and nothing below it. -/
def readTarget (node : Node) : Option Target :=
  match node.text?, node.entries? with
  | some word, _ => Target.ofWord? word
  | none, some [(word, inner)] => if isHollow inner then Target.ofWord? word else none
  | none, _ => none

def readPath (node : Node) : Option Path := node.text?.map Path.mk

def readGeneration (node : Node) : Option Generation := do
  let fields ← Fields.ofNode? node
  return {
    assembly := ← fields.read "assembly" 0 (fun n => (readPath n).map some) none
    dependencies := ← fields.read "dependencies" 1 (listOf readPath) []
    output := ← fields.read "output" 2 (fun n => (readPath n).map some) none
    checks := ← fields.read "runtime_type_checking" 3 Node.flag? true
    targets := ← fields.read "targets" 4 (listOf readTarget) [.python] }

def readOverrides (node : Node) : Option Overrides := do
  let fields ← Fields.ofNode? node
  return {
    python := ← fields.read "python" 0 (fun n => n.text?.map some) none
    submodules := ← fields.read "submodules" 1 (mapOf Node.text?) .empty }

def ofEntries? (entries : List (String × Node)) : Option Settings := do
  let fields := Fields.named entries
  return {
    generation := ← fields.read "generate" 0 readGeneration {}
    modules := ← fields.read "modules" 1 (mapOf readOverrides) .empty }

def ofText (text : String) : Outcome Settings :=
  match (Toml.parse? text).bind ofEntries? with
  | some settings => .ok settings
  | none => .error .configSyntax

/-- Relative paths of a document are meant from the directory that it lies in. -/
def rebase (s : Settings) (base : Path) : Settings :=
  { s with
    generation := { s.generation with
      assembly := s.generation.assembly.map base.join
      dependencies := s.generation.dependencies.map base.join
      output := s.generation.output.map base.join } }

def ofFile (path : Path) (text : String) : Outcome Settings := do
  let settings ← ofText text
  match path.parent? with
  | some base => return settings.rebase base
  | none => return settings

def setSubmodule (assembly root fqn package : String) (submodules : SortedMap Submodule) :
    Outcome (SortedMap Submodule) :=
  if !Text.startsWith (assembly ++ ".") fqn then
    .error (.config (.foreignSubmodule fqn assembly))
  else if !Text.startsWith (root ++ ".") package then
    .error (.config (.packageNotNested fqn package root))
  else
    let old := (submodules.find? fqn).getD {}
    .ok (submodules.insert fqn { old with targets := old.targets.withModule package })

def setModules (assembly : String) (overrides : Overrides) (d : DependencyTargets) :
    Outcome DependencyTargets := do
  let targets := match overrides.python with
    | some module => d.targets.withModule module
    | none => d.targets
  match targets.python with
  | none => throw (.config (.noPythonTarget assembly))
  | some python =>
    let submodules ← overrides.submodules.entries.foldlM (fun submodules (fqn, package) =>
      setSubmodule assembly python.module fqn package submodules) d.submodules
    return { targets, submodules }

def applyTo (a : Assembly) (name : String) (overrides : Overrides) : Outcome Assembly :=
  if name = a.name then do
    let d ← setModules name overrides { targets := a.targets, submodules := a.submodules }
    return { a with targets := d.targets, submodules := d.submodules }
  else match a.closure.find? name with
    | some d => do
      return { a with closure := a.closure.insert name (← setModules name overrides d) }
    | none => .error (.config (.unmatchedOverrides name))

def apply (s : Settings) (a : Assembly) : Outcome Assembly :=
  s.modules.entries.foldlM (fun a (name, overrides) => applyTo a name overrides) a

def toJson (s : Settings) : Json :=
  .object [("generate", s.generation.toJson),
    ("modules",
      .object (s.modules.entries.map fun (name, o) => (name, o.toJson)))]

end Settings

end Bindery
