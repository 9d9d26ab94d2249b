import Bindery.Model.Declaration
import Bindery.Name.Package

/-!
# Catalog of types

A catalog is an assembly together with the types of the assemblies it depends on. Every
type is looked up in the assembly first.
-/

namespace Bindery

open Api

structure Catalog where
  assembly : Assembly
  dependencies : OrderedMap TypeEntry := .empty
  deriving Inhabited

namespace Catalog

def entry? (c : Catalog) (fqn : String) : Option TypeEntry :=
  c.assembly.types.find? fqn <|> c.dependencies.find? fqn

def entry (c : Catalog) (fqn : String) : Outcome TypeEntry :=
  match c.entry? fqn with
  | some entry => .ok entry
  | none => .error (.unknownType fqn)

def isStruct (c : Catalog) (fqn : String) : Bool := (c.entry? fqn).any TypeEntry.isStruct

def struct (c : Catalog) (fqn : String) : Outcome InterfaceType := do
  match (← c.entry fqn).struct? with
  | some struct => .ok struct
  | none => .error (.internal (.symbolKind fqn SymbolKind.struct.word))

/-- The number of types, which bounds every walk through them. -/
def size (c : Catalog) : Nat := c.assembly.types.size + c.dependencies.size

def locate (c : Catalog) (fqn : String) : Outcome Package.Location :=
  Package.locate c.assembly fqn

def pythonName (c : Catalog) (fqn : String) : Outcome Package.PythonName :=
  Package.pythonName c.assembly fqn

def loader (c : Catalog) : Outcome String := do
  return (← Package.rootModule c.assembly c.assembly.name) ++ "._jsii"

/-- The struct whose fields become keyword arguments: the type of a last parameter that
is a struct and takes one value. -/
def liftedStruct (c : Catalog) (parameters : List Parameter) : Outcome (Option String) :=
  match parameters.getLast? with
  | none => .ok none
  | some last =>
    if last.variadic then .ok none
    else match last.type.fqn? with
      | none => .ok none
      | some fqn => do
        return if (← c.entry fqn).isStruct then some fqn else none

/-- The module that owns a type of the assembly: its nearest parent that is no type. -/
def owner (c : Catalog) (fqn : String) : String :=
  let parent := (Dotted.ancestors fqn).find? fun name =>
    name = "" || !c.assembly.types.contains name
  match parent with
  | some "" => c.assembly.name
  | some name => name
  | none => c.assembly.name

end Catalog

end Bindery
