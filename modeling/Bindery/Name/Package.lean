import Bindery.Api.Assembly
import Bindery.Fault
import Bindery.Name.Identifier

/-!
# Packages of names

Every fully qualified name lies in a Python package. The package of a name is found by
walking from the whole name to its first segment: a submodule with a Python module of its
own, or the assembly, anchors the package; a submodule without one adds its name in snake
case; every other segment belongs to the tail of the name below the package.
-/

namespace Bindery.Package

open Api

structure Location where
  assembly : String
  package : String
  tail : List String
  deriving DecidableEq

structure PythonName where
  assembly : String
  package : String
  path : String
  deriving DecidableEq

def targetsOf (root : Assembly) (assembly : String) : Outcome DependencyTargets :=
  if assembly = root.name then .ok { targets := root.targets, submodules := root.submodules }
  else match root.closure.find? assembly with
    | some targets => .ok targets
    | none => .error (.config (.notInClosure assembly))

def moduleOf (assembly : String) (targets : DependencyTargets) : Outcome String :=
  match targets.targets.python with
  | some python => .ok python.module
  | none => .error (.config (.noPythonTarget assembly))

def rootModule (root : Assembly) (assembly : String) : Outcome String := do
  moduleOf assembly (← targetsOf root assembly)

/-- Walks up the segments of a name, given innermost first, and collects the parts of the
package and the tail. -/
def walk (assembly root : String) (submodules : SortedMap Submodule) :
    List String → List String → List String → Outcome (List String × List String)
  | [], package, tail => .ok (package, tail)
  | segment :: outer, package, tail =>
    let fqn := Dotted.join (segment :: outer).reverse
    if fqn = assembly then .ok (root :: package, tail)
    else match submodules.find? fqn with
      | none => walk assembly root submodules outer package (segment :: tail)
      | some submodule =>
        match submodule.targets.python with
        | some python =>
          if Dotted.isBelow root python.module then .ok (python.module :: package, tail)
          else .error (.config (.packageNotNested fqn python.module root))
        | none =>
          let part := Identifier.snake (Identifier.escape segment)
          walk assembly root submodules outer (part :: package) tail

def locate (root : Assembly) (fqn : String) : Outcome Location := do
  let segments := Dotted.segments fqn
  let assembly := segments.headD ""
  let targets ← targetsOf root assembly
  let module ← moduleOf assembly targets
  let (package, tail) ← walk assembly module targets.submodules segments.reverse [] []
  return { assembly, package := Dotted.join package, tail }

/-- The name as Python sees it: its package and the escaped segments below. -/
def pythonName (root : Assembly) (fqn : String) : Outcome PythonName := do
  let location ← locate root fqn
  return {
    assembly := location.assembly
    package := location.package
    path := Dotted.join (location.package :: location.tail.map Identifier.escape) }

end Bindery.Package
