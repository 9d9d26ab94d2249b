import Bindery.Model.Catalog
import Bindery.Name.ImportPath
import Bindery.Reference.Imports
import Bindery.Text.Digest
import Bindery.Text.Quoted

/-!
# References

How a type is spelled where another one mentions it. A type of another assembly is reached
through its package, imported under an alias. A type of the module that is being written
needs no import, but an annotation must quote it as long as its definition is not complete.
A type of another module of the assembly is imported from there under an alias of its
outermost name.
-/

namespace Bindery

/-- The place from which a type is mentioned: in `module`, where the definitions `emitted` are
complete, inside the types `enclosing`, outermost first. What is no `annotation` is evaluated where
it stands. -/
structure Scope where
  module : String
  emitted : List String := []
  enclosing : List String := []
  annotation : Bool := true
  parameter : Bool := false
  optionalShown : Bool := false

def Scope.inside (scope : Scope) (fqn : String) : Scope :=
  { scope with enclosing := scope.enclosing ++ [fqn] }

structure Reference where
  display : String
  needed? : Option Import
  deriving DecidableEq

def aliasSuffix (parts : List String) : String :=
  String.ofList ((Text.Digest.hex (String.join parts)).toList.take 8)

/-- The part of the path of `fqn` behind `start`; a dot between them is skipped on
demand. -/
def pathBehind (fqn start : String) (skipDot : Bool) (path : String) : Outcome String :=
  let size := start.utf8ByteSize + if skipDot then 1 else 0
  match Text.dropBytes? size path.toList with
  | some rest => .ok (String.ofList rest)
  | none => .error (.brokenName fqn)

/-- A struct parameter also takes a dictionary. -/
def Scope.wrapStruct (scope : Scope) (isStruct : Bool) (display : String) : String :=
  if scope.annotation && scope.parameter && isStruct then
    "typing.Union[" ++ display ++ ", typing.Dict[builtins.str, typing.Any]]"
  else display

namespace Catalog

def resolveForeign (scope : Scope) (isStruct : Bool) (target : Package.PythonName)
    (fqn : String) : Outcome Reference := do
  let handle := "_" ++ Text.replaceChar '.' '_' target.package ++ "_" ++
    aliasSuffix [target.assembly, ".*"]
  let below ← pathBehind fqn target.package false target.path
  return {
    display := scope.wrapStruct isStruct (handle ++ below)
    needed? := some { source := target.package ++ " as " ++ handle, item := "" } }

def resolveLocal (c : Catalog) (scope : Scope) (isStruct : Bool) (target : Package.PythonName)
    (module fqn : String) : Outcome Reference := do
  let around ← scope.enclosing.reverse.mapM c.pythonName
  let isInside := around.any fun outer => Dotted.isBelow outer.path target.path
  let below ← pathBehind fqn module true target.path
  if scope.annotation && (!scope.emitted.contains fqn || isInside) then
    return { display := scope.wrapStruct isStruct (Text.quote below), needed? := none }
  else if !scope.annotation && isInside then
    return { display := ← pathBehind fqn target.package true target.path, needed? := none }
  else
    return { display := scope.wrapStruct isStruct below, needed? := none }

def resolveAcross (scope : Scope) (isStruct : Bool) (target : Package.PythonName)
    (module owner fqn : String) : Outcome Reference := do
  let below ← pathBehind fqn owner true target.path
  let outermost := Dotted.head below
  let handle := "_" ++ outermost ++ "_" ++ aliasSuffix [owner, ".", outermost]
  let display := Dotted.join (handle :: (Dotted.segments below).tail)
  return {
    display := scope.wrapStruct isStruct display
    needed? := some {
      source := ImportPath.relative module owner
      item := outermost ++ " as " ++ handle } }

def resolve (c : Catalog) (scope : Scope) (fqn : String) : Outcome Reference := do
  let target ← c.pythonName fqn
  let isStruct := (← c.entry fqn).isStruct
  if target.assembly ≠ c.assembly.name then
    resolveForeign scope isStruct target fqn
  else
    let module := (← c.pythonName scope.module).path
    let owner := (← c.pythonName (c.owner fqn)).path
    if owner = module then resolveLocal c scope isStruct target module fqn
    else resolveAcross scope isStruct target module owner fqn

end Catalog

end Bindery
