import Bindery.Api.TypeExpr
import Bindery.Reference.Resolve

/-!
# Projections

The Python spelling of a type expression where a scope mentions it, with the imports that
the spelling needs. An optional type inside another optional type is spelled plainly, and
`typing.Any` needs no mark.
-/

namespace Bindery

open Api (Primitive CollectionKind)

structure Projection where
  display : String
  imports : Imports := .empty
  deriving DecidableEq

def Projection.primitive : Primitive → String
  | .boolean => "builtins.bool"
  | .date => "datetime.datetime"
  | .number => "jsii.Number"
  | .string => "builtins.str"
  | .json => "typing.Mapping[typing.Any, typing.Any]"
  | .any => "typing.Any"

def Projection.collection (scope : Scope) (kind : CollectionKind) (element : String) : String :=
  match kind with
  | .array =>
    if scope.parameter then "typing.Sequence[" ++ element ++ "]"
    else "typing.List[" ++ element ++ "]"
  | .map => "typing.Mapping[builtins.str, " ++ element ++ "]"

namespace Catalog

mutual

def project (c : Catalog) (scope : Scope) : TypeExpr → Outcome Projection
  | .void => .ok { display := "None" }
  | .primitive p => .ok { display := Projection.primitive p }
  | .collection kind element => do
    let inner ← c.project scope element
    return { inner with display := Projection.collection scope kind inner.display }
  | .union options => do
    let parts ← c.projectAll scope options
    return {
      display := "typing.Union[" ++ String.intercalate ", " (parts.map (·.display)) ++ "]"
      imports := .mergeAll (parts.map (·.imports)) }
  | .optional inner => do
    let plain ← c.project { scope with optionalShown := true } inner
    if scope.optionalShown || inner.isAny then return plain
    else return { plain with display := "typing.Optional[" ++ plain.display ++ "]" }
  | .named fqn => do
    let reference ← c.resolve scope fqn
    return { display := reference.display, imports := .ofList reference.needed?.toList }

def projectAll (c : Catalog) (scope : Scope) : List TypeExpr → Outcome (List Projection)
  | [] => .ok []
  | option :: rest => do
    let first ← c.project scope option
    return first :: (← c.projectAll scope rest)

end

def spell (c : Catalog) (scope : Scope) (type : TypeExpr) : Outcome String := do
  return (← c.project scope type).display

def importsOf (c : Catalog) (scope : Scope) (type : TypeExpr) : Outcome Imports := do
  return (← c.project scope type).imports

end Catalog

end Bindery
