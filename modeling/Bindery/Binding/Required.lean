import Bindery.Model.Basic
import Bindery.Reference.Aliases
import Bindery.Reference.Projection

/-!
# Required imports

The imports that a module needs for the types its declarations mention. They are collected
before anything is written, so no type counts as complete.
-/

namespace Bindery.Binding

open Api

def importsOfAll (c : Catalog) (scope : Scope) (types : List TypeExpr) : Outcome Imports := do
  return .mergeAll (← types.mapM (c.importsOf scope))

def visitImports (c : Catalog) (scope : Scope) : Catalog.Visit → Outcome Imports
  | .enter _ struct => importsOfAll c scope (struct.properties.map fun p => .ofRef p.type)
  | .leave _ _ => .ok .empty
  | .fail fault => .error fault

def liftedImports (c : Catalog) (scope : Scope) : Option String → Outcome Imports
  | none => .ok .empty
  | some lifted => do return .mergeAll (← (c.visits lifted).mapM (visitImports c scope))

def methodImports (c : Catalog) (scope : Scope) (method : MethodMember) : Outcome Imports := do
  let types := method.returns :: method.arguments.map (·.type)
  let signature ← importsOfAll c scope types
  return signature.merge (← liftedImports c scope method.lifted)

def structImports (c : Catalog) (scope : Scope) (d : Declaration) : Outcome Imports := do
  let bases ← importsOfAll c scope (d.bases.map .named)
  let fields ← c.fields d.fqn
  return bases.merge (← importsOfAll c scope (fields.map (·.type)))

def memberImportsBy (nesting : String → Outcome Imports) (c : Catalog) (scope : Scope) :
    Member → Outcome Imports
  | .type nested => nesting nested.fqn
  | .method method => methodImports c scope method
  | .property property => c.importsOf scope property.type
  | .field field => c.importsOf scope field.type
  | .value _ => .ok .empty

def typeImportsBy (nesting : String → Outcome Imports) (c : Catalog) (scope : Scope)
    (d : Declaration) : Outcome Imports :=
  match d.shape with
  | .struct _ => structImports c scope d
  | .enum => .ok .empty
  | .class _ _ _ _ | .interface _ => do
    let bases ← importsOfAll c scope (d.bases.map .named)
    return bases.merge (.mergeAll (← d.members.mapM (memberImportsBy nesting c scope)))
  | .module _ => .error (.internal (.moduleNotType d.fqn))

def nestedImports (m : Model) (scope : Scope) : Nat → String → Outcome Imports
  | 0, fqn => .error (.unknownType fqn)
  | fuel + 1, fqn => do
    typeImportsBy (nestedImports m scope fuel) m.toCatalog scope (← m.declaration fqn)

def typeImports (m : Model) (scope : Scope) (d : Declaration) : Outcome Imports :=
  typeImportsBy (nestedImports m scope (m.symbols.size + 1)) m.toCatalog scope d

def memberImports (m : Model) (scope : Scope) (member : Member) : Outcome Imports :=
  memberImportsBy (nestedImports m scope (m.symbols.size + 1)) m.toCatalog scope member

def moduleImports (m : Model) (module : Declaration) : Outcome Imports := do
  return .mergeAll (← module.members.mapM (memberImports m { module := module.fqn }))

def collectAliases (m : Model) : Outcome AliasTable :=
  m.modules.foldlM (fun table module => do
    let name := (← m.pythonName module.fqn).path
    return table.addImports name (← moduleImports m module)) .empty

end Bindery.Binding
