import Bindery.Model.Basic

/-!
# Building models

`Model.build` takes an assembly and the assemblies it depends on. The targets of the
dependencies are added to those the assembly knows, every namespace that is neither a type
nor a submodule becomes a submodule, and every type becomes a declaration, attached to the
one around it.
-/

namespace Bindery

open Api

namespace Model

/-- Adds what a dependency says about itself and about its own dependencies, unless the
assembly knows better. -/
def addTargets (assembly dependency : Assembly) : Assembly :=
  let own : DependencyTargets :=
    { targets := dependency.targets, submodules := dependency.submodules }
  let closure := dependency.closure.entries.foldl (fun closure (name, targets) =>
    if name = assembly.name then closure else closure.insertNew name targets)
    (assembly.closure.insertNew dependency.name own)
  { assembly with closure }

def pathsBelow (name : String) : List String → List String
  | [] => []
  | segment :: rest =>
    let inner := name ++ "." ++ segment
    inner :: pathsBelow inner rest

/-- The namespaces that hold types but are neither types nor submodules. -/
def impliedSubmodules (assembly : Assembly) : List String :=
  assembly.types.values.flatMap fun entry =>
    match entry.header.enclosing? with
    | none => []
    | some spaces =>
      (pathsBelow assembly.name (Dotted.segments spaces)).filter fun fqn =>
        !assembly.types.contains fqn && !assembly.submodules.contains fqn

def addSubmodules (assembly : Assembly) : Assembly :=
  { assembly with
    submodules := (impliedSubmodules assembly).foldl (fun submodules fqn =>
      submodules.insertNew fqn {}) assembly.submodules }

def catalog (assembly : Assembly) (dependencies : List Assembly) : Catalog :=
  { assembly := addSubmodules (dependencies.foldl addTargets assembly)
    dependencies := dependencies.foldl (fun types d => types.insertAll d.types.entries) .empty }

def rootDeclaration (c : Catalog) : Outcome Declaration := do
  return {
    fqn := c.assembly.name
    name := (← c.locate c.assembly.name).package
    parent := ""
    docs := c.assembly.docs
    shape := .module (c.assembly.readme.map (·.markdown)) }

def submoduleDeclaration (c : Catalog) (entry : String × Submodule) : Outcome Declaration := do
  return {
    fqn := entry.1
    name := (← c.locate entry.1).package
    parent := Dotted.parent entry.1
    shape := .module (entry.2.readme.map (·.markdown)) }

def moduleDeclarations (c : Catalog) : Outcome (List Declaration) := do
  let root ← rootDeclaration c
  return root :: (← c.assembly.submodules.entries.mapM (submoduleDeclaration c))

def methodMember (c : Catalog) (parent : String) (kind : MethodKind) (isProtected : Bool)
    (method : Method) : Outcome MethodMember := do
  return {
    pythonName := Identifier.method method.name isProtected
    name? := some method.name
    kind
    arguments := method.parameters.map .ofParameter
    returns := match method.returns with
      | some returns => .ofValue returns.type returns.optional
      | none => .void
    isAbstract := method.isAbstract
    lifted := ← c.liftedStruct method.parameters
    parent
    docs := method.docs }

def initializerMember (c : Catalog) (parent : String) (initializer : Initializer) :
    Outcome MethodMember := do
  return {
    pythonName := "__init__"
    name? := none
    kind := .initializer
    arguments := initializer.parameters.map .ofParameter
    returns := .void
    isAbstract := false
    lifted := ← c.liftedStruct initializer.parameters
    parent
    docs := initializer.docs }

def classMethod (c : Catalog) (parent : String) (method : Method) : Outcome MethodMember :=
  if method.isStatic then methodMember c parent .static false method
  else if method.isAsync then methodMember c parent .async method.isProtected method
  else methodMember c parent .onInstance method.isProtected method

/-- A method of an interface is not abstract by itself. -/
def interfaceMethod (c : Catalog) (parent : String) (method : Method) : Outcome MethodMember := do
  return { ← methodMember c parent .interface method.isProtected method with isAbstract := false }

def propertyMember (parent : String) (kind : PropertyKind) (isProtected isAbstract : Bool)
    (property : Property) : PropertyMember :=
  { pythonName := Identifier.property property.name property.isConst isProtected
    name := property.name
    type := .ofValue property.type property.optional
    kind
    immutable := property.immutable
    isAbstract
    parent
    docs := property.docs }

def classProperty (parent : String) (property : Property) : PropertyMember :=
  if property.isStatic then propertyMember parent .static false property.isAbstract property
  else propertyMember parent .onInstance property.isProtected property.isAbstract property

def interfaceProperty (parent : String) (property : Property) : PropertyMember :=
  propertyMember parent .interface property.isProtected false property

def abstractBases (c : Catalog) (type : ClassType) : Outcome (List String) :=
  match type.base with
  | none => .ok []
  | some base => do
    match ← c.entry base with
    | .class baseType => return if baseType.isAbstract then [base] else []
    | _ => throw (.internal (.baseNotClass base type.fqn))

def classContent (c : Catalog) (type : ClassType) : Outcome (Shape × List Member) := do
  let initializers ← type.initializer.toList.mapM (initializerMember c type.fqn)
  let methods ← type.methods.mapM (classMethod c type.fqn)
  let properties := type.properties.map (classProperty type.fqn)
  let bases ← if type.isAbstract then abstractBases c type else .ok []
  return (.class type.base type.interfaces type.isAbstract bases,
    (initializers ++ methods).map .method ++ properties.map .property)

def interfaceContent (c : Catalog) (type : InterfaceType) : Outcome (Shape × List Member) := do
  let methods ← type.methods.mapM (interfaceMethod c type.fqn)
  let properties := type.properties.map (interfaceProperty type.fqn)
  return (.interface type.interfaces, methods.map .method ++ properties.map .property)

def structContent (type : InterfaceType) : Shape × List Member :=
  (.struct type.interfaces, type.properties.map fun p => .field (.ofProperty p type.fqn))

def enumContent (type : EnumType) : Shape × List Member :=
  (.enum, type.values.map fun v =>
    .value { pythonName := Identifier.escape v.name, value := v.name, docs := v.docs })

def content (c : Catalog) : TypeEntry → Outcome (Shape × List Member)
  | .class type => classContent c type
  | .interface type => if type.isData then .ok (structContent type) else interfaceContent c type
  | .enum type => .ok (enumContent type)

def typeDeclaration (c : Catalog) (entry : TypeEntry) : Outcome Declaration := do
  let (shape, members) ← content c entry
  return {
    fqn := entry.fqn
    name := Identifier.escape entry.name
    parent := Dotted.parent entry.fqn
    docs := entry.docs
    shape
    members }

def nestedType (entry : TypeEntry) : NestedType :=
  { fqn := entry.fqn, pythonName := Identifier.escape entry.name, docs := entry.docs }

/-- Adds a type to the members of the declaration around it. Structs and enumerations hold
no types. -/
def attach (declarations : OrderedMap Declaration) (entry : TypeEntry) :
    Outcome (OrderedMap Declaration) :=
  let parent := Dotted.parent entry.fqn
  match declarations.find? parent with
  | none => .error (.unknownType parent)
  | some outer =>
    match outer.shape.kind with
    | .struct | .enum => .error (.internal (.badNesting entry.fqn parent))
    | _ =>
      let members := outer.members ++ [.type (nestedType entry)]
      .ok (declarations.insert parent { outer with members })

def declare (declarations : OrderedMap Declaration) (d : Declaration) : OrderedMap Declaration :=
  declarations.insert d.fqn d

def build (assembly : Assembly) (dependencies : List Assembly) : Outcome Model := do
  let c := catalog assembly dependencies
  let modules ← moduleDeclarations c
  let types ← c.assembly.types.values.mapM (typeDeclaration c)
  let declarations := (modules ++ types).foldl declare .empty
  let declarations ← c.assembly.types.values.foldlM attach declarations
  let symbols ← SymbolTable.empty.registerAll declarations.values
  return { c with symbols }

end Model

end Bindery
