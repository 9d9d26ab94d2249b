import Bindery.Api.Assembly
import Bindery.Namespaced.Name
import Bindery.Symbol

/-!
# Namespaced symbols

The types of an assembly with their constructors, methods, properties and parameters under
their PHP names. Different dotted names may have one PHP name, which is a fault.
-/

namespace Bindery.Namespaced

open Api

inductive Visibility where
  | everyone
  | heirs
  deriving DecidableEq

namespace Visibility

def word : Visibility → String
  | .everyone => "public"
  | .heirs => "protected"

def ofProtected (isProtected : Bool) : Visibility :=
  if isProtected then .heirs else .everyone

end Visibility

inductive Role where
  | class (parent : Option String) (interfaces : List String) (isAbstract : Bool)
  | interface (parents : List String)
  | enum (values : List String)
  | method (visibility : Visibility) (isStatic isAbstract : Bool)
  | property (visibility : Visibility) (isStatic immutable isConst : Bool)
  | parameter (variadic optional : Bool)
  deriving DecidableEq

namespace Role

def kind : Role → SymbolKind
  | .class _ _ _ => .classType
  | .interface _ => .interface
  | .enum _ => .enum
  | .method _ _ _ => .method
  | .property _ _ _ isConst => if isConst then .constant else .property
  | .parameter _ _ => .parameter

def interfaces : Role → List String
  | .class _ interfaces _ => interfaces
  | .interface parents => parents
  | _ => []

end Role

structure Entry where
  fqn : String
  name : String
  outer : String
  role : Role
  deriving DecidableEq

instance : Symbol Entry where
  fqn e := e.fqn
  kind e := e.role.kind

namespace Entry

def ofType (fqn : String) (role : Role) : Entry :=
  { fqn, name := lastSegment fqn, outer := namespaceOf fqn, role }

def ofMember (owner member : String) (role : Role) : Entry :=
  { fqn := memberName owner member, name := member, outer := namespaceOf owner, role }

end Entry

def methodEntries (owner : String) (m : Method) : List Entry :=
  let method := Entry.ofMember owner m.name
    (.method (.ofProtected m.isProtected) m.isStatic m.isAbstract)
  method :: m.parameters.map fun p =>
    .ofMember method.fqn ("$" ++ p.name) (.parameter p.variadic p.optional)

def propertyEntry (owner : String) (p : Property) : Entry :=
  .ofMember owner p.name
    (.property (.ofProtected p.isProtected) p.isStatic p.immutable p.isConst)

def constructor_ (i : Initializer) : Method :=
  { name := "__construct", parameters := i.parameters }

def typeEntries : TypeEntry → List Entry
  | .class c =>
    let fqn := name c.fqn
    .ofType fqn (.class (c.base.map name) (c.interfaces.map name) c.isAbstract) ::
      (c.initializer.map constructor_).toList.flatMap (methodEntries fqn) ++
      c.methods.flatMap (methodEntries fqn) ++ c.properties.map (propertyEntry fqn)
  | .interface i =>
    let fqn := name i.fqn
    .ofType fqn (.interface (i.interfaces.map name)) ::
      i.methods.flatMap (methodEntries fqn) ++ i.properties.map (propertyEntry fqn)
  | .enum e => [.ofType (name e.fqn) (.enum (e.values.map (·.name)))]

def entries (assembly : Assembly) : List Entry := assembly.types.values.flatMap typeEntries

abbrev Symbols := SymbolTable Entry

namespace Symbols

def build (assembly : Assembly) : Outcome Symbols :=
  SymbolTable.registerAll .empty (entries assembly)

def lookupDotted (symbols : Symbols) (fqn : String) : Option Entry :=
  SymbolTable.lookup symbols (name fqn)

def parentClass (symbols : Symbols) (e : Entry) : Option Entry :=
  match e.role with
  | .class (some parent) _ _ => SymbolTable.lookupKind symbols parent .classType
  | _ => none

def interfaces (symbols : Symbols) (e : Entry) : Outcome (List Entry) :=
  (e.role.interfaces.filter (SymbolTable.contains symbols)).mapM fun fqn =>
    SymbolTable.require symbols fqn .interface

def members (symbols : Symbols) (owner : Entry) : List Entry :=
  (SymbolTable.symbols symbols).filter fun e => isMemberOf owner.fqn e.fqn

end Symbols

end Bindery.Namespaced
