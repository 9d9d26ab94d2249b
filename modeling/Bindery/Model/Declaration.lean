import Bindery.Api.TypeEntry
import Bindery.Api.TypeExpr
import Bindery.Name.Identifier
import Bindery.Symbol

/-!
# Declarations

A declaration is a module or a type as the generated code sees it: it has its Python name,
and its members have theirs. Other declarations are mentioned by their fully qualified
names only.
-/

namespace Bindery

open Api

inductive Shape where
  | module (readme : Option String)
  | class (base : Option String) (interfaces : List String) (isAbstract : Bool)
      (abstractBases : List String)
  | interface (bases : List String)
  | struct (bases : List String)
  | enum
  deriving DecidableEq, Inhabited

namespace Shape

def kind : Shape → SymbolKind
  | .module _ => .module
  | .class _ _ _ _ => .classType
  | .interface _ => .interface
  | .struct _ => .struct
  | .enum => .enum

/-- The declarations that this one inherits from; a base class stands first. -/
def bases : Shape → List String
  | .module _ => []
  | .class base interfaces _ _ => base.toList ++ interfaces
  | .interface bases => bases
  | .struct bases => bases
  | .enum => []

end Shape

inductive MethodKind where
  | initializer
  | onInstance
  | static
  | async
  | interface
  deriving DecidableEq, Inhabited

namespace MethodKind

def word : MethodKind → String
  | initializer => "initializer"
  | onInstance => "instance"
  | static => "static"
  | async => "async"
  | interface => "interface"

def runtimeCall : MethodKind → String
  | initializer => "create"
  | onInstance => "invoke"
  | static => "sinvoke"
  | async => "ainvoke"
  | interface => "invoke"

def receiver : MethodKind → String
  | static => "cls"
  | _ => "self"

def decorator? : MethodKind → Option String
  | static => some "builtins.classmethod"
  | _ => none

end MethodKind

inductive PropertyKind where
  | onInstance
  | static
  | interface
  deriving DecidableEq, Inhabited

namespace PropertyKind

def word : PropertyKind → String
  | onInstance => "instance"
  | static => "static"
  | interface => "interface"

def decorator : PropertyKind → String
  | static => "jsii.python.classproperty"
  | _ => "builtins.property"

def receiver : PropertyKind → String
  | static => "cls"
  | _ => "self"

def getter : PropertyKind → String
  | static => "sget"
  | _ => "get"

def setter : PropertyKind → String
  | static => "sset"
  | _ => "set"

end PropertyKind

structure NestedType where
  fqn : String
  pythonName : String
  docs : Option Docs := none
  deriving Inhabited

structure Argument where
  name : String
  type : TypeExpr
  variadic : Bool := false
  docs : Option Docs := none
  deriving Inhabited

def Argument.ofParameter (p : Parameter) : Argument :=
  { name := p.name, type := .ofValue p.type p.optional, variadic := p.variadic, docs := p.docs }

structure MethodMember where
  pythonName : String
  name? : Option String
  kind : MethodKind
  arguments : List Argument
  returns : TypeExpr
  isAbstract : Bool
  lifted : Option String
  parent : String
  docs : Option Docs := none
  deriving Inhabited

structure PropertyMember where
  pythonName : String
  name : String
  type : TypeExpr
  kind : PropertyKind
  immutable : Bool
  isAbstract : Bool
  parent : String
  docs : Option Docs := none
  deriving Inhabited

structure Field where
  pythonName : String
  name : String
  type : TypeExpr
  definedIn : String
  docs : Option Docs := none
  deriving Inhabited

def Field.ofProperty (p : Property) (definedIn : String) : Field :=
  { pythonName := Identifier.property p.name false false
    name := p.name
    type := .ofValue p.type p.optional
    definedIn
    docs := p.docs }

structure ValueMember where
  pythonName : String
  value : String
  docs : Option Docs := none
  deriving Inhabited

inductive Member where
  | type (nested : NestedType)
  | method (method : MethodMember)
  | property (property : PropertyMember)
  | field (field : Field)
  | value (value : ValueMember)
  deriving Inhabited

namespace Member

def pythonName : Member → String
  | .type t => t.pythonName
  | .method m => m.pythonName
  | .property p => p.pythonName
  | .field f => f.pythonName
  | .value v => v.pythonName

def docs : Member → Option Docs
  | .type t => t.docs
  | .method m => m.docs
  | .property p => p.docs
  | .field f => f.docs
  | .value v => v.docs

def isDeprecated (member : Member) : Bool := member.docs.any Docs.isDeprecated

/-- The name of a nested type; only these members depend on others. -/
def nested? : Member → Option String
  | .type t => some t.fqn
  | _ => none

def isAbstract : Member → Bool
  | .method m => m.isAbstract
  | .property p => p.isAbstract
  | _ => false

def isOperation : Member → Bool
  | .method _ => true
  | .property _ => true
  | _ => false

end Member

structure Declaration where
  fqn : String
  name : String
  parent : String
  docs : Option Docs := none
  shape : Shape
  members : List Member := []
  deriving Inhabited

namespace Declaration

def isModule (d : Declaration) : Bool := d.shape.kind = .module

def isDeprecated (d : Declaration) : Bool := d.docs.any Docs.isDeprecated

def bases (d : Declaration) : List String := d.shape.bases

end Declaration

instance : Symbol Declaration where
  fqn d := d.fqn
  kind d := d.shape.kind

end Bindery
