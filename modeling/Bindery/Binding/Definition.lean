import Bindery.Binding.Method
import Bindery.Binding.Property
import Bindery.Binding.Struct
import Bindery.Order.Members

/-!
# Definitions of types

A type is written in two parts. Its definition is the class itself, with nested types
inside; its epilogue is what has to follow: the proxy class of an interface or an abstract
class, and the line that registers it.
-/

namespace Bindery.Binding

abbrev Nesting := Context → String → Outcome Script

def valueScript (value : ValueMember) : Script :=
  line (value.pythonName ++ " = \"" ++ value.value ++ "\"") :: docstring value.docs none false

def fieldScript (ctx : Context) (field : Field) : Outcome Script := do
  let type ← spell ctx ctx.scope field.type
  return [type.step, line (field.pythonName ++ ": " ++ type.text)] ++
    docstring field.docs none false

def memberScript (nesting : Nesting) (ctx : Context) (style : Style) (member : Member) :
    Outcome Script := do
  let script ← match member with
    | .method method => methodScript ctx style method
    | .property property => propertyScript ctx style property
    | .value value => .ok (valueScript value)
    | .field field => fieldScript ctx field
    | .type nested => nesting ctx nested.fqn
  return .mark (.member member) :: script

def bodyMembers (ctx : Context) (d : Declaration) : Outcome (List Member) := do
  if d.members.isEmpty then return []
  let module ← ctx.model.declaration ctx.scope.module
  Members.arrange ctx.model module.name d.members

def classScript (nesting : Nesting) (ctx : Context) (d : Declaration) (params : List String)
    (between : Script) : Outcome Script := do
  let members ← bodyMembers ctx d
  let scripts ← members.mapM (memberScript nesting ctx .declared)
  let body := if d.members.isEmpty then [line "pass"] else between.intercalate scripts
  return [.signature { kind := .type, name := d.name, params }] ++
    docstring d.docs none true ++ body ++ [.dedent]

def jsiiType (fqn : String) : String := "jsii_type=\"" ++ fqn ++ "\""

def registration (word fqn : String) : Code.Step Mark :=
  .listing { before := "@jsii." ++ word ++ "(", elements := [jsiiType fqn], behind := ")" }

def implementsScript (names : List Spelled) : Script :=
  if names.isEmpty then []
  else mentions names ++ [line ("@jsii.implements(" ++ Code.commaList (texts names) ++ ")")]

def shapeScript (nesting : Nesting) (ctx : Context) (d : Declaration) : Outcome Script := do
  let inner := ctx.inside d.fqn
  match d.shape with
  | .class base interfaces isAbstract _ =>
    let implemented ← spellNames ctx interfaces
    let bases ← spellNames inner base.toList
    let metaclass := if isAbstract then "JSIIAbstractClass" else "JSIIMeta"
    let params := texts bases ++ ["metaclass=jsii." ++ metaclass, jsiiType d.fqn]
    return implementsScript implemented ++ mentions bases ++
      (← classScript nesting inner d params [blank])
  | .interface interfaces =>
    let bases ← spellNames inner interfaces
    let params := texts bases ++ ["typing_extensions.Protocol"]
    return registration "interface" d.fqn :: mentions bases ++
      (← classScript nesting inner d params [blank])
  | .enum =>
    return registration "enum" d.fqn :: (← classScript nesting inner d ["enum.Enum"] [])
  | .struct _ => structScript ctx d
  | .module _ => throw (.internal (.moduleNotType d.fqn))

def definitionScript (nesting : Nesting) (ctx : Context) (d : Declaration) : Outcome Script := do
  return .mark (.opened d.fqn) :: (← shapeScript nesting ctx d) ++ [.mark (.closed d.fqn)]

def proxyName (d : Declaration) : String := "_" ++ d.name ++ "Proxy"

def proxyBase (base : Spelled) : String :=
  "jsii.proxy_for(" ++ base.text ++ ") # type: ignore[misc]"

def proxyHook (d : Declaration) (what : String) : Script :=
  [blank,
    line ("# Adding a \"__jsii_proxy_class__(): typing.Type\" function to the " ++ what),
    line ("typing.cast(typing.Any, " ++ d.name ++ ").__jsii_proxy_class__ = lambda : " ++
      proxyName d)]

def proxyMembers (d : Declaration) : List Member :=
  match d.shape with
  | .class _ _ true _ => d.members.filter fun m => m.isOperation && m.isAbstract
  | .interface _ => d.members.filter Member.isOperation
  | _ => []

def noNesting : Nesting := fun _ _ => .ok []

def passIfEmpty (scripts : List Script) : Script :=
  if scripts.isEmpty then [line "pass"] else []

def proxyClass (d : Declaration) (params : List String) (bases : List Spelled)
    (body : Script) (what : String) : Script :=
  [blank, blank] ++ mentions bases ++
    [.signature { kind := .type, name := proxyName d, params }] ++ body ++ [.dedent] ++
    proxyHook d what

def epilogueScript (ctx : Context) (d : Declaration) : Outcome Script := do
  let ctx := ctx.inside d.fqn
  match d.shape with
  | .class _ _ true abstractBases =>
    let bases ← spellNames ctx abstractBases
    let scripts ← (proxyMembers d).mapM (memberScript noNesting ctx .concrete)
    return proxyClass d (d.name :: bases.map proxyBase) bases
      (passIfEmpty scripts ++ [blank].intercalate scripts) "abstract class"
  | .interface interfaces =>
    let bases ← spellNames ctx interfaces
    let scripts ← (proxyMembers d).mapM (memberScript noNesting ctx .delegating)
    let typeLine := line ("__jsii_type__: typing.ClassVar[str] = \"" ++ d.fqn ++ "\"")
    return proxyClass d (bases.map proxyBase) bases
      (docstring d.docs none true ++ [typeLine] ++ passIfEmpty scripts ++
        scripts.flatMap (blank :: ·)) "interface"
  | _ => return []

/-- The definition of a type with the types nested in it, at most `fuel` deep. -/
def define : Nat → Context → Declaration → Outcome Script
  | 0, _, d => .error (.unknownType d.fqn)
  | fuel + 1, ctx, d =>
    let nesting : Nesting := fun ctx fqn => do
      let nested ← ctx.model.declaration fqn
      return (← define fuel ctx nested) ++ (← epilogueScript ctx nested)
    definitionScript nesting ctx d

/-- More than any chain of nested declarations. -/
def nestingLimit (m : Model) : Nat := m.symbols.size + 1

end Bindery.Binding
