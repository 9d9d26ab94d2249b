import Bindery.Binding.Style

/-!
# Properties

A property reads its value from the runtime, and one that may change also writes it there.
-/

namespace Bindery.Binding

def propertyDecorators (style : Style) (property : PropertyMember) : Script :=
  [line ("@" ++ property.kind.decorator), memberLine property.name] ++
    abstractLine style property.isAbstract

def Style.hasPropertyBody (style : Style) (property : PropertyMember) : Bool :=
  style.hasBody (property.kind = .interface) property.isAbstract

/-- Type checkers do not know properties of classes that can be set. -/
def isSettableStatic (property : PropertyMember) : Bool :=
  property.kind = .static && !property.immutable

def getterScript (style : Style) (property : PropertyMember) (type : Spelled) : Script :=
  let receiver := property.kind.receiver
  let body :=
    if style.hasPropertyBody property then
      [line ("return typing.cast(" ++ type.text ++ ", jsii." ++ property.kind.getter ++ "(" ++
        receiver ++ ", \"" ++ property.name ++ "\"))")]
    else noBody
  propertyDecorators style property ++
    [type.step,
      .signature {
        kind := .function
        name := property.pythonName
        params := [receiver]
        returns := some type.text
        comment :=
          if isSettableStatic property then some "pyright: ignore [reportGeneralTypeIssues]"
          else none }] ++
    docstring property.docs none false ++ body ++ [.dedent]

def setterScript (ctx : Context) (style : Style) (property : PropertyMember) (type : Spelled) :
    Script :=
  let receiver := property.kind.receiver
  let value := "value: " ++ type.text
  let marker := if property.kind = .static then " # type: ignore[no-redef]" else ""
  let body :=
    if style.hasPropertyBody property then
      typeChecks ctx [value] (property.parent ++ "#" ++ property.pythonName) ++
        [line ("jsii." ++ property.kind.setter ++ "(" ++ receiver ++ ", \"" ++ property.name ++
          "\", value)")]
    else noBody
  [blank, line ("@" ++ property.pythonName ++ ".setter" ++ marker)] ++
    abstractLine style property.isAbstract ++
    [type.step,
      .signature {
        kind := .function
        name := property.pythonName
        params := [receiver, value]
        returns := some "None" }] ++
    body ++ [.dedent]

def propertyScript (ctx : Context) (style : Style) (property : PropertyMember) :
    Outcome Script := do
  let type ← spell ctx ctx.scope property.type
  let setter := if property.immutable then [] else setterScript ctx style property type
  return getterScript style property type ++ setter

end Bindery.Binding
