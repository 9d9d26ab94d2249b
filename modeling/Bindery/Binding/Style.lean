import Bindery.Binding.Docstring
import Bindery.Binding.TypeCheck

/-!
# Styles of members

A member is written in the body of its type, or in the proxy class that stands for an
abstract type at run time. The style decides whether an abstract member is marked as such
and whether a member has a body.
-/

namespace Bindery.Binding

structure Style where
  keepsAbstract : Bool := true
  givesBody : Bool := false
  deriving DecidableEq

namespace Style

def declared : Style := {}

def concrete : Style := { keepsAbstract := false }

def delegating : Style := { givesBody := true }

def marks (style : Style) (isAbstract : Bool) : Bool := isAbstract && style.keepsAbstract

def hasBody (style : Style) (ofInterface isAbstract : Bool) : Bool :=
  (!ofInterface || style.givesBody) && !style.marks isAbstract

end Style

def abstractLine (style : Style) (isAbstract : Bool) : Script :=
  if style.marks isAbstract then [line "@abc.abstractmethod"] else []

def memberLine (name : String) : Code.Step Mark :=
  line ("@jsii.member(jsii_name=\"" ++ name ++ "\")")

def noBody : Script := [line "..."]

def defaultValue (isOptional : Bool) : String := if isOptional then " = None" else ""

end Bindery.Binding
