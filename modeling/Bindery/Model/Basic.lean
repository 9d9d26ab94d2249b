import Bindery.Model.Inheritance

/-!
# Models

A model is a catalog together with the declarations of its assembly. Modules stand before
types, and modules and types each keep the order of the assembly.
-/

namespace Bindery

structure Model extends Catalog where
  symbols : SymbolTable Declaration := .empty

namespace Model

def declaration (m : Model) (fqn : String) : Outcome Declaration :=
  match m.symbols.lookup fqn with
  | some declaration => .ok declaration
  | none => .error (.unknownType fqn)

def parent? (m : Model) (fqn : String) : Option Declaration :=
  m.symbols.lookup (Dotted.parent fqn)

def modules (m : Model) : List Declaration := m.symbols.ofKind .module

def children (m : Model) (module : Declaration) : List Declaration :=
  m.modules.filter fun child => child.parent = module.fqn && child.fqn ≠ module.fqn

end Model

end Bindery
