import Bindery.Model.Basic

/-!
# Dependencies between siblings

A declaration must be written behind those it inherits from. Where a base lies deeper than
the declaration, what counts is the parent of the base that stands on the same level, the
sibling: `Model.siblings` climbs from every base of the module to that level.
-/

namespace Bindery

/-- A sibling that has to be written first. A module is written on its own and sets no
order. -/
inductive Dependency where
  | type (fqn : String)
  | module (fqn : String)
  deriving DecidableEq

namespace Dependency

def fqn : Dependency → String
  | .type fqn => fqn
  | .module fqn => fqn

def isModule : Dependency → Bool
  | .type _ => false
  | .module _ => true

end Dependency

inductive Climb where
  | sibling (fqn : String)
  | outside
  | lost
  deriving DecidableEq

/-- Climbs from a name to the one directly below `level`, at most `fuel` times. -/
def climb (level : String) : Nat → String → Climb
  | fuel, name =>
    let parent := Dotted.parent name
    if parent = level then .sibling name
    else if parent = "" then .outside
    else match fuel with
      | 0 => .lost
      | fuel + 1 => climb level fuel parent

namespace Model

def isInModule (m : Model) (fqn module : String) : Outcome Bool := do
  return Dotted.isBelow module (← m.pythonName fqn).path

def addSibling (m : Model) (d : Declaration) (module : String) (found : List Dependency)
    (base : String) : Outcome (List Dependency) :=
  if !m.symbols.contains base then .ok found
  else do
    if !(← m.isInModule base module) then return found
    match climb (Dotted.parent d.fqn) ((Dotted.segments base).length - 1) base with
    | .outside => return found
    | .lost => throw (.internal (.levelNotFound base d.fqn))
    | .sibling fqn =>
      if found.any (·.fqn = fqn) then return found
      let sibling ← m.declaration fqn
      return found ++ [if sibling.isModule then .module fqn else .type fqn]

/-- The siblings that a declaration of a Python module depends on, each once, in the order
of its bases. -/
def siblings (m : Model) (d : Declaration) (module : String) : Outcome (List Dependency) :=
  d.bases.foldlM (m.addSibling d module) []

end Model

end Bindery
