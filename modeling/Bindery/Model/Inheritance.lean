import Bindery.Model.Catalog

/-!
# Inheritance of structs

Two walks through the bases of a struct, each of which meets every struct once. `walk`
goes depth first and reports when it enters a struct and when it has left its bases;
`layers` goes breadth first. A base that is missing or no struct is reported in the place
where the walk meets it.

`fields` are the fields of a struct as its constructor takes them: inherited ones first,
the latest definition in the place of the first. `liftedFields` are those that a method
takes in place of the struct: nearest definitions first.
-/

namespace Bindery

open Api

namespace Catalog

inductive Visit where
  | enter (fqn : String) (struct : InterfaceType)
  | leave (fqn : String) (struct : InterfaceType)
  | fail (fault : Fault)

/-- Walks depth first from the names in turn; `seen` are the names met before. The walk is
at most `fuel` deep. -/
def walk (c : Catalog) : Nat → List String → List String → List Visit × List String
  | 0, _, seen => ([], seen)
  | fuel + 1, names, seen =>
    names.foldl (fun (visits, seen) fqn =>
      if fqn ∈ seen then (visits, seen)
      else match c.struct fqn with
        | .error fault => (visits ++ [.fail fault], fqn :: seen)
        | .ok struct =>
          let (inner, seen) := c.walk fuel struct.interfaces (fqn :: seen)
          (visits ++ .enter fqn struct :: inner ++ [.leave fqn struct], seen)) ([], seen)

def visits (c : Catalog) (fqn : String) : List Visit := (c.walk (c.size + 1) [fqn] []).1

/-- Puts a field in the place of an earlier one of the same name, or at the end. -/
def addFields (fqn : String) (struct : InterfaceType) (fields : OrderedMap Field) :
    OrderedMap Field :=
  struct.properties.foldl (fun fields p => fields.insert p.name (.ofProperty p fqn)) fields

def fields (c : Catalog) (fqn : String) : Outcome (List Field) := do
  let fields ← (c.visits fqn).foldlM (fun fields visit =>
    match visit with
    | .enter _ _ => .ok fields
    | .leave fqn struct => .ok (addFields fqn struct fields)
    | .fail fault => .error fault) OrderedMap.empty
  return fields.values

def unknownOf (known : List String) (names : List String) : List String :=
  names.foldl (fun new name => if name ∈ known ∨ name ∈ new then new else new ++ [name]) []

/-- Walks breadth first: takes the first waiting struct and lets its new bases wait. -/
def layers (c : Catalog) : Nat → List String → List String → Outcome (List (String × InterfaceType))
  | 0, _, _ => .ok []
  | _ + 1, [], _ => .ok []
  | fuel + 1, fqn :: waiting, known => do
    let struct ← c.struct fqn
    let new := unknownOf known struct.interfaces
    return (fqn, struct) :: (← c.layers fuel (waiting ++ new) (known ++ new))

def addNewFields (fields : List Field) (layer : String × InterfaceType) : List Field :=
  layer.2.properties.foldl (fun fields p =>
    if fields.any (·.name = p.name) then fields else fields ++ [.ofProperty p layer.1]) fields

def liftedFields (c : Catalog) (fqn : String) : Outcome (List Field) := do
  let layers ← c.layers (c.size + 1) [fqn] [fqn]
  return layers.foldl addNewFields []

end Catalog

end Bindery
