import Bindery.Text.Split

/-!
# Dotted names

A dotted name is a text read as segments between dots. The parent of a name is what
stands before its last dot, and the empty text if it has none. `ancestors` lists the
parents of a name from the nearest one on and ends with the empty text.
-/

namespace Bindery.Dotted

def segments (name : String) : List String := Text.split '.' name

def join (segments : List String) : String := ".".intercalate segments

theorem join_segments (name : String) : join (segments name) = name :=
  Text.intercalate_split '.' name

def parent (name : String) : String :=
  String.ofList ((name.toList.reverse.dropWhile (· ≠ '.')).drop 1).reverse

def head (name : String) : String := (segments name).headD ""

def last (name : String) : String := (segments name).getLastD ""

def parentsOf : List Char → List String
  | [] => [""]
  | c :: rest => if c = '.' then String.ofList rest.reverse :: parentsOf rest else parentsOf rest

/-- The parents of a name from the nearest one on; the empty text stands last. -/
def ancestors (name : String) : List String := parentsOf name.toList.reverse

def below? (name other : String) : Option String := Text.after? (name ++ ".") other

def isBelow (name other : String) : Bool := (below? name other).isSome

end Bindery.Dotted
