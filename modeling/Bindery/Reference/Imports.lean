import Bindery.Collection.Sorted

/-!
# Imports

The imports that a piece of code needs, as items by source. The empty item stands for the
source as a whole. Sources and items are kept in order, so equal sets are equal.
-/

namespace Bindery

structure Import where
  source : String
  item : String
  deriving DecidableEq

structure Imports where
  sources : SortedMap (SortedMap Unit) := .empty
  deriving DecidableEq

namespace Imports

def empty : Imports := {}

def itemsOf (imports : Imports) (source : String) : SortedMap Unit :=
  (imports.sources.find? source).getD .empty

def contains (imports : Imports) (i : Import) : Bool := (imports.itemsOf i.source).contains i.item

def add (imports : Imports) (i : Import) : Imports :=
  { sources := imports.sources.insert i.source ((imports.itemsOf i.source).insert i.item ()) }

def groups (imports : Imports) : List (String × List String) :=
  imports.sources.entries.map fun (source, items) => (source, items.keys)

def toList (imports : Imports) : List Import :=
  imports.groups.flatMap fun (source, items) => items.map fun item => { source, item }

def addAll (imports : Imports) (list : List Import) : Imports := list.foldl add imports

def ofList (list : List Import) : Imports := empty.addAll list

def merge (imports other : Imports) : Imports := imports.addAll other.toList

def mergeAll (sets : List Imports) : Imports := sets.foldl merge empty

def size (imports : Imports) : Nat := imports.sources.size

def isEmpty (imports : Imports) : Bool := imports.sources.isEmpty

end Imports

end Bindery
