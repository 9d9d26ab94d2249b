import Bindery.Format.Json
import Bindery.Name.ImportPath
import Bindery.Fault
import Bindery.Reference.Imports

/-!
# Alias table

Imports are bound to aliases that are made of names and digests. The table holds all
aliases of an assembly, each with the absolute import it stands for. When an alias is asked
to stand for a second import, the table remembers that. Relative sources are made absolute
first, so one target that two modules reach by different paths is one import.
-/

namespace Bindery

/-- An import with an absolute source; a whole module has an empty item. -/
structure AliasEntry where
  source : String
  item : String
  deriving DecidableEq

namespace AliasEntry

def describe (entry : AliasEntry) : String :=
  if entry.item.isEmpty then "import " ++ entry.source
  else "from " ++ entry.source ++ " import " ++ entry.item

def toJson (entry : AliasEntry) : Json :=
  .object (("source", .string entry.source) ::
    if entry.item.isEmpty then [] else [("item", .string entry.item)])

end AliasEntry

structure AliasBinding where
  name : String
  entry : AliasEntry
  deriving DecidableEq

structure AliasConflict where
  name : String
  first : AliasEntry
  second : AliasEntry
  deriving DecidableEq

structure AliasTable where
  aliases : SortedMap AliasEntry := .empty
  conflicts : List AliasConflict := []

def Import.binding? (module : String) (i : Import) : Option AliasBinding :=
  let entry (source item : String) : AliasEntry :=
    { source := ImportPath.absolute module source, item }
  if i.item.isEmpty then
    (Text.breakOn? " as " i.source).map fun (source, name) => ⟨name, entry source ""⟩
  else
    (Text.breakOn? " as " i.item).map fun (item, name) => ⟨name, entry i.source item⟩

namespace AliasTable

def empty : AliasTable := {}

/-- Binds an alias that is free and records a conflict for one that is taken otherwise. -/
def add (t : AliasTable) (b : AliasBinding) : AliasTable :=
  match t.aliases.find? b.name with
  | none => { t with aliases := t.aliases.insert b.name b.entry }
  | some first =>
    if first = b.entry then t
    else { t with conflicts := t.conflicts ++ [⟨b.name, first, b.entry⟩] }

def addImports (t : AliasTable) (module : String) (imports : Imports) : AliasTable :=
  (imports.toList.filterMap (·.binding? module)).foldl add t

def verify (t : AliasTable) : Outcome Unit :=
  match t.conflicts with
  | [] => .ok ()
  | c :: _ => .error (.aliasCollision c.name c.first.describe c.second.describe)

def find? (t : AliasTable) (name : String) : Option AliasEntry := t.aliases.find? name

def size (t : AliasTable) : Nat := t.aliases.size

def isEmpty (t : AliasTable) : Bool := t.aliases.isEmpty

def toJson (t : AliasTable) : Json :=
  .object [("aliases", .object (t.aliases.entries.map fun (name, entry) => (name, entry.toJson)))]

end AliasTable

end Bindery
