import Bindery.Collection.Ordered
import Bindery.Fault

/-!
# Symbol tables

A symbol is anything with a name of its own and a kind. A table holds every name once and
keeps the order of registration; registering a name again is a fault and leaves the first
symbol in place.
-/

namespace Bindery

inductive SymbolKind where
  | module
  | classType
  | interface
  | struct
  | enum
  | method
  | property
  | parameter
  | constant
  deriving DecidableEq

namespace SymbolKind

def word : SymbolKind → String
  | module => "module"
  | .classType => "class"
  | interface => "interface"
  | struct => "struct"
  | enum => "enum"
  | method => "method"
  | property => "property"
  | parameter => "parameter"
  | constant => "constant"

def all : List SymbolKind :=
  [.module, .classType, .interface, .struct, .enum, .method, .property, .parameter, .constant]

def ofWord? (word : String) : Option SymbolKind := all.find? (·.word = word)

def isType : SymbolKind → Bool
  | .classType => true
  | interface => true
  | struct => true
  | enum => true
  | _ => false

end SymbolKind

class Symbol (α : Type) where
  fqn : α → String
  kind : α → SymbolKind

structure SymbolTable (α : Type) where
  entries : OrderedMap α := .empty

namespace SymbolTable

variable {α : Type} [Symbol α]

def empty : SymbolTable α := {}

def symbols (table : SymbolTable α) : List α := table.entries.values

def size (table : SymbolTable α) : Nat := table.entries.size

def isEmpty (table : SymbolTable α) : Bool := table.entries.isEmpty

def lookup (table : SymbolTable α) (fqn : String) : Option α := table.entries.find? fqn

def contains (table : SymbolTable α) (fqn : String) : Bool := table.entries.contains fqn

def register (table : SymbolTable α) (symbol : α) : Outcome (SymbolTable α) :=
  if table.contains (Symbol.fqn symbol) then .error (.symbolCollision (Symbol.fqn symbol))
  else .ok { entries := table.entries.insert (Symbol.fqn symbol) symbol }

def registerAll (table : SymbolTable α) (symbols : List α) : Outcome (SymbolTable α) :=
  symbols.foldlM register table

def lookupKind (table : SymbolTable α) (fqn : String) (kind : SymbolKind) : Option α :=
  (table.lookup fqn).filter (Symbol.kind · = kind)

def require (table : SymbolTable α) (fqn : String) (kind : SymbolKind) : Outcome α :=
  match table.lookup fqn with
  | none => .error (.internal (.symbolMissing fqn))
  | some symbol =>
    if Symbol.kind symbol = kind then .ok symbol
    else .error (.internal (.symbolKind fqn kind.word))

def ofKind (table : SymbolTable α) (kind : SymbolKind) : List α :=
  table.symbols.filter (Symbol.kind · = kind)

end SymbolTable

end Bindery
