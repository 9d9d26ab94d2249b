/-!
# TOML documents

A document is a tree of tables. A table may be opened by a header, or come into being
because a header or a dotted key leads through it; what may be added to it later depends
on that. `Table.addPair` adds the value of a key and `Table.addSection` adds what stands
below a header. Both give `none` where a table or a key would be defined twice.
-/

namespace Bindery.Toml

inductive Node where
  | string (text : String)
  | boolean (value : Bool)
  | moment (text : String)
  | number
  | array (items : List Node)
  | inline (entries : List (String × Node))
  | table (implicit dotted : Bool) (entries : List (String × Node))
  | tables (items : List (List (String × Node)))
  deriving Inhabited

namespace Node

def text? : Node → Option String
  | .string text => some text
  | _ => none

def flag? : Node → Option Bool
  | .boolean value => some value
  | _ => none

def momentKey : String := "$__toml_private_datetime"

/-- The entries of a table. A date or a time counts as a table with its text as the only
entry. -/
def entries? : Node → Option (List (String × Node))
  | .inline entries => some entries
  | .table _ _ entries => some entries
  | .moment text => some [(momentKey, .string text)]
  | _ => none

def items? : Node → Option (List Node)
  | .array items => some items
  | .tables items => some (items.map .inline)
  | _ => none

end Node

structure Table where
  implicit : Bool := false
  dotted : Bool := false
  entries : List (String × Node) := []

namespace Table

def node (t : Table) : Node := .table t.implicit t.dotted t.entries

def find? (t : Table) (key : String) : Option Node := t.entries.lookup key

def put (t : Table) (key : String) (node : Node) : Table :=
  { t with entries := go t.entries }
where
  go : List (String × Node) → List (String × Node)
    | [] => [(key, node)]
    | (k, old) :: rest => if k = key then (k, node) :: rest else (k, old) :: go rest

/-- Follows a path of keys and changes the table at its end. Missing tables on the way come
into being. A path of dotted keys leads through no table that a header has opened. -/
def descend (dotted : Bool) (change : Table → Option Table) : List String → Table → Option Table
  | [], t => change t
  | key :: path, t =>
    match t.find? key with
    | none => do
      let inner ← descend dotted change path { implicit := true, dotted }
      return t.put key inner.node
    | some (.table implicit wasDotted entries) =>
      if dotted && !implicit then none
      else do
        let inner ← descend dotted change path { implicit, dotted := wasDotted, entries }
        return t.put key inner.node
    | some (.tables items) =>
      match items.getLast? with
      | none => none
      | some last => do
        let inner ← descend dotted change path { entries := last }
        return t.put key (.tables (items.dropLast ++ [inner.entries]))
    | some _ => none

def addNew (key : String) (node : Node) (t : Table) : Option Table :=
  if (t.find? key).isSome then none else some (t.put key node)

/-- Adds the value of a dotted key, given as the path to it and its last part. A table that
a header leads through takes no dotted keys. -/
def addPair (t : Table) (path : List String) (key : String) (node : Node) : Option Table :=
  descend true (fun inner =>
    if inner.dotted = path.isEmpty then none else addNew key node inner) path t

/-- The table that a header opens: a new one, or one that a longer header led through. -/
def opened (t : Table) (key : String) : Option Table :=
  match t.find? key with
  | none => some {}
  | some (.table true false entries) => some { entries }
  | some _ => none

def listed (t : Table) (key : String) : Option (List (List (String × Node))) :=
  match t.find? key with
  | none => some []
  | some (.tables items) => some items
  | some _ => none

def addSection (t : Table) (path : List String) (key : String) (isListed : Bool)
    (fill : Table → Option Table) : Option Table :=
  descend false (fun parent =>
    if isListed then do
      let items ← parent.listed key
      let filled ← fill {}
      return parent.put key (.tables (items ++ [filled.entries]))
    else do
      let filled ← fill (← parent.opened key)
      return parent.put key filled.node) path t

end Table

end Bindery.Toml
