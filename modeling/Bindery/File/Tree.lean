import Bindery.Collection.Sorted
import Bindery.File.Disk

/-!
# Trees of files

A disk in memory. Files and directories are known by the names on the way to them from the
working directory, where `..` leads above it, or from the root. Every name on a way must be
a directory, except the last one. Outside the working directory nothing is found but what
is put there.
-/

namespace Bindery

structure Tree where
  files : SortedMap String := .empty
  directories : SortedMap Unit := .empty

namespace Tree

/-- The names on the way to a file or a directory, behind `/` if it begins at the root. -/
abbrev Place := List String

def root : Place := ["/"]

def placeText (place : Place) : String := "/".intercalate place

def isOnTop (place : Place) : Bool := place.all (· = "..")

/-- The directory that a place lies in; the root lies in itself. -/
def above (place : Place) : Place :=
  if place = root then root else if isOnTop place then place ++ [".."] else place.dropLast

def isDirectoryAt (t : Tree) (place : Place) : Bool :=
  place = root || isOnTop place || t.directories.contains (placeText place)

def fileAt? (t : Tree) (place : Place) : Option String := t.files.find? (placeText place)

def blocked (t : Tree) (place : Place) : FileFault :=
  if (t.fileAt? place).isSome then .notDirectory else .notFound

def follow (t : Tree) : Place → List String → Except FileFault Place
  | place, [] => .ok place
  | place, part :: rest =>
    if !t.isDirectoryAt place then .error (t.blocked place)
    else if Path.isIdle part then t.follow place rest
    else if part = ".." then t.follow (above place) rest
    else if part.utf8ByteSize > Path.nameLimit then .error .nameTooLong
    else t.follow (place ++ [part]) rest

def locate (t : Tree) (p : Path) : Except FileFault Place :=
  match p.refusal? with
  | some fault => .error fault
  | none =>
    if p.text.isEmpty then .error .notFound
    else t.follow (if p.isAbsolute then root else []) p.parts

def isDirectory (t : Tree) (p : Path) : Bool :=
  match t.locate p with
  | .ok place => t.isDirectoryAt place
  | .error _ => false

def isPresent (t : Tree) (p : Path) : Bool :=
  match t.locate p with
  | .ok place => t.isDirectoryAt place || (t.fileAt? place).isSome
  | .error _ => false

def read (t : Tree) (p : Path) : Except FileFault String := do
  let place ← t.locate p
  if t.isDirectoryAt place then throw .isDirectory
  match t.fileAt? place with
  | some text => return text
  | none => throw .notFound

def write (t : Tree) (p : Path) (text : String) : Except FileFault Tree := do
  let place ← t.locate p
  if t.isDirectoryAt place then throw .isDirectory
  if !t.isDirectoryAt (above place) then throw (t.blocked (above place))
  return { t with files := t.files.insert (placeText place) text }

def makeDirectory (t : Tree) (p : Path) : Except FileFault Tree := do
  let place ← t.locate p
  if t.isDirectoryAt place || (t.fileAt? place).isSome then throw .exists
  if !t.isDirectoryAt (above place) then throw (t.blocked (above place))
  return { t with directories := t.directories.insert (placeText place) () }

def contents (t : Tree) : List (String × String) :=
  t.files.entries.filter fun (path, _) => !Text.startsWith "../" path && !Text.startsWith "/" path

def change (f : Tree → Except FileFault Tree) : StateM Tree (Except FileFault Unit) := do
  match f (← get) with
  | .ok t => set t; return .ok ()
  | .error fault => return .error fault

def disk : Disk (StateM Tree) where
  read p := return (← get).read p
  write p text := change (·.write p text)
  makeDirectory p := change (·.makeDirectory p)
  isDirectory p := return (← get).isDirectory p
  isPresent p := return (← get).isPresent p

def ofFiles (files : List (Path × String)) : Tree :=
  files.foldl (fun t (p, text) => (disk.place p text t).2) {}

end Tree

end Bindery
