import Bindery.Binding.Module
import Bindery.File.Disk
import Bindery.Model.Build

/-!
# Distributions

A distribution is the set of files of a generated package. Everything is rendered before
any file is written.
-/

namespace Bindery

open Api

structure FileMap where
  entries : List (Path × String) := []

namespace FileMap

/-- Puts a file in its place. Of two spellings of one path the first is kept, with the last
text. -/
def place (p : Path) (text : String) : List (Path × String) → List (Path × String)
  | [] => [(p, text)]
  | (q, old) :: rest =>
    if q.key = p.key then (q, text) :: rest
    else if p.key < q.key then (p, text) :: (q, old) :: rest
    else (q, old) :: place p text rest

def insert (files : FileMap) (p : Path) (text : String) : FileMap :=
  { entries := place p text files.entries }

def ofList (entries : List (Path × String)) : FileMap :=
  entries.foldl (fun files (p, text) => files.insert p text) {}

def paths (files : FileMap) : List Path := files.entries.map Prod.fst

def size (files : FileMap) : Nat := files.entries.length

end FileMap

namespace Distribution

def moduleDirectory (module : String) : Path :=
  (Text.split '.' module).foldl (fun p segment => p.join ⟨segment⟩) ⟨"src"⟩

def moduleFile (module : String) : Path := (moduleDirectory module).join ⟨"__init__.py"⟩

def readme (a : Assembly) : String :=
  match a.readme with
  | some readme => readme.markdown
  | none => a.distribution ++ "\n" ++ Text.repeated a.distribution.length '=' ++ "\n"

def files (m : Model) (root : Declaration) (rendered : List Binding.Rendered) :
    List (Path × String) :=
  rendered.map (fun r => (moduleFile r.name, r.text)) ++
    [((moduleDirectory root.name).join ⟨"py.typed"⟩, ""),
      (⟨"README.md"⟩, readme m.assembly)]

def generate (a : Assembly) (dependencies : List Assembly) (checks : Bool) :
    Outcome FileMap := do
  let m ← Model.build a dependencies
  (← Binding.collectAliases m).verify
  let rendered ← Binding.renderAll m checks
  let root ← m.declaration a.name
  return .ofList (files m root rendered)

structure Summary where
  root : Path
  files : List Path := []
  modules : Nat := 0
  bytes : Nat := 0

def Summary.count (s : Summary) (p : Path) (text : String) : Summary :=
  { s with
    files := s.files ++ [p]
    modules := s.modules + if p.extension? = some "py" then 1 else 0
    bytes := s.bytes + text.utf8ByteSize }

variable {μ : Type → Type} [Monad μ]

def writeAll (disk : Disk μ) : List (Path × String) → Summary → μ (Outcome Summary)
  | [], s => return .ok s
  | (p, text) :: rest, s => do
    match ← disk.place (s.root.join p) text with
    | .error fault => return .error (.io fault)
    | .ok () => writeAll disk rest (s.count p text)

def build (disk : Disk μ) (a : Assembly) (dependencies : List Assembly) (checks : Bool)
    (output : Option Path) : μ (Outcome Summary) :=
  match output with
  | none => return .error (.config .noOutputDirectory)
  | some root =>
    match generate a dependencies checks with
    | .error fault => return .error fault
    | .ok files => writeAll disk files.entries { root }

end Distribution

end Bindery
