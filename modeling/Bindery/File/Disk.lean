import Bindery.Fault
import Bindery.File.Path

/-!
# Disks

The operations on files that a run needs, in any monad. Whole directory trees are made
from the operation that makes one directory.
-/

namespace Bindery

def Path.sizeLimit : Nat := 4095

def Path.nameLimit : Nat := 255

/-- Why no file can have a path, whatever is on the disk. -/
def Path.refusal? (p : Path) : Option FileFault :=
  if p.text.toList.contains '\x00' then some .zeroInName
  else if p.text.utf8ByteSize > sizeLimit then some .nameTooLong
  else none

structure Disk (m : Type → Type) where
  read : Path → m (Except FileFault String)
  write : Path → String → m (Except FileFault Unit)
  makeDirectory : Path → m (Except FileFault Unit)
  isDirectory : Path → m Bool
  isPresent : Path → m Bool

namespace Disk

variable {m : Type → Type} [Monad m]

def ensure (disk : Disk m) (p : Path) : m (Except FileFault Unit) := do
  match ← disk.makeDirectory p with
  | .ok () => return .ok ()
  | .error fault => if ← disk.isDirectory p then return .ok () else return .error fault

def ensureTree (disk : Disk m) : Nat → Path → m (Except FileFault Unit)
  | 0, p => disk.ensure p
  | fuel + 1, p => do
    if p.components.isEmpty then return .ok ()
    match ← disk.ensure p with
    | .ok () => return .ok ()
    | .error .notFound =>
      match p.parent? with
      | none => return .error .notFound
      | some parent =>
        match ← disk.ensureTree fuel parent with
        | .error fault => return .error fault
        | .ok () => disk.ensure p
    | .error fault => return .error fault

def place (disk : Disk m) (p : Path) (text : String) : m (Except FileFault Unit) := do
  let made ← match p.parent? with
    | none => pure (.ok ())
    | some parent => disk.ensureTree p.text.length parent
  match made with
  | .error fault => return .error fault
  | .ok () => disk.write p text

end Disk

end Bindery
