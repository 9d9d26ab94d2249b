import Bindery.Command.Run

/-!
# The command line
-/

namespace Bindery.Command

def fileFault : IO.Error → FileFault
  | .noFileOrDirectory _ _ _ => .notFound
  | .alreadyExists _ _ _ => .exists
  | .inappropriateType _ code _ => if code = 21 then .isDirectory else .notDirectory
  | .invalidArgument _ code details =>
    if code = 36 then .nameTooLong else .other details
  | error => .other (toString error)

def attempt {α : Type} (p : Path) (action : IO α) : IO (Except FileFault α) := do
  match p.refusal? with
  | some fault => return .error fault
  | none =>
    try
      return .ok (← action)
    catch error =>
      return .error (fileFault error)

def machine : Disk IO where
  read p := attempt p (IO.FS.readFile p.text)
  write p text := attempt p (IO.FS.writeFile p.text text)
  makeDirectory p := attempt p (IO.FS.createDir p.text)
  isDirectory p := do
    match ← attempt p (IO.FS.realPath p.text) with
    | .ok path => path.isDir
    | .error _ => return false
  isPresent p := do
    match ← attempt p (IO.FS.realPath p.text) with
    | .ok path => path.pathExists
    | .error _ => return false

end Bindery.Command

def main (arguments : List String) : IO UInt32 := do
  let report ← Bindery.Command.run Bindery.Command.machine arguments
  IO.print report.out
  IO.eprint report.err
  return UInt32.ofNat report.code
