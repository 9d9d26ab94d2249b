import Bindery.Command.Arguments

/-!
# Sessions

A session does the work of a command on a disk. It keeps what it has printed, also when it
fails, and a failure tells what was being done.
-/

namespace Bindery.Command

inductive Failure where
  | plain (message : String)
  | because (context : Option String) (fault : Fault)

def faultChain (fault : Fault) : String :=
  match fault with
  | .io cause => fault.message ++ ": " ++ cause.message
  | _ => fault.message

def Failure.message : Failure → String
  | .plain message => "Error: " ++ message
  | .because context fault =>
    let place := match context with
      | some context => context ++ ": "
      | none => ""
    "Error (" ++ fault.category.word ++ "): " ++ place ++ faultChain fault

abbrev Session (μ : Type → Type) := ExceptT Failure (StateT String μ)

namespace Session

variable {μ : Type → Type} [Monad μ] {α : Type}

def print (line : String) : Session μ Unit := modify (· ++ line ++ "\n")

def fail (message : String) : Session μ α := throw (.plain message)

def check (context : Option String) (outcome : Outcome α) : Session μ α :=
  match outcome with
  | .ok value => return value
  | .error fault => throw (.because context fault)

def readFile (disk : Disk μ) (path : Path) (context : String) : Session μ String := do
  match ← liftM (disk.read path) with
  | .ok text => return text
  | .error fault => throw (.because (some context) (.io fault))

end Session

end Bindery.Command
