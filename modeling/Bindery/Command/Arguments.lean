import Bindery.Settings

/-!
# Arguments of the command

The first argument is what to do, and the rest are flags. Some flags stand alone and some
take the argument behind them as their value. The last value of a flag counts, except that
all dependencies are kept.
-/

namespace Bindery.Command

inductive Verb where
  | generate
  | symbols
  deriving DecidableEq

def Verb.ofWord? : String → Option Verb
  | "generate" => some generate
  | "symbols" => some symbols
  | _ => none

inductive Flag where
  | config
  | assembly
  | dependency
  | output
  | target
  | verbose
  | skipChecks
  | dryRun
  deriving DecidableEq

namespace Flag

def ofWord? (verb : Verb) (word : String) : Option Flag :=
  match verb, word with
  | _, "--config" => some .config
  | _, "--assembly" => some .assembly
  | _, "--dep" => some .dependency
  | _, "--verbose" => some .verbose
  | _, "-v" => some .verbose
  | .generate, "--output" => some .output
  | .generate, "-o" => some .output
  | .generate, "--no-runtime-type-checking" => some .skipChecks
  | .generate, "--dry-run" => some .dryRun
  | .symbols, "--target" => some .target
  | _, _ => none

def takesValue : Flag → Bool
  | config => true
  | assembly => true
  | dependency => true
  | output => true
  | target => true
  | verbose => false
  | skipChecks => false
  | dryRun => false

end Flag

structure Options where
  config : Option Path := none
  assembly : Option Path := none
  dependencies : List Path := []
  output : Option Path := none
  target : Option Target := none
  verbose : Bool := false
  skipChecks : Bool := false
  dryRun : Bool := false

inductive UsageFault where
  | missingCommand
  | unknownCommand (word : String)
  | missingValue (flag : String)
  | unknownArgument (word : String)
  | badValue (fault : Fault)
  deriving DecidableEq

def UsageFault.message : UsageFault → String
  | .missingCommand => "Missing command"
  | .unknownCommand word => "Unknown command: " ++ word
  | .missingValue flag => flag ++ " requires a value"
  | .unknownArgument word => "Unknown argument: " ++ word
  | .badValue fault => fault.message

namespace Options

def note (o : Options) (flag : Flag) (value : String) : Except UsageFault Options :=
  match flag with
  | .config => .ok { o with config := some ⟨value⟩ }
  | .assembly => .ok { o with assembly := some ⟨value⟩ }
  | .dependency => .ok { o with dependencies := o.dependencies ++ [⟨value⟩] }
  | .output => .ok { o with output := some ⟨value⟩ }
  | .target =>
    match Target.ofWord value with
    | .ok target => .ok { o with target := some target }
    | .error fault => .error (.badValue fault)
  | .verbose => .ok { o with verbose := true }
  | .skipChecks => .ok { o with skipChecks := true }
  | .dryRun => .ok { o with dryRun := true }

def read (verb : Verb) : List String → Options → Except UsageFault Options
  | [], o => .ok o
  | [word], o =>
    match Flag.ofWord? verb word with
    | none => .error (.unknownArgument word)
    | some flag => if flag.takesValue then .error (.missingValue word) else o.note flag ""
  | word :: next :: rest, o =>
    match Flag.ofWord? verb word with
    | none => .error (.unknownArgument word)
    | some flag =>
      if flag.takesValue then do read verb rest (← o.note flag next)
      else do read verb (next :: rest) (← o.note flag "")

end Options

structure Request where
  verb : Verb
  options : Options

def Request.read : List String → Except UsageFault Request
  | [] => .error .missingCommand
  | word :: rest =>
    match Verb.ofWord? word with
    | none => .error (.unknownCommand word)
    | some verb => do return { verb, options := ← Options.read verb rest {} }

end Bindery.Command
