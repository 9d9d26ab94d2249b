import Bindery.Command.Session
import Bindery.Distribution
import Bindery.Format.Json.Writer
import Bindery.Namespaced.Symbols

/-!
# Running the command

`run` carries out a command line on a disk and reports what it prints and how it ends.
-/

namespace Bindery.Command

open Api

def defaultConfig : String := "forge-cast.toml"

def usage : List String := [
  "forge-cast <generate|symbols> [options]",
  "",
  "Commands:",
  "  generate                       Write the Python package for an assembly",
  "  symbols                        Print the symbol table of an assembly",
  "",
  "Options:",
  "  --config <file>                Configuration file (default: ./" ++ defaultConfig ++ ")",
  "  --assembly <file>              Assembly IR (JSON)",
  "  --dep <file>                   Dependency assembly IR, repeatable",
  "  --output <dir>                 Output directory (generate)",
  "  --no-runtime-type-checking     Skip runtime type checks (generate)",
  "  --dry-run                      List files without writing them (generate)",
  "  --target <python|php>          Symbol table to print (symbols)",
  "  --verbose                      Debug logging",
  "",
  "Logging is controlled by FORGE_CAST_LOG (e.g. FORGE_CAST_LOG=forge_cast=debug)."]

variable {μ : Type → Type} [Monad μ]

def loadSettings (disk : Disk μ) (path : Path) : Session μ Settings := do
  let context := "Failed to load config at " ++ path.text
  let text ← Session.readFile disk path context
  Session.check (some context) (Settings.ofFile path text)

def Options.override (o : Options) (g : Generation) : Generation :=
  { assembly := o.assembly <|> g.assembly
    dependencies := if o.dependencies.isEmpty then g.dependencies else o.dependencies
    output := o.output <|> g.output
    checks := !o.skipChecks && g.checks
    targets := g.targets }

/-- The settings of a session: a document that is named or in its usual place, and the
options. -/
def settings (disk : Disk μ) (o : Options) : Session μ Settings := do
  let s ← match o.config with
    | some path => loadSettings disk path
    | none =>
      if ← liftM (disk.isPresent ⟨defaultConfig⟩) then loadSettings disk ⟨defaultConfig⟩
      else pure {}
  return { s with generation := o.override s.generation }

def loadAssembly (disk : Disk μ) (path : Path) : Session μ Assembly := do
  let context := "Failed to read assembly at " ++ path.text
  let text ← Session.readFile disk path context
  match Assembly.ofText? text with
  | some assembly => return assembly
  | none => throw (.because (some context) .malformed)

structure Inputs where
  assembly : Assembly
  dependencies : List Assembly

def loadInputs (disk : Disk μ) (s : Settings) : Session μ Inputs := do
  match s.generation.assembly with
  | none => Session.fail "No assembly given (use --assembly or [generate].assembly)"
  | some path =>
    let assembly ← loadAssembly disk path
    let assembly ← Session.check (some "Failed to apply module overrides") (s.apply assembly)
    let dependencies ← s.generation.dependencies.mapM (loadAssembly disk)
    return { assembly, dependencies }

def fileRow (path : Path) (text : String) : String :=
  Text.padLeft 8 (toString text.utf8ByteSize) ++ "  " ++ path.text

def summaryLine (name : String) (s : Distribution.Summary) : String :=
  "Generated " ++ name ++ " (" ++ toString s.modules ++ " modules, " ++
    toString s.files.length ++ " files, " ++ toString s.bytes ++ " bytes) in " ++ s.root.text

def generate (disk : Disk μ) (s : Settings) (dryRun : Bool) : Session μ Unit := do
  let inputs ← loadInputs disk s
  let g := s.generation
  if !g.targets.contains .python then return ()
  let name := inputs.assembly.name
  let context := some ("Failed to generate " ++ name)
  if dryRun then
    let files ← Session.check context
      (Distribution.generate inputs.assembly inputs.dependencies g.checks)
    for (path, text) in files.entries do
      Session.print (fileRow path text)
  else if g.output.isNone then
    Session.fail "No output directory given (use --output or [generate].output)"
  else
    let summary ← liftM
      (Distribution.build disk inputs.assembly inputs.dependencies g.checks g.output)
    Session.print (summaryLine name (← Session.check context summary))

def symbolRow (fqn kind name outer : String) : String :=
  Text.padRight 48 fqn ++ " " ++ Text.padRight 10 kind ++ " " ++ Text.padRight 40 name ++ " " ++
    outer

def targetName (m : Model) (d : Declaration) : Outcome String :=
  if (Symbol.kind d).isType then do return (← m.pythonName d.fqn).path else .ok d.name

def printPython (inputs : Inputs) : Session μ Unit := do
  let m ← Session.check (some "Failed to build the model")
    (Model.build inputs.assembly inputs.dependencies)
  for d in m.symbols.symbols do
    let name ← Session.check none (targetName m d)
    Session.print (symbolRow d.fqn (Symbol.kind d).word name d.parent)
  let aliases ← Session.check none (Binding.collectAliases m)
  Session.check none aliases.verify
  Session.print ""
  Session.print aliases.toJson.pretty

def printNamespaced (inputs : Inputs) : Session μ Unit := do
  let symbols ← Session.check none (Namespaced.Symbols.build inputs.assembly)
  for e in SymbolTable.symbols symbols do
    Session.print (symbolRow e.fqn (Symbol.kind e).word e.name e.outer)

def symbols (disk : Disk μ) (s : Settings) (target : Target) : Session μ Unit := do
  let inputs ← loadInputs disk s
  Session.print (symbolRow "FQN" "KIND" "TARGET NAME" "NAMESPACE")
  match target with
  | .python => printPython inputs
  | .php => printNamespaced inputs

def perform (disk : Disk μ) (request : Request) : Session μ Unit := do
  let s ← settings disk request.options
  match request.verb with
  | .generate => generate disk s request.options.dryRun
  | .symbols => symbols disk s (request.options.target.getD .python)

structure Report where
  code : Nat
  out : String := ""
  err : String := ""

def unlines (lines : List String) : String := String.join (lines.map (· ++ "\n"))

def run (disk : Disk μ) (arguments : List String) : μ Report := do
  if arguments.isEmpty then return { code := 2, err := unlines usage }
  match Request.read arguments with
  | .error fault =>
    return { code := 2, err := unlines (("Error: " ++ fault.message) :: "" :: usage) }
  | .ok request =>
    match ← ((perform disk request).run).run "" with
    | (.ok (), out) => return { code := 0, out }
    | (.error failure, out) => return { code := 1, out, err := failure.message ++ "\n" }

end Bindery.Command
