import Bindery.Binding.Definition
import Bindery.Binding.Required

/-!
# Modules

The text of a Python module: its documentation, its imports, its types in order, the names
it exports, its child modules, and the stubs that its type checks rely on. The loader is
the module that makes the assembly known to the runtime.
-/

namespace Bindery.Binding

def preamble : Script := [
  line "import abc",
  line "import builtins",
  line "import datetime",
  line "import enum",
  line "import typing",
  blank,
  line "import jsii",
  line "import publication",
  line "import typing_extensions",
  blank,
  line "from typeguard import check_type"]

def sortNames (names : List String) : List String :=
  (SortedMap.ofList (names.map fun name => (name, ()))).keys

def exportScript (names : List String) : Script :=
  let listed :=
    if names.isEmpty then [line "__all__: typing.List[typing.Any] = []"]
    else .indent "__all__ = [" :: (sortNames names).map (fun name => line (name ++ ",")) ++
      [.unindent "]"]
  listed ++ [blank, line "publication.publish()"]

def dependencyLoader (c : Catalog) (name : String) : Outcome String :=
  match Package.rootModule c.assembly name with
  | .ok module => .ok (module ++ "._jsii")
  | .error _ => .error (.config (.dependencyWithoutTarget name))

def sortTexts (texts : List String) : List String := texts.mergeSort fun a b => decide (a ≤ b)

def loaderScript (c : Catalog) : Outcome Script := do
  let loaders ← c.assembly.dependencies.keys.mapM (dependencyLoader c)
  let imports :=
    if loaders.isEmpty then []
    else blank :: (sortTexts loaders).map fun loader => line ("import " ++ loader)
  return preamble ++ imports ++
    [blank,
      .listing {
        before := "__jsii_assembly__ = jsii.JSIIAssembly.load("
        elements := [
          Text.quote c.assembly.name, Text.quote c.assembly.version, "__name__[0:-6]",
          Text.quote c.assembly.tarball]
        behind := ")" },
      blank] ++
    exportScript ["\"__jsii_assembly__\""]

inductive Statement where
  | whole (source : String)
  | partly (source : String) (items : List String)

namespace Statement

def key : Statement → String
  | .whole source => "import " ++ source
  | .partly source _ => "from " ++ source ++ " import"

def isWhole : Statement → Bool
  | .whole _ => true
  | .partly _ _ => false

/-- Imports of whole modules stand first. -/
def le (a b : Statement) : Bool :=
  if a.isWhole = b.isWhole then decide (a.key ≤ b.key) else a.isWhole

def step : Statement → Code.Step Mark
  | .whole source => line ("import " ++ source)
  | .partly source items =>
    .listing {
      before := "from " ++ source ++ " import "
      elements := items
      behind := ""
      around := ("(", ")") }

def ofGroup (source : String) (items : List String) : List Statement :=
  let named := items.filter (· ≠ "")
  (if items.contains "" then [.whole source] else []) ++
    if named.isEmpty then [] else [.partly source named]

end Statement

def importStatements (imports : Imports) : List Statement :=
  (imports.groups.flatMap fun (source, items) => Statement.ofGroup source items).mergeSort
    Statement.le

def importScript (imports : Imports) : Script :=
  let statements := importStatements imports
  if statements.isEmpty then [] else blank :: statements.map Statement.step

def readmeScript (readme : Option String) : Script :=
  match (readme.map Text.trim).filter (· ≠ "") with
  | none => []
  | some text => line docQuotes :: (Text.lines text).map line ++ [line docQuotes]

def moduleDepth (c : Catalog) (module : Declaration) : Nat :=
  match Text.after? c.assembly.name module.fqn with
  | some rest => rest.toList.count '.'
  | none => 0

def loaderPath (c : Catalog) (module : Declaration) : String :=
  Text.repeated (moduleDepth c module + 1) '.' ++ "_jsii"

structure Child where
  relative : String
  name : String

def childOf (module child : Declaration) : Child :=
  let name := Dotted.last child.name
  { relative := (Text.after? (module.name ++ ".") child.name).getD name, name }

def childModules (m : Model) (module : Declaration) : List Child :=
  ((m.children module).mergeSort fun a b => decide (a.name ≤ b.name)).map (childOf module)

def childScript (children : List Child) : Script :=
  if children.isEmpty then []
  else
    [blank,
      line ("# Loading modules to ensure their types are registered with the jsii runtime " ++
        "library")] ++
      children.map fun child => line ("from . import " ++ child.relative)

def topScope (module : Declaration) (written : Script) : Scope :=
  { module := module.fqn, emitted := closed written }

def addType (m : Model) (checks : Bool) (module : Declaration) (written : Script)
    (fqn : String) : Outcome Script := do
  let d ← m.declaration fqn
  let before := written ++ [blank, blank]
  let definition ←
    define (nestingLimit m) { model := m, scope := topScope module before, checks } d
  let through := before ++ definition
  let epilogue ← epilogueScript { model := m, scope := topScope module through, checks } d
  return through ++ epilogue

def typesScript (m : Model) (checks : Bool) (module : Declaration) (members : List Member) :
    Outcome Script :=
  (members.filterMap Member.nested?).foldlM (addType m checks module) []

def exportNames (members : List Member) (children : List Child) : List String :=
  (members.map Member.pythonName ++ children.map (·.name)).map fun name => "\"" ++ name ++ "\""

def moduleScript (m : Model) (checks : Bool) (module : Declaration) : Outcome Script := do
  match module.shape with
  | .module readme =>
    let imports ← moduleImports m module
    let members ← Members.arrange m module.name module.members
    let types ← typesScript m checks module members
    let children := childModules m module
    return readmeScript readme ++ preamble ++
      [blank, line ("from " ++ loaderPath m.toCatalog module ++ " import *")] ++
      importScript imports ++ types ++
      (if members.isEmpty then [] else [blank]) ++ [blank] ++
      exportScript (exportNames members children) ++ childScript children ++
      (stubs types).flatMap Stub.script
  | _ => throw (.internal (.notModule module.fqn))

structure Rendered where
  name : String
  fqn? : Option String
  script : Script

def Rendered.text (r : Rendered) : String := Code.Script.text r.script

def renderAll (m : Model) (checks : Bool) : Outcome (List Rendered) := do
  let name ← m.loader
  let loader : Rendered := { name, fqn? := none, script := ← loaderScript m.toCatalog }
  let modules ← m.modules.mapM fun module => do
    return {
      name := module.name
      fqn? := some module.fqn
      script := ← moduleScript m checks module : Rendered }
  return loader :: modules

end Bindery.Binding
