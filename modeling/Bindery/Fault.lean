/-!
# Faults

Everything that can go wrong, as causes. `Fault.message` is the wording of a fault and
`Fault.category` tells which part of a run it belongs to.
-/

namespace Bindery

inductive FileFault where
  | notFound
  | exists
  | notDirectory
  | isDirectory
  | nameTooLong
  | zeroInName
  | other (text : String)
  deriving DecidableEq

def FileFault.message : FileFault → String
  | .notFound => "No such file or directory (os error 2)"
  | .exists => "File exists (os error 17)"
  | .notDirectory => "Not a directory (os error 20)"
  | .isDirectory => "Is a directory (os error 21)"
  | .nameTooLong => "File name too long (os error 36)"
  | .zeroInName => "file name contained an unexpected NUL byte"
  | .other text => text

inductive ConfigFault where
  | unknownTarget (name : String)
  | unmatchedOverrides (assembly : String)
  | foreignSubmodule (fqn assembly : String)
  | packageNotNested (fqn package root : String)
  | noPythonTarget (assembly : String)
  | notInClosure (assembly : String)
  | dependencyWithoutTarget (name : String)
  | noOutputDirectory
  deriving DecidableEq

def quoted (text : String) : String := "\"" ++ text ++ "\""

def ConfigFault.message : ConfigFault → String
  | .unknownTarget name => "Unknown target " ++ quoted name
  | .unmatchedOverrides assembly =>
    "Module overrides for " ++ quoted assembly ++
      " match neither the assembly nor its dependency closure"
  | .foreignSubmodule fqn assembly =>
    "Submodule " ++ quoted fqn ++ " does not belong to assembly " ++ quoted assembly
  | .packageNotNested fqn package root =>
    "Submodule " ++ quoted fqn ++ " is mapped to Python sub-package " ++ quoted package ++
      " which isn't nested under " ++ quoted root ++ "!"
  | .noPythonTarget assembly =>
    "No Python target was configured in assembly " ++ quoted assembly
  | .notInClosure assembly =>
    "Unable to find configuration for assembly " ++ quoted assembly ++ " in dependency closure"
  | .dependencyWithoutTarget name =>
    "No Python target was configured for the dependency " ++ quoted name ++ "."
  | .noOutputDirectory => "No output directory configured"

inductive InternalFault where
  | badNesting (fqn parent : String)
  | baseNotClass (base fqn : String)
  | symbolMissing (fqn : String)
  | symbolKind (fqn kind : String)
  | levelNotFound (base fqn : String)
  | notModule (fqn : String)
  | moduleNotType (fqn : String)
  deriving DecidableEq

def InternalFault.message : InternalFault → String
  | .badNesting fqn parent => "Type " ++ fqn ++ " cannot be nested in " ++ parent
  | .baseNotClass base fqn => "Base " ++ base ++ " of class " ++ fqn ++ " is not a class"
  | .symbolMissing fqn => "Symbol " ++ fqn ++ " does not exist"
  | .symbolKind fqn kind => "Symbol " ++ fqn ++ " is not of type " ++ kind
  | .levelNotFound base fqn =>
    "Could not find parent of " ++ base ++ " at the level of " ++ fqn
  | .notModule fqn => fqn ++ " is not a module"
  | .moduleNotType fqn => "Module " ++ fqn ++ " is not a type"

inductive Fault where
  | config (cause : ConfigFault)
  | configSyntax
  | unknownType (fqn : String)
  | symbolCollision (fqn : String)
  | ambiguousName (name : String)
  | allDeprecated (name : String)
  | circular (leftover : List String)
  | aliasCollision (name first second : String)
  | internal (cause : InternalFault)
  | io (cause : FileFault)
  | malformed
  | brokenName (fqn : String)
  deriving DecidableEq

namespace Fault

inductive Category where
  | configuration
  | resolution
  | internal
  | io
  deriving DecidableEq

def Category.word : Category → String
  | .configuration => "configuration"
  | .resolution => "resolution"
  | .internal => "internal"
  | .io => "io"

def category : Fault → Category
  | .config _ => .configuration
  | .configSyntax => .configuration
  | .unknownType _ => .resolution
  | .symbolCollision _ => .resolution
  | .ambiguousName _ => .resolution
  | .allDeprecated _ => .resolution
  | .circular _ => .resolution
  | .aliasCollision _ _ _ => .resolution
  | .internal _ => .internal
  | .io _ => .io
  | .malformed => .io
  | .brokenName _ => .internal

def message : Fault → String
  | .config cause => "Configuration error: " ++ cause.message
  | .configSyntax => "Configuration parse error"
  | .unknownType fqn => "Could not locate type: " ++ quoted fqn
  | .symbolCollision fqn =>
    "Symbol collision: " ++ quoted fqn ++ " is declared more than once after normalization"
  | .ambiguousName name =>
    "Multiple non-deprecated members which map to the Python name " ++ quoted name
  | .allDeprecated name =>
    "Multiple members which map to the Python name " ++ quoted name ++
      ", but all of them are deprecated"
  | .circular leftover =>
    "Could not sort members (circular dependency?). Leftover: " ++
      String.intercalate ", " leftover
  | .aliasCollision name first second =>
    "Alias " ++ quoted name ++ " is bound to both " ++ quoted first ++ " and " ++ quoted second
  | .internal cause => "Internal error: " ++ cause.message
  | .io cause => "IO error: " ++ cause.message
  | .malformed => "Serialization error"
  | .brokenName fqn => "Internal error: " ++ fqn ++ " does not extend its module"

end Fault

abbrev Outcome := Except Fault

end Bindery
