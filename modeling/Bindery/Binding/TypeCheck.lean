import Bindery.Binding.Mark

/-!
# Runtime type checks

A checked body reads the annotations of a stub with the same parameters. The stubs stand at
the end of the module, where all names in their annotations are defined.
-/

namespace Bindery.Binding

def stubStart : String := "_typecheckingstub__"

/-- The stub of a function; its annotations are not quoted. -/
def stubOf (fqn : String) (params : List String) : Stub :=
  { name := stubStart ++ Text.Digest.hex (stubStart ++ fqn)
    params := params.map (Text.removeChar '"') }

def Stub.hints (stub : Stub) : String := "typing.get_type_hints(" ++ stub.name ++ ")"

def Stub.script (stub : Stub) : Script :=
  [blank,
    .signature { kind := .function, name := stub.name, params := stub.params, returns := some "None" },
    line "\"\"\"Type checking stubs\"\"\"",
    line "pass",
    .dedent]

inductive Checked where
  | keywordsFollow
  | plain (name : String)
  | rest (name : String)

namespace Checked

def ofParam (param : String) : Checked :=
  let name := Text.trimChars (param.toList.takeWhile fun c => c ≠ ':' && c ≠ '=' && c ≠ '#')
  match name with
  | ['*'] => .keywordsFollow
  | '*' :: name => .rest (String.ofList name)
  | name => .plain (String.ofList name)

def name? : Checked → Option String
  | .keywordsFollow => none
  | .plain name => some name
  | .rest name => some name

def checkLine (hints : String) : Checked → Option String
  | .keywordsFollow => none
  | .plain name => some (call name (hints ++ "[\"" ++ name ++ "\"]"))
  | .rest name =>
    let tuple := "typing.Tuple[" ++ hints ++ "[\"" ++ name ++ "\"], ...]"
    some (call name tuple ++ " # pyright: ignore [reportGeneralTypeIssues]")
where
  call (name expected : String) : String :=
    "check_type(argname=\"argument " ++ name ++ "\", value=" ++ name ++
      ", expected_type=" ++ expected ++ ")"

def isKeywordsMark : Checked → Bool
  | .keywordsFollow => true
  | _ => false

end Checked

/-- Checks of the arguments for `params`, the parameters behind the receiver. Arguments
that are given by keyword are checked only on demand. -/
def typeChecks (ctx : Context) (params : List String) (fqn : String) : Script :=
  if !ctx.checks then []
  else
    let all := params.map Checked.ofParam
    let hints := Identifier.uniquify "type_hints" (all.filterMap Checked.name?)
    let inspected := if ctx.keywords then all else all.takeWhile (!·.isKeywordsMark)
    match inspected.filterMap (·.checkLine hints) with
    | [] => []
    | lines =>
      let stub := stubOf fqn params
      [.block "if __debug__", .mark (.stub stub), line (hints ++ " = " ++ stub.hints)] ++
        lines.map line ++ [.dedent]

end Bindery.Binding
