import Bindery.Binding.Style

/-!
# Methods

A method passes its arguments to the runtime. The fields of a lifted struct are taken as
keyword arguments, and the body puts the struct together again.
-/

namespace Bindery.Binding

open Api

inductive Param where
  | keywordsFollow
  | plain (name : String) (type : Spelled) (isOptional : Bool)
  | rest (name : String) (type : Spelled)

namespace Param

def text : Param → String
  | .keywordsFollow => "*"
  | .plain name type isOptional => name ++ ": " ++ type.text ++ defaultValue isOptional
  | .rest name type => "*" ++ name ++ ": " ++ type.text

def name? : Param → Option String
  | .keywordsFollow => none
  | .plain name _ _ => some name
  | .rest name _ => some name

def spelled? : Param → Option Spelled
  | .keywordsFollow => none
  | .plain _ type _ => some type
  | .rest _ type => some type

def label (param : Param) : String :=
  String.ofList (Text.trimChars (param.text.toList.takeWhile (· ≠ ':')))

end Param

/-- The names that the fields which a lifted struct declares itself take. -/
def ownFieldNames (c : Catalog) : Option String → Outcome (List String)
  | none => .ok []
  | some lifted => do
    return (← c.struct lifted).properties.map fun p => Identifier.parameter p.name []

def argumentParam (ctx : Context) (taken : List String) (argument : Argument) :
    Outcome Param := do
  return .plain (Identifier.parameter argument.name taken)
    (← spell ctx ctx.parameter argument.type) argument.type.isOptional

def keywordParam (ctx : Context) (field : Field) : Outcome Param := do
  return .plain (Identifier.parameter field.name [])
    (← spell ctx ctx.parameter field.type) field.type.isOptional

structure MethodHead where
  returns : Spelled
  taken : List String
  params : List Param
  fields : List Field := []

def keywordParams (ctx : Context) (fields : List Field) : Outcome (List Param) := do
  let params ← fields.mapM (keywordParam ctx)
  return if params.isEmpty then [] else .keywordsFollow :: params

def restParam (ctx : Context) (argument : Argument) : Outcome Param := do
  return .rest (Identifier.parameter argument.name [])
    (← spell ctx ctx.scope argument.type.required)

def methodHead (ctx : Context) (method : MethodMember) : Outcome MethodHead := do
  let returns ← spell ctx ctx.scope method.returns
  let taken ← ownFieldNames ctx.model.toCatalog method.lifted
  let plain ← method.arguments.mapM (argumentParam ctx taken)
  match method.lifted, method.arguments.getLast? with
  | some lifted, _ =>
    let fields ← ctx.model.liftedFields lifted
    return { returns, taken, params := plain.dropLast ++ (← keywordParams ctx fields), fields }
  | none, some last =>
    if last.variadic then
      return { returns, taken, params := plain.dropLast ++ [← restParam ctx last] }
    else return { returns, taken, params := plain }
  | none, none => return { returns, taken, params := plain }

namespace MethodHead

def texts (head : MethodHead) : List String := head.params.map Param.text

def receiver (head : MethodHead) (kind : MethodKind) : String :=
  Identifier.uniquify kind.receiver (head.params.map Param.label)

def names (head : MethodHead) (kind : MethodKind) : List String :=
  head.receiver kind :: head.params.filterMap Param.name?

def spelled (head : MethodHead) : List Spelled :=
  head.returns :: head.params.filterMap Param.spelled?

def signature (head : MethodHead) (method : MethodMember) : Code.Signature :=
  { kind := .function
    name := method.pythonName
    params := head.receiver method.kind :: head.texts
    returns := some head.returns.text }

end MethodHead

def methodDocs (method : MethodMember) (fields : List Field) : List DocArgument :=
  let positional :=
    if method.lifted.isSome then method.arguments.dropLast else method.arguments
  positional.map (fun a => { name := a.name, docs := a.docs }) ++
    fields.map fun f => { name := f.name, docs := f.docs }

def rebuildStruct (ctx : Context) (method : MethodMember) (head : MethodHead) :
    Outcome Script :=
  match method.lifted, method.arguments.getLast? with
  | some lifted, some last => do
    let struct ← spell ctx ctx.evaluated (.named lifted)
    return [struct.step,
      .call {
        variable_ := Identifier.parameter last.name head.taken
        function := struct.text
        args := head.fields.map fun f => f.pythonName ++ "=" ++ f.pythonName },
      blank]
  | _, _ => .ok []

def runtimeCall (method : MethodMember) (head : MethodHead) : String :=
  let receiver := head.receiver method.kind
  let subject :=
    (if method.kind = .initializer then [receiver ++ ".__class__"] else []) ++ [receiver] ++
      (method.name?.map fun name => "\"" ++ name ++ "\"").toList
  let values := method.arguments.map fun a =>
    (if a.variadic then "*" else "") ++ Identifier.parameter a.name head.taken
  "jsii." ++ method.kind.runtimeCall ++ "(" ++ Code.commaList subject ++ ", [" ++
    Code.commaList values ++ "])"

def callLine (method : MethodMember) (head : MethodHead) : Code.Step Mark :=
  if method.kind = .initializer then line (runtimeCall method head)
  else line ("return typing.cast(" ++ head.returns.text ++ ", " ++ runtimeCall method head ++ ")")

def methodBody (ctx : Context) (method : MethodMember) (head : MethodHead) :
    Outcome Script := do
  let checks := typeChecks ctx head.texts (method.parent ++ "#" ++ method.pythonName)
  return checks ++ (← rebuildStruct ctx method head) ++ [callLine method head]

def methodScript (ctx : Context) (style : Style) (method : MethodMember) : Outcome Script := do
  let head ← methodHead ctx method
  let body ←
    if style.hasBody (method.kind = .interface) method.isAbstract then
      methodBody ctx method head
    else .ok noBody
  return (method.name?.map memberLine).toList ++
    (method.kind.decorator?.map fun d => line ("@" ++ d)).toList ++
    abstractLine style method.isAbstract ++ mentions head.spelled ++
    [.signature (head.signature method)] ++
    docstring method.docs (some (methodDocs method head.fields)) false ++ body ++ [.dedent]

end Bindery.Binding
