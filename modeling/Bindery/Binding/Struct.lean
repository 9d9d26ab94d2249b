import Bindery.Binding.Style

/-!
# Structs

A struct is a class over a dictionary of values. Its constructor takes all fields,
inherited ones included, as keyword arguments, and turns dictionaries that are given for
structs into these structs.
-/

namespace Bindery.Binding

/-- A field with its type as a parameter, as a result and, for a struct, as the class that
is called to build it. -/
structure StructField where
  field : Field
  parameter : Spelled
  coercion? : Option Spelled
  result : Spelled

namespace StructField

def name (f : StructField) : String := f.field.pythonName

def isOptional (f : StructField) : Bool := f.field.type.isOptional

def paramText (f : StructField) : String :=
  f.name ++ ": " ++ f.parameter.text ++ defaultValue f.isOptional

end StructField

def coercionOf (ctx : Context) (field : Field) : Outcome (Option Spelled) :=
  match field.type.named? with
  | none => .ok none
  | some fqn =>
    if ctx.model.isStruct fqn then do
      return some (← spell ctx ctx.evaluated field.type.required)
    else .ok none

def structFields (ctx : Context) (fields : List Field) : Outcome (List StructField) := do
  let parameters ← fields.mapM fun f => spell ctx ctx.parameter f.type
  let coercions ← fields.mapM (coercionOf ctx)
  let results ← fields.mapM fun f => spell ctx ctx.scope f.type
  return (fields.zip (parameters.zip (coercions.zip results))).map
    fun (field, parameter, coercion?, result) => { field, parameter, coercion?, result }

def mappingEntry (field : Field) : String :=
  Text.quote field.pythonName ++ ": " ++ Text.quote field.name

def dataTypeScript (fqn : String) (bases : List String) (fields : List Field) : Script :=
  [.indent "@jsii.data_type(",
    line ("jsii_type=" ++ Text.quote fqn ++ ","),
    .listing { before := "jsii_struct_bases=[", elements := bases, behind := "]," },
    .dictionary {
      variable_ := "name_mapping"
      entries := fields.map mappingEntry
      trailing := ","
      compact := true },
    .unindent ")"]

def coercionScript (f : StructField) : Script :=
  match f.coercion? with
  | none => []
  | some struct =>
    [.block ("if isinstance(" ++ f.name ++ ", dict)"),
      struct.step,
      line (f.name ++ " = " ++ struct.text ++ "(**" ++ f.name ++ ")"),
      .dedent]

def requiredEntries (fields : List StructField) : List String :=
  (fields.filter (!·.isOptional)).map fun f => Text.quote f.name ++ ": " ++ f.name

def optionalScript (receiver : String) (f : StructField) : Script :=
  [.block ("if " ++ f.name ++ " is not None"),
    line (receiver ++ "._values[\"" ++ f.name ++ "\"] = " ++ f.name),
    .dedent]

def constructorScript (ctx : Context) (d : Declaration) (fields : List StructField) : Script :=
  let receiver := Identifier.uniquify "self" (fields.map (·.name))
  let keywords := if fields.isEmpty then [] else "*" :: fields.map (·.paramText)
  let arguments := fields.map fun f => { name := f.name, docs := f.field.docs : DocArgument }
  mentions (fields.map (·.parameter)) ++
    [.signature {
      kind := .function, name := "__init__", params := receiver :: keywords, returns := some "None" }] ++
    docstring d.docs (some arguments) false ++
    fields.flatMap coercionScript ++
    typeChecks { ctx with keywords := true } keywords (d.fqn ++ "#__init__") ++
    [.dictionary {
      variable_ := receiver ++ "._values: typing.Dict[builtins.str, typing.Any]"
      entries := requiredEntries fields }] ++
    (fields.filter (·.isOptional)).flatMap (optionalScript receiver) ++ [.dedent]

def fieldGetterScript (f : StructField) : Script :=
  let presence :=
    if f.isOptional then []
    else [line ("assert result is not None, \"Required property '" ++ f.name ++ "' is missing\"")]
  [line "@builtins.property",
    f.result.step,
    .signature {
      kind := .function, name := f.name, params := ["self"], returns := some f.result.text }] ++
    docstring f.field.docs none false ++
    [line ("result = self._values.get(" ++ Text.quote f.name ++ ")")] ++ presence ++
    [line ("return typing.cast(" ++ f.result.text ++ ", result)"), .dedent]

def specialMethods (name : String) : Script :=
  [blank,
    .block "def __eq__(self, rhs: typing.Any) -> builtins.bool",
    line "return isinstance(rhs, self.__class__) and rhs._values == self._values",
    .dedent,
    blank,
    .block "def __ne__(self, rhs: typing.Any) -> builtins.bool",
    line "return not (rhs == self)",
    .dedent,
    blank,
    .block "def __repr__(self) -> str",
    .indent ("return \"" ++ name ++ "(%s)\" % \", \".join("),
    line "k + \"=\" + repr(v) for k, v in self._values.items()",
    .unindent ")",
    .dedent]

def structScript (ctx : Context) (d : Declaration) : Outcome Script := do
  let ctx := ctx.inside d.fqn
  let fields ← ctx.model.fields d.fqn
  let bases ← spellNames ctx d.bases
  let spelled ← structFields ctx fields
  return mentions bases ++ dataTypeScript d.fqn (texts bases) fields ++
    [.signature { kind := .type, name := d.name, params := texts bases }] ++
    constructorScript ctx d spelled ++
    spelled.flatMap (fun f => blank :: fieldGetterScript f) ++
    specialMethods d.name ++ [.dedent]

end Bindery.Binding
