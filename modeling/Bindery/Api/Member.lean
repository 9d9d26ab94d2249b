import Bindery.Api.Docs
import Bindery.Api.TypeRef

/-!
# Members

Parameters, methods, properties, initializers and enumeration values as an assembly
lists them, with the JSON form of each. A flag that is written only when it is set
and one that is always written are both read as false when absent.
-/

namespace Bindery.Api

def docsField (docs : Option Docs) : Json.Fields :=
  match docs with
  | some docs => [("docs", docs.toJson)]
  | none => []

def readDocs? (fields : Json.Fields) : Option (Option Docs) :=
  Json.optional "docs" Docs.ofTypeJson? fields

def flagField (key : String) (flag : Bool) : Json.Fields :=
  if flag then [(key, .bool true)] else []

def readFlag? (key : String) (fields : Json.Fields) : Option Bool :=
  Json.defaulted key Json.asBool? false fields

def listField (key : String) (items : List Json) : Json.Fields :=
  if items.isEmpty then [] else [(key, .array items)]

def readList? {α : Type} (key : String) (read : Json → Option α) (fields : Json.Fields) :
    Option (List α) :=
  Json.defaulted key (Json.asList? read) [] fields

structure Parameter where
  name : String
  type : TypeRef
  optional : Bool := false
  variadic : Bool := false
  docs : Option Docs := none
  deriving Inhabited

namespace Parameter

def toJson (p : Parameter) : Json :=
  .object <|
    [("name", .string p.name), ("type", p.type.toJson)] ++
    flagField "optional" p.optional ++ flagField "variadic" p.variadic ++ docsField p.docs

def ofJson? (value : Json) : Option Parameter := do
  let fields ← value.asFields?
  return {
    name := ← Json.required "name" Json.asString? fields
    type := ← Json.required "type" TypeRef.ofJson? fields
    optional := ← readFlag? "optional" fields
    variadic := ← readFlag? "variadic" fields
    docs := ← readDocs? fields }

end Parameter

structure Returns where
  type : TypeRef
  optional : Bool := false
  deriving Inhabited

namespace Returns

def toJson (r : Returns) : Json :=
  .object ([("type", r.type.toJson)] ++ flagField "optional" r.optional)

def ofJson? (value : Json) : Option Returns := do
  let fields ← value.asFields?
  return {
    type := ← Json.required "type" TypeRef.ofJson? fields
    optional := ← readFlag? "optional" fields }

end Returns

structure Method where
  name : String
  parameters : List Parameter := []
  returns : Option Returns := none
  isStatic : Bool := false
  isAbstract : Bool := false
  isAsync : Bool := false
  isProtected : Bool := false
  docs : Option Docs := none
  deriving Inhabited

namespace Method

def toJson (m : Method) : Json :=
  .object <|
    [("name", .string m.name)] ++
    listField "parameters" (m.parameters.map Parameter.toJson) ++
    (match m.returns with
      | some returns => [("returns", returns.toJson)]
      | none => []) ++
    [("static", .bool m.isStatic), ("abstract", .bool m.isAbstract),
      ("async", .bool m.isAsync), ("protected", .bool m.isProtected)] ++
    docsField m.docs

def ofJson? (value : Json) : Option Method := do
  let fields ← value.asFields?
  return {
    name := ← Json.required "name" Json.asString? fields
    parameters := ← readList? "parameters" Parameter.ofJson? fields
    returns := ← Json.optional "returns" Returns.ofJson? fields
    isStatic := ← readFlag? "static" fields
    isAbstract := ← readFlag? "abstract" fields
    isAsync := ← readFlag? "async" fields
    isProtected := ← readFlag? "protected" fields
    docs := ← readDocs? fields }

end Method

structure Property where
  name : String
  type : TypeRef
  optional : Bool := false
  immutable : Bool := false
  isStatic : Bool := false
  isAbstract : Bool := false
  isConst : Bool := false
  isProtected : Bool := false
  docs : Option Docs := none
  deriving Inhabited

namespace Property

def toJson (p : Property) : Json :=
  .object <|
    [("name", .string p.name), ("type", p.type.toJson)] ++
    flagField "optional" p.optional ++ flagField "immutable" p.immutable ++
    [("static", .bool p.isStatic), ("abstract", .bool p.isAbstract),
      ("const", .bool p.isConst), ("protected", .bool p.isProtected)] ++
    docsField p.docs

def ofJson? (value : Json) : Option Property := do
  let fields ← value.asFields?
  return {
    name := ← Json.required "name" Json.asString? fields
    type := ← Json.required "type" TypeRef.ofJson? fields
    optional := ← readFlag? "optional" fields
    immutable := ← readFlag? "immutable" fields
    isStatic := ← readFlag? "static" fields
    isAbstract := ← readFlag? "abstract" fields
    isConst := ← readFlag? "const" fields
    isProtected := ← readFlag? "protected" fields
    docs := ← readDocs? fields }

end Property

structure Initializer where
  parameters : List Parameter := []
  docs : Option Docs := none
  deriving Inhabited

namespace Initializer

def toJson (i : Initializer) : Json :=
  .object ([("parameters", .array (i.parameters.map Parameter.toJson))] ++ docsField i.docs)

def ofJson? (value : Json) : Option Initializer := do
  let fields ← value.asFields?
  return {
    parameters := ← readList? "parameters" Parameter.ofJson? fields
    docs := ← readDocs? fields }

end Initializer

structure EnumValue where
  name : String
  docs : Option Docs := none
  deriving Inhabited

namespace EnumValue

def toJson (v : EnumValue) : Json := .object ([("name", .string v.name)] ++ docsField v.docs)

def ofJson? (value : Json) : Option EnumValue := do
  let fields ← value.asFields?
  return {
    name := ← Json.required "name" Json.asString? fields
    docs := ← readDocs? fields }

end EnumValue

end Bindery.Api
