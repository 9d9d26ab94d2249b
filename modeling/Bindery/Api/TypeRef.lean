import Bindery.Format.Json

/-!
# Type references

A type reference is what an assembly says about the type of a value: a primitive, a
collection, a union or the name of a declared type. In JSON it is the first of these
four alternatives that can be read from an object, and other fields are skipped.
-/

namespace Bindery.Api

inductive Primitive where
  | boolean
  | date
  | number
  | string
  | json
  | any
  deriving DecidableEq

namespace Primitive

def word : Primitive → String
  | boolean => "boolean"
  | date => "date"
  | number => "number"
  | string => "string"
  | json => "json"
  | any => "any"

def ofWord? : String → Option Primitive
  | "boolean" => some boolean
  | "date" => some date
  | "number" => some number
  | "string" => some string
  | "json" => some json
  | "any" => some any
  | _ => none

theorem ofWord?_word (p : Primitive) : ofWord? p.word = some p := by
  cases p <;> rfl

end Primitive

inductive CollectionKind where
  | array
  | map
  deriving DecidableEq

namespace CollectionKind

def word : CollectionKind → String
  | array => "array"
  | map => "map"

def ofWord? : String → Option CollectionKind
  | "array" => some array
  | "map" => some map
  | _ => none

theorem ofWord?_word (k : CollectionKind) : ofWord? k.word = some k := by
  cases k <;> rfl

end CollectionKind

inductive TypeRef where
  | primitive (primitive : Primitive)
  | collection (kind : CollectionKind) (element : TypeRef)
  | union (options : List TypeRef)
  | named (fqn : String)
  deriving Inhabited

namespace TypeRef

def fqn? : TypeRef → Option String
  | .named fqn => some fqn
  | _ => none

mutual

def toJson : TypeRef → Json
  | .primitive p => .object [("primitive", .string p.word)]
  | .collection kind element =>
    .object [("collection",
      .object [("kind", .string kind.word), ("elementtype", toJson element)])]
  | .union options => .object [("union", .object [("types", .array (toJsons options))])]
  | .named fqn => .object [("fqn", .string fqn)]

def toJsons : List TypeRef → List Json
  | [] => []
  | option :: rest => toJson option :: toJsons rest

end

def readPrimitive (fields : Json.Fields) : Option TypeRef := do
  let word ← Json.required "primitive" Json.asWord? fields
  return .primitive (← Primitive.ofWord? word)

def readCollection (read : Json → Option TypeRef) (fields : Json.Fields) : Option TypeRef := do
  let body ← Json.required "collection" Json.asFields? fields
  let word ← Json.required "kind" Json.asWord? body
  let kind ← CollectionKind.ofWord? word
  return .collection kind (← Json.required "elementtype" read body)

def readUnion (read : Json → Option TypeRef) (fields : Json.Fields) : Option TypeRef := do
  let body ← Json.required "union" Json.asFields? fields
  return .union (← Json.required "types" (Json.asList? read) body)

def readNamed (fields : Json.Fields) : Option TypeRef := do
  return .named (← Json.required "fqn" Json.asString? fields)

def read : Nat → Json → Option TypeRef
  | 0, _ => none
  | fuel + 1, value => do
    let fields ← value.asFields?
    readPrimitive fields <|> readCollection (read fuel) fields <|>
      readUnion (read fuel) fields <|> readNamed fields

def ofJson? (value : Json) : Option TypeRef := read (value.depth + 1) value

end TypeRef

end Bindery.Api
