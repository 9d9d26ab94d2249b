import Bindery.Api.TypeRef

/-!
# Type expressions

A type expression is the type of a parameter, property or result with its optionality
made part of it, and with `void` for a method that returns nothing.
-/

namespace Bindery

open Api (Primitive CollectionKind TypeRef)

inductive TypeExpr where
  | void
  | primitive (primitive : Primitive)
  | collection (kind : CollectionKind) (element : TypeExpr)
  | union (options : List TypeExpr)
  | optional (inner : TypeExpr)
  | named (fqn : String)
  deriving Inhabited

namespace TypeExpr

mutual

def ofRef : TypeRef → TypeExpr
  | .primitive p => .primitive p
  | .collection kind element => .collection kind (ofRef element)
  | .union options => .union (ofRefs options)
  | .named fqn => .named fqn

def ofRefs : List TypeRef → List TypeExpr
  | [] => []
  | option :: rest => ofRef option :: ofRefs rest

end

def asOptional : TypeExpr → TypeExpr
  | .optional inner => .optional inner
  | other => .optional other

def ofValue (ref : TypeRef) (isOptional : Bool) : TypeExpr :=
  if isOptional then (ofRef ref).asOptional else ofRef ref

def array (element : TypeExpr) : TypeExpr := .collection .array element

def map (element : TypeExpr) : TypeExpr := .collection .map element

def isAny : TypeExpr → Bool
  | .primitive .any => true
  | _ => false

def isOptional : TypeExpr → Bool
  | .optional _ => true
  | _ => false

def required : TypeExpr → TypeExpr
  | .optional inner => inner
  | other => other

def named? (type : TypeExpr) : Option String :=
  match type.required with
  | .named fqn => some fqn
  | _ => none

mutual

def mentions : TypeExpr → List String
  | .void => []
  | .primitive _ => []
  | .collection _ element => mentions element
  | .union options => mentionsOf options
  | .optional inner => mentions inner
  | .named fqn => [fqn]

def mentionsOf : List TypeExpr → List String
  | [] => []
  | option :: rest => mentions option ++ mentionsOf rest

end

def isUnion : TypeExpr → Bool
  | .union _ => true
  | _ => false

def parenthesize (type : TypeExpr) (text : String) : String :=
  if type.isUnion then "(" ++ text ++ ")" else text

mutual

def describe : TypeExpr → String
  | .void => "void"
  | .primitive p => p.word
  | .collection .array element => parenthesize element (describe element) ++ "[]"
  | .collection .map element => "Map<string, " ++ describe element ++ ">"
  | .union options => String.intercalate " | " (describeAll options)
  | .optional inner => parenthesize inner (describe inner) ++ "?"
  | .named fqn => fqn

def describeAll : List TypeExpr → List String
  | [] => []
  | option :: rest => describe option :: describeAll rest

end

mutual

def toJson : TypeExpr → Json
  | .void => .string "Void"
  | .primitive p => .object [("Primitive", .string p.word)]
  | .collection kind element =>
    .object [("Collection",
      .object [("kind", .string kind.word), ("element", toJson element)])]
  | .union options => .object [("Union", .array (toJsons options))]
  | .optional inner => .object [("Optional", toJson inner)]
  | .named fqn => .object [("Named", .string fqn)]

def toJsons : List TypeExpr → List Json
  | [] => []
  | option :: rest => toJson option :: toJsons rest

end

def read : Nat → Json → Option TypeExpr
  | 0, _ => none
  | _ + 1, .string "Void" => some .void
  | _ + 1, .object [("Void", .null)] => some .void
  | _ + 1, .object [("Primitive", word)] =>
    (word.asWord?.bind Primitive.ofWord?).map .primitive
  | fuel + 1, .object [("Collection", body)] => do
    let fields ← body.asFields?
    let word ← Json.required "kind" Json.asWord? fields
    let kind ← CollectionKind.ofWord? word
    return .collection kind (← Json.required "element" (read fuel) fields)
  | fuel + 1, .object [("Union", options)] =>
    (options.asList? (read fuel)).map .union
  | fuel + 1, .object [("Optional", inner)] => (read fuel inner).map .optional
  | _ + 1, .object [("Named", fqn)] => fqn.asString?.map .named
  | _ + 1, _ => none

def ofJson? (value : Json) : Option TypeExpr := read (value.depth + 1) value

end TypeExpr

end Bindery
