import Bindery.Api.Member
import Bindery.Name.Dotted

/-!
# Types of an assembly

A type is a class, an interface or an enumeration. An interface that only carries data
is a struct. In JSON the field `kind` tells which of the three an object is.
-/

namespace Bindery.Api

structure Header where
  fqn : String
  assembly : String
  name : String
  enclosing? : Option String := none
  docs : Option Docs := none
  deriving Inhabited

namespace Header

/-- The header that a fully qualified name implies: the first segment is the assembly,
the last one the name, and what lies between them the namespace. -/
def ofFqn (fqn : String) : Header :=
  let segments := Dotted.segments fqn
  let outer := segments.dropLast
  { fqn
    assembly := outer.headD ""
    name := segments.getLastD ""
    enclosing? := if outer.length ≤ 1 then none else some (Dotted.join (outer.drop 1)) }

/-- The fields of a type, of which `own` are those of its kind. -/
def toFields (h : Header) (own : Json.Fields) : Json.Fields :=
  [("fqn", .string h.fqn), ("assembly", .string h.assembly), ("name", .string h.name)] ++
  Docs.textField "namespace" h.enclosing? ++ own ++ docsField h.docs

def ofFields? (fields : Json.Fields) : Option Header := do
  return {
    fqn := ← Json.required "fqn" Json.asString? fields
    assembly := ← Json.required "assembly" Json.asString? fields
    name := ← Json.required "name" Json.asString? fields
    enclosing? := ← Json.optional "namespace" Json.asString? fields
    docs := ← readDocs? fields }

end Header

structure ClassType extends Header where
  base : Option String := none
  interfaces : List String := []
  isAbstract : Bool := false
  initializer : Option Initializer := none
  methods : List Method := []
  properties : List Property := []
  deriving Inhabited

namespace ClassType

def ofFqn (fqn : String) : ClassType := { Header.ofFqn fqn with }

def toFields (c : ClassType) : Json.Fields :=
  c.toHeader.toFields <|
    Docs.textField "base" c.base ++
    listField "interfaces" (c.interfaces.map .string) ++
    [("abstract", .bool c.isAbstract)] ++
    (match c.initializer with
      | some initializer => [("initializer", initializer.toJson)]
      | none => []) ++
    listField "methods" (c.methods.map Method.toJson) ++
    listField "properties" (c.properties.map Property.toJson)

def ofFields? (fields : Json.Fields) : Option ClassType := do
  let header ← Header.ofFields? fields
  return { header with
    base := ← Json.optional "base" Json.asString? fields
    interfaces := ← readList? "interfaces" Json.asString? fields
    isAbstract := ← readFlag? "abstract" fields
    initializer := ← Json.optional "initializer" Initializer.ofJson? fields
    methods := ← readList? "methods" Method.ofJson? fields
    properties := ← readList? "properties" Property.ofJson? fields }

end ClassType

structure InterfaceType extends Header where
  interfaces : List String := []
  isData : Bool := false
  methods : List Method := []
  properties : List Property := []
  deriving Inhabited

namespace InterfaceType

def ofFqn (fqn : String) : InterfaceType := { Header.ofFqn fqn with }

def toFields (i : InterfaceType) : Json.Fields :=
  i.toHeader.toFields <|
    listField "interfaces" (i.interfaces.map .string) ++
    flagField "datatype" i.isData ++
    listField "methods" (i.methods.map Method.toJson) ++
    listField "properties" (i.properties.map Property.toJson)

def ofFields? (fields : Json.Fields) : Option InterfaceType := do
  let header ← Header.ofFields? fields
  return { header with
    interfaces := ← readList? "interfaces" Json.asString? fields
    isData := ← readFlag? "datatype" fields
    methods := ← readList? "methods" Method.ofJson? fields
    properties := ← readList? "properties" Property.ofJson? fields }

end InterfaceType

structure EnumType extends Header where
  values : List EnumValue := []
  deriving Inhabited

namespace EnumType

def ofFqn (fqn : String) (names : List String) : EnumType :=
  { Header.ofFqn fqn with values := names.map fun name => { name } }

def toFields (e : EnumType) : Json.Fields :=
  e.toHeader.toFields [("members", .array (e.values.map EnumValue.toJson))]

def ofFields? (fields : Json.Fields) : Option EnumType := do
  let header ← Header.ofFields? fields
  return { header with values := ← readList? "members" EnumValue.ofJson? fields }

end EnumType

inductive TypeEntry where
  | class (type : ClassType)
  | interface (type : InterfaceType)
  | enum (type : EnumType)
  deriving Inhabited

namespace TypeEntry

def header : TypeEntry → Header
  | .class c => c.toHeader
  | .interface i => i.toHeader
  | .enum e => e.toHeader

def fqn (entry : TypeEntry) : String := entry.header.fqn

def name (entry : TypeEntry) : String := entry.header.name

def docs (entry : TypeEntry) : Option Docs := entry.header.docs

def struct? : TypeEntry → Option InterfaceType
  | .interface i => if i.isData then some i else none
  | _ => none

def isStruct (entry : TypeEntry) : Bool := entry.struct?.isSome

def toJson : TypeEntry → Json
  | .class c => .object (("kind", .string "class") :: c.toFields)
  | .interface i => .object (("kind", .string "interface") :: i.toFields)
  | .enum e => .object (("kind", .string "enum") :: e.toFields)

def ofJson? (value : Json) : Option TypeEntry := do
  let fields ← value.asFields?
  match ← Json.required "kind" Json.asString? fields with
  | "class" => return .class (← ClassType.ofFields? fields)
  | "interface" => return .interface (← InterfaceType.ofFields? fields)
  | "enum" => return .enum (← EnumType.ofFields? fields)
  | _ => none

end TypeEntry

end Bindery.Api
