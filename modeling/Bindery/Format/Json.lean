/-!
# JSON values

A value keeps the order of the fields of an object and every repetition of a key.
`unreadable` stands for a well-formed piece of text that denotes no value: a string
with half of a surrogate pair, or a number beyond the range of doubles. Such a piece
may be skipped but not read.

The readers below give `none` where a value has the wrong shape. A field that is read
must not be repeated; a field that is not read may be.
-/

namespace Bindery

inductive Json where
  | null
  | bool (value : Bool)
  | number (literal : String)
  | string (text : String)
  | array (items : List Json)
  | object (fields : List (String × Json))
  | unreadable
  deriving Inhabited

namespace Json

abbrev Fields := List (String × Json)

def ofNat (n : Nat) : Json := .number (toString n)

def ofOption (value : Option Json) : Json := value.getD .null

def strings (texts : List String) : Json := .array (texts.map .string)

def asString? : Json → Option String
  | .string text => some text
  | _ => none

def asBool? : Json → Option Bool
  | .bool value => some value
  | _ => none

def asFields? : Json → Option Fields
  | .object fields => some fields
  | _ => none

def asList? {α : Type} (read : Json → Option α) : Json → Option (List α)
  | .array items => items.mapM read
  | _ => none

def asEntries? {α : Type} (read : Json → Option α) : Json → Option (List (String × α))
  | .object fields => fields.mapM fun (key, value) => (read value).map (key, ·)
  | _ => none

/-- A word of a fixed vocabulary, given as a string or as the only key of an object
whose value is null. -/
def asWord? : Json → Option String
  | .string word => some word
  | .object [(word, .null)] => some word
  | _ => none

/-- A word as `asWord?` reads it, or the only key of an object whose value is an empty
object. -/
def asLooseWord? : Json → Option String
  | .object [(word, .object [])] => some word
  | value => value.asWord?

/-- The value of a field: `none` if it is repeated, `some none` if it is absent. -/
def field? (key : String) (fields : Fields) : Option (Option Json) :=
  match fields.filter (·.1 = key) with
  | [] => some none
  | [(_, value)] => some (some value)
  | _ => none

def required {α : Type} (key : String) (read : Json → Option α) (fields : Fields) : Option α :=
  match field? key fields with
  | some (some value) => read value
  | _ => none

def defaulted {α : Type} (key : String) (read : Json → Option α) (default : α)
    (fields : Fields) : Option α :=
  match field? key fields with
  | some (some value) => read value
  | some none => some default
  | none => none

def optional {α : Type} (key : String) (read : Json → Option α) (fields : Fields) :
    Option (Option α) :=
  match field? key fields with
  | some (some .null) => some none
  | some (some value) => (read value).map some
  | some none => some none
  | none => none

mutual

def depth : Json → Nat
  | .array items => depthItems items + 1
  | .object fields => depthFields fields + 1
  | _ => 0

def depthItems : List Json → Nat
  | [] => 0
  | item :: rest => max (depth item) (depthItems rest)

def depthFields : List (String × Json) → Nat
  | [] => 0
  | (_, value) :: rest => max (depth value) (depthFields rest)

end

mutual

def readable : Json → Bool
  | .array items => readableItems items
  | .object fields => readableFields fields
  | .unreadable => false
  | _ => true

def readableItems : List Json → Bool
  | [] => true
  | item :: rest => readable item && readableItems rest

def readableFields : List (String × Json) → Bool
  | [] => true
  | (_, value) :: rest => readable value && readableFields rest

end

end Json

end Bindery
