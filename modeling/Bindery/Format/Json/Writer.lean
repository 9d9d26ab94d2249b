import Bindery.Format.Json
import Bindery.Text.Quoted

/-!
# Writing JSON text

`compact` writes a value on one line without blanks, and `pretty` writes every item
and field on a line of its own, indented by two blanks a level.
-/

namespace Bindery.Json

def brace (inner : String) : String := "\x7b" ++ inner ++ "\x7d"

def bracket (inner : String) : String := "[" ++ inner ++ "]"

mutual

def compact : Json → String
  | .null => "null"
  | .bool true => "true"
  | .bool false => "false"
  | .number literal => literal
  | .string text => Text.quote text
  | .array items => bracket (String.intercalate "," (compactItems items))
  | .object fields => brace (String.intercalate "," (compactFields fields))
  | .unreadable => "null"

def compactItems : List Json → List String
  | [] => []
  | item :: rest => compact item :: compactItems rest

def compactFields : List (String × Json) → List String
  | [] => []
  | (key, value) :: rest => (Text.quote key ++ ":" ++ compact value) :: compactFields rest

end

def newline (level : Nat) : String := "\n" ++ "".pushn ' ' (2 * level)

def spread (level : Nat) (parts : List String) : String :=
  newline (level + 1) ++ String.intercalate ("," ++ newline (level + 1)) parts ++ newline level

mutual

def prettyAt (level : Nat) : Json → String
  | .array [] => "[]"
  | .array items => bracket (spread level (prettyItems (level + 1) items))
  | .object [] => "\x7b\x7d"
  | .object fields => brace (spread level (prettyFields (level + 1) fields))
  | other => compact other

def prettyItems (level : Nat) : List Json → List String
  | [] => []
  | item :: rest => prettyAt level item :: prettyItems level rest

def prettyFields (level : Nat) : List (String × Json) → List String
  | [] => []
  | (key, value) :: rest =>
    (Text.quote key ++ ": " ++ prettyAt level value) :: prettyFields level rest

end

def pretty (value : Json) : String := prettyAt 0 value

end Bindery.Json
