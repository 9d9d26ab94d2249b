import Bindery.Text.Case
import Bindery.Text.Split

/-!
# Python identifiers

How the names of an assembly are spelled in Python. Names in camel case are turned to
snake case, a reserved word gets an underscore, and a name that is taken gets as many
underscores as it needs.
-/

namespace Bindery.Identifier

def reservedWords : List String := [
  "False", "None", "True", "and", "as", "assert", "async", "await", "break", "class",
  "continue", "def", "del", "elif", "else", "except", "finally", "for", "from", "global",
  "if", "import", "in", "is", "lambda", "nonlocal", "not", "or", "pass", "raise", "return",
  "try", "while", "with", "yield"]

def escape (name : String) : String :=
  if name ∈ reservedWords then name ++ "_" else name

def startsWord (previous c : Char) (next : Option Char) : Bool :=
  Text.isUpper c &&
    (Text.isLower previous || previous.isDigit ||
      (Text.isUpper previous && next.any Text.isLower))

def snakeTail (previous : Char) : List Char → List Char
  | [] => []
  | c :: rest =>
    let lowered := Text.lowerChar c ++ snakeTail c rest
    if startsWord previous c rest.head? then '_' :: lowered else lowered

/-- Snake case of a text without underscores at its ends. A text without lower-case
letters is one word. -/
def snakeCore (core : List Char) : List Char :=
  if Text.upperChars core = core then Text.lowerChars core
  else match core with
    | [] => []
    | c :: rest => Text.lowerChar c ++ snakeTail c rest

/-- Snake case of a text; the underscores at its ends stay as they are. -/
def snakeChars (text : List Char) : List Char :=
  let leading := text.takeWhile (· = '_')
  let inner := text.dropWhile (· = '_')
  let trailing := inner.reverse.takeWhile (· = '_')
  let core := (inner.reverse.dropWhile (· = '_')).reverse
  leading ++ snakeCore core ++ trailing

def snake (name : String) : String := String.ofList (snakeChars name.toList)

/-- Underscores behind `name` until it is not in use. -/
def uniquify (name : String) (inUse : List String) : String :=
  go inUse.length name
where
  go : Nat → String → String
    | 0, name => name
    | n + 1, name => if name ∈ inUse then go n (name ++ "_") else name

def protectedMark (isProtected : Bool) (name : String) : String :=
  if isProtected then "_" ++ name else name

def method (name : String) (isProtected : Bool) : String :=
  protectedMark isProtected (escape (snake name))

def property (name : String) (isConstant isProtected : Bool) : String :=
  let value := escape (snake name)
  protectedMark isProtected (if isConstant then Text.upper value else value)

def parameter (name : String) (inUse : List String) : String :=
  uniquify (escape (snake name)) inUse

end Bindery.Identifier
