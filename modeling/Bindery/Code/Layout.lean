import Bindery.Text.Blank

/-!
# Layout of code

Code is written in lines at a level of indentation. Signatures, lists, dictionaries and
calls stand on one line where they fit in `lineLength` and are spread over several lines
otherwise. A layout is a list of commands, chosen for the level at which it starts.

Widths add up the characters of the elements but the UTF-8 bytes of what stands around them.
-/

namespace Bindery.Code

def lineLength : Nat := 88

def indentWidth : Nat := 4

inductive Command where
  | line (text : String)
  | indent
  | dedent
  deriving DecidableEq

structure Writer where
  text : String := ""
  level : Nat := 0

namespace Writer

/-- A line at the current level; an empty line carries no indentation. -/
def writeLine (w : Writer) (line : String) : Writer :=
  let start := if line.isEmpty then "" else Text.repeated (indentWidth * w.level) ' '
  { w with text := w.text ++ start ++ line ++ "\n" }

def exec (w : Writer) : Command → Writer
  | .line text => w.writeLine text
  | .indent => { w with level := w.level + 1 }
  | .dedent => { w with level := w.level - 1 }

def execAll (w : Writer) (commands : List Command) : Writer := commands.foldl exec w

def indentation (w : Writer) : Nat := indentWidth * w.level

end Writer

def elementsWidth (elements : List String) : Nat :=
  elements.foldl (fun width element => width + element.length) 0

def separatorsWidth (separator : String) (elements : List String) : Nat :=
  separator.utf8ByteSize * (elements.length - 1)

def listWidth (elements : List String) : Nat :=
  elementsWidth elements + separatorsWidth ", " elements

def commaList (elements : List String) : String := String.intercalate ", " elements

def fits (level : Nat) (before : String) (elements : List String) (behind : String)
    (extra : Nat) : Bool :=
  lineLength > indentWidth * level + before.utf8ByteSize + listWidth elements +
    behind.utf8ByteSize + extra

inductive SignatureKind where
  | type
  | function
  deriving DecidableEq

def SignatureKind.word : SignatureKind → String
  | .type => "class"
  | .function => "def"

structure Signature where
  kind : SignatureKind
  name : String
  params : List String := []
  returns : Option String := none
  comment : Option String := none

/-- Whether a parameter ends in a comment, which must end its line. -/
def hasComment (param : String) : Bool :=
  match Text.breakOn? "#" param with
  | some (_, comment) => comment.toList.any (!Text.isBlank ·)
  | none => false

def withComma (param : String) : String :=
  match Text.breakOn? " # " param with
  | some (before, _) =>
    let code := Text.trimEnd before
    code ++ "," ++ (Text.after? code param).getD ""
  | none => param ++ ","

namespace Signature

def opening (s : Signature) : String := s.kind.word ++ " " ++ s.name

def result (s : Signature) : String :=
  match s.returns with
  | some type => " -> " ++ type
  | none => ""

def trailer (s : Signature) : String :=
  match s.comment with
  | some comment => "  # " ++ comment
  | none => ""

def fitsOneLine (s : Signature) (level : Nat) : Bool :=
  !s.params.any hasComment && fits level s.opening s.params s.result 2

def oneLine (s : Signature) : String :=
  s.opening ++ "(" ++ commaList s.params ++ ")" ++ s.result ++ ":" ++ s.trailer

def commands (s : Signature) (level : Nat) : List Command :=
  if s.params.isEmpty then
    let parens := if s.returns.isSome then "()" else ""
    [.line (s.opening ++ parens ++ s.result ++ ":"), .indent]
  else if s.fitsOneLine level then [.line s.oneLine, .indent]
  else
    [.line (s.opening ++ "("), .indent] ++ s.params.map (fun p => .line (withComma p)) ++
      [.dedent, .line (")" ++ s.result ++ ":" ++ s.trailer), .indent]

end Signature

def onOwnLines (elements : List String) : List Command := elements.map fun e => .line (e ++ ",")

/-- Elements between two texts. `around` is set around them when they take more than one
line. -/
structure Listing where
  before : String
  elements : List String
  behind : String
  around : String × String := ("", "")

namespace Listing

def oneLine (l : Listing) : String := l.before ++ commaList l.elements ++ l.behind

def body (l : Listing) (level : Nat) : List Command :=
  match l.elements with
  | [only] => [.line only]
  | elements =>
    if fits (level + 1) "" elements "" 0 then [.line (commaList elements)]
    else onOwnLines elements

def commands (l : Listing) (level : Nat) : List Command :=
  if l.elements.isEmpty then [.line (l.before ++ l.behind)]
  else if fits level l.before l.elements l.behind 0 then [.line l.oneLine]
  else
    [.line (l.before ++ l.around.1), .indent] ++ l.body level ++
      [.dedent, .line (l.around.2 ++ l.behind)]

end Listing

structure Dictionary where
  variable_ : String
  entries : List String
  trailing : String := ""
  compact : Bool := false

namespace Dictionary

def before (d : Dictionary) : String :=
  let space := if d.compact then "" else " "
  d.variable_ ++ space ++ "=" ++ space ++ "\x7b"

def behind (d : Dictionary) : String := "\x7d" ++ d.trailing

def oneLine (d : Dictionary) : String := d.before ++ commaList d.entries ++ d.behind

def commands (d : Dictionary) (level : Nat) : List Command :=
  if d.entries.isEmpty then [.line (d.before ++ d.behind)]
  else if d.compact && fits level d.before d.entries d.behind 0 then [.line d.oneLine]
  else [.line d.before, .indent] ++ onOwnLines d.entries ++ [.dedent, .line d.behind]

end Dictionary

structure Call where
  variable_ : String
  function : String
  args : List String

namespace Call

def before (c : Call) : String := c.variable_ ++ " = " ++ c.function ++ "("

def oneLine (c : Call) : String := c.before ++ commaList c.args ++ ")"

def body (c : Call) (level : Nat) : List Command :=
  if fits (level + 1) "" c.args "" 0 then [.line (commaList c.args)] else onOwnLines c.args

def commands (c : Call) (level : Nat) : List Command :=
  if c.args.isEmpty then [.line (c.before ++ ")")]
  else if fits level c.before c.args ")" 0 then [.line c.oneLine]
  else [.line c.before, .indent] ++ c.body level ++ [.dedent, .line ")"]

end Call

end Bindery.Code
