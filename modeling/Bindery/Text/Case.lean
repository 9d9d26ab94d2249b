import Bindery.Text.CaseTable

/-!
# Letter case

Full case mappings of characters and texts. ASCII is decided by its own rules and
all else by the tables. A capital sigma that ends a word becomes the final sigma when
a whole text is lowered, and the plain one when a character is lowered by itself.
-/

namespace Bindery.Text

def isAscii (c : Char) : Bool := c.toNat < 0x80

def inRuns (runs : List CaseTable.Run) (c : Char) : Bool :=
  runs.any fun r => r.holds c.toNat

def isUpper (c : Char) : Bool :=
  if isAscii c then c.isUpper else inRuns CaseTable.uppercase c

def isLower (c : Char) : Bool :=
  if isAscii c then c.isLower else inRuns CaseTable.lowercase c

def isCased (c : Char) : Bool :=
  if isAscii c then c.isAlpha else inRuns CaseTable.cased c

def isCaseIgnorable (c : Char) : Bool :=
  if isAscii c then c ∈ ['\'', '.', ':', '^', '\x60']
  else inRuns CaseTable.caseIgnorable c

/-- The mapping of one character: several characters, a shifted one, or itself. -/
def mapChar (specials : List (Nat × List Nat)) (shifts : List CaseTable.Shift) (c : Char) :
    List Char :=
  match specials.find? (·.1 == c.toNat) with
  | some (_, image) => image.map Char.ofNat
  | none =>
    match shifts.find? (·.run.holds c.toNat) with
    | some s => [Char.ofNat ((c.toNat : Int) + s.distance).toNat]
    | none => [c]

def upperChar (c : Char) : List Char :=
  if isAscii c then [c.toUpper] else mapChar CaseTable.upperSpecials CaseTable.upperShifts c

def lowerChar (c : Char) : List Char :=
  if isAscii c then [c.toLower] else mapChar CaseTable.lowerSpecials CaseTable.lowerShifts c

def upperChars (text : List Char) : List Char := text.flatMap upperChar

def meetsCased (text : List Char) : Bool :=
  match text.dropWhile isCaseIgnorable with
  | c :: _ => isCased c
  | [] => false

/-- Lowers `text`, where `before` is what precedes it, nearest character first. -/
def lowerFrom (before : List Char) : List Char → List Char
  | [] => []
  | c :: rest =>
    let image :=
      if c = 'Σ' then (if meetsCased before && !meetsCased rest then ['ς'] else ['σ'])
      else lowerChar c
    image ++ lowerFrom (c :: before) rest

def lowerChars (text : List Char) : List Char := lowerFrom [] text

def upper (text : String) : String := String.ofList (upperChars text.toList)

def lower (text : String) : String := String.ofList (lowerChars text.toList)

end Bindery.Text
