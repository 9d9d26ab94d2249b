import Bindery.Format.Toml
import Bindery.Format.Toml.Moment

/-!
# Reading TOML text

A strict reader of TOML 1.0. A document is read as the pairs above the first header and
the sections below the headers, which are then put together. Recursion is bounded by the
length of the text, of which every second call at least consumes a character.
-/

namespace Bindery.Toml

def isBlank (c : Char) : Bool := c = ' ' || c = '\t'

def skipBlanks (text : List Char) : List Char := text.dropWhile isBlank

def isPlain (c : Char) : Bool := c = '\t' || (' ' ≤ c && c ≠ '\x7f')

def skipComment : List Char → List Char
  | '#' :: rest => rest.dropWhile isPlain
  | text => text

def newline? : List Char → Option (List Char)
  | '\n' :: rest => some rest
  | '\r' :: '\n' :: rest => some rest
  | _ => none

def endLine? (text : List Char) : Option (List Char) :=
  match skipComment (skipBlanks text) with
  | [] => some []
  | rest => newline? rest

def skipLines : Nat → List Char → Option (List Char)
  | 0, text => some text
  | fuel + 1, text =>
    match skipBlanks text with
    | '#' :: rest => do skipLines fuel (← endLine? ('#' :: rest))
    | '\n' :: rest => skipLines fuel rest
    | '\r' :: '\n' :: rest => skipLines fuel rest
    | rest => some rest

def hexDigit? (c : Char) : Option Nat :=
  if '0' ≤ c ∧ c ≤ '9' then some (c.toNat - '0'.toNat)
  else if 'a' ≤ c ∧ c ≤ 'f' then some (c.toNat - 'a'.toNat + 10)
  else if 'A' ≤ c ∧ c ≤ 'F' then some (c.toNat - 'A'.toNat + 10)
  else none

def codePoint? (digits : List Char) : Option Char := do
  let code ← digits.foldlM (fun n c => (hexDigit? c).map (16 * n + ·)) 0
  if code < 0xD800 ∨ (0xDFFF < code ∧ code < 0x110000) then some (Char.ofNat code) else none

def escape? : List Char → Option (Char × List Char)
  | 'b' :: rest => some ('\x08', rest)
  | 't' :: rest => some ('\t', rest)
  | 'n' :: rest => some ('\n', rest)
  | 'f' :: rest => some ('\x0c', rest)
  | 'r' :: rest => some ('\r', rest)
  | '"' :: rest => some ('"', rest)
  | '\\' :: rest => some ('\\', rest)
  | 'u' :: rest =>
    if rest.length < 4 then none
    else (codePoint? (rest.take 4)).map (·, rest.drop 4)
  | 'U' :: rest =>
    if rest.length < 8 then none
    else (codePoint? (rest.take 8)).map (·, rest.drop 8)
  | _ => none

def basicBody : Nat → List Char → Option (List Char × List Char)
  | 0, _ => none
  | fuel + 1, text =>
    match text with
    | [] => none
    | '"' :: rest => some ([], rest)
    | '\\' :: rest => do
      let (c, rest) ← escape? rest
      let (body, rest) ← basicBody fuel rest
      return (c :: body, rest)
    | c :: rest =>
      if isPlain c then do
        let (body, rest) ← basicBody fuel rest
        return (c :: body, rest)
      else none

def literalBody : List Char → Option (List Char × List Char)
  | [] => none
  | '\'' :: rest => some ([], rest)
  | c :: rest =>
    if isPlain c then do
      let (body, rest) ← literalBody rest
      return (c :: body, rest)
    else none

/-- The quotes at the end of a string over several lines: three end it, and up to two more
before them belong to it. -/
def closing? (quote : Char) (text : List Char) : Option (List Char × List Char) :=
  let run := text.takeWhile (· = quote)
  if run.length < 3 then none
  else
    let kept := min (run.length - 3) 2
    some (List.replicate kept quote, text.drop (kept + 3))

def skipFolded : List Char → List Char
  | '\r' :: '\n' :: rest => skipFolded rest
  | c :: rest => if isBlank c || c = '\n' then skipFolded rest else c :: rest
  | [] => []

def folded? (text : List Char) : Option (List Char) :=
  (newline? (skipBlanks text)).map skipFolded

def linesBody (quote : Char) (escapes : Bool) : Nat → List Char → Option (List Char × List Char)
  | 0, _ => none
  | fuel + 1, text =>
    match closing? quote text with
    | some closed => some closed
    | none =>
      match newline? text with
      | some rest => (linesBody quote escapes fuel rest).map fun (body, rest) =>
          ('\n' :: body, rest)
      | none =>
        match text with
        | [] => none
        | c :: rest =>
          if escapes && c = '\\' then
            match folded? rest with
            | some rest => linesBody quote escapes fuel rest
            | none => do
              let (e, rest) ← escape? rest
              let (body, rest) ← linesBody quote escapes fuel rest
              return (e :: body, rest)
          else if isPlain c then do
            let (body, rest) ← linesBody quote escapes fuel rest
            return (c :: body, rest)
          else none

def skipNewline (text : List Char) : List Char := (newline? text).getD text

def string? (text : List Char) : Option (String × List Char) :=
  let body := match text with
    | '"' :: '"' :: '"' :: rest => linesBody '"' true (text.length + 1) (skipNewline rest)
    | '\'' :: '\'' :: '\'' :: rest => linesBody '\'' false (text.length + 1) (skipNewline rest)
    | '"' :: rest => basicBody (text.length + 1) rest
    | '\'' :: rest => literalBody rest
    | _ => none
  body.map fun (chars, rest) => (String.ofList chars, rest)

def isBareChar (c : Char) : Bool := c.isAlphanum || c = '-' || c = '_'

def keyPart? (text : List Char) : Option (String × List Char) :=
  match text with
  | '"' :: rest => (basicBody (text.length + 1) rest).map fun (cs, rest) => (String.ofList cs, rest)
  | '\'' :: rest => (literalBody rest).map fun (cs, rest) => (String.ofList cs, rest)
  | _ =>
    match text.takeWhile isBareChar with
    | [] => none
    | bare => some (String.ofList bare, text.dropWhile isBareChar)

/-- How many parts a key may have, and how deep arrays and inline tables may be nested. -/
def depthLimit : Nat := 79

def keyParts? : Nat → List Char → Option (List String × List Char)
  | 0, _ => none
  | fuel + 1, text => do
    let (part, rest) ← keyPart? (skipBlanks text)
    match skipBlanks rest with
    | '.' :: rest => do
      let (parts, rest) ← keyParts? fuel rest
      return (part :: parts, rest)
    | rest => return ([part], rest)

def key? (text : List Char) : Option (List String × List Char) := do
  let (parts, rest) ← keyParts? text.length text
  if parts.length ≤ depthLimit then some (parts, rest) else none

def digits? (isDigit : Char → Bool) (text : List Char) : Option (List Char × List Char) :=
  let inRun := fun c => isDigit c || c = '_'
  let groups := (text.takeWhile inRun).splitOn '_'
  if groups.all (· ≠ []) then some (groups.flatten, text.dropWhile inRun) else none

def decimal? : List Char → Option (List Char × List Char)
  | '0' :: rest => some (['0'], rest)
  | text => digits? Char.isDigit text

def sign : List Char → Bool × List Char
  | '-' :: rest => (true, rest)
  | '+' :: rest => (false, rest)
  | text => (false, text)

def valueOf (base : Nat) (digits : List Char) : Nat :=
  digits.foldl (fun n c => base * n + (hexDigit? c).getD 0) 0

def fits (isNegative : Bool) (n : Nat) : Bool :=
  if isNegative then n ≤ Nat.pow 2 63 else n < Nat.pow 2 63

def based? (base : Nat) (isDigit : Char → Bool) (text : List Char) : Option (Node × List Char) := do
  let (digits, rest) ← digits? isDigit text
  if fits false (valueOf base digits) then some (.number, rest) else none

def integer? (text : List Char) : Option (Node × List Char) :=
  match text with
  | '0' :: 'x' :: rest => based? 16 (fun c => (hexDigit? c).isSome) rest
  | '0' :: 'o' :: rest => based? 8 (fun c => '0' ≤ c && c ≤ '7') rest
  | '0' :: 'b' :: rest => based? 2 (fun c => c = '0' || c = '1') rest
  | _ => do
    let (isNegative, rest) := sign text
    let (digits, rest) ← decimal? rest
    if fits isNegative (valueOf 10 digits) then some (.number, rest) else none

/-- The exponent behind a number. One that has become larger than any use keeps its first
digits only. -/
def exponent? : List Char → Option (Int × List Char)
  | c :: rest =>
    if c = 'e' || c = 'E' then do
      let (isNegative, rest) := sign rest
      let (digits, rest) ← digits? Char.isDigit rest
      let size : Nat := digits.foldl (fun n c =>
        if n < Nat.pow 2 16 then 10 * n + (c.toNat - '0'.toNat) else n) 0
      return (if isNegative then -size else size, rest)
    else none
  | [] => none

def fraction? : List Char → Option (List Char × List Char)
  | '.' :: rest => digits? Char.isDigit rest
  | _ => none

def scale? (text : List Char) : Option (List Char × Int × List Char) :=
  match exponent? text with
  | some (exponent, rest) => some ([], exponent, rest)
  | none => do
    let (fraction, rest) ← fraction? text
    return (fraction, (exponent? rest).getD (0, rest))

/-- A number that need not be whole. One above all doubles is refused; one below them all
is not. -/
def float? (text : List Char) : Option (Node × List Char) :=
  let (isNegative, unsigned) := sign text
  match unsigned with
  | 'i' :: 'n' :: 'f' :: rest => some (.number, rest)
  | 'n' :: 'a' :: 'n' :: rest => some (.number, rest)
  | _ => do
    let (whole, rest) ← decimal? unsigned
    let (fraction, exponent, rest) ← scale? rest
    if isNegative || Decimal.isFinite (whole ++ fraction) (exponent - fraction.length) then
      some (.number, rest)
    else none

def quantity? (text : List Char) : Option (Node × List Char) :=
  (moment? text).map (fun (moment, rest) => (.moment moment.text, rest)) <|>
    float? text <|> integer? text

def addPath (t : Table) (key : List String) (node : Node) : Option Table :=
  t.addPair key.dropLast (key.getLastD "") node

mutual

def value? (depth : Nat) : Nat → List Char → Option (Node × List Char)
  | 0, _ => none
  | fuel + 1, text =>
    match text with
    | '"' :: _ => (string? text).map fun (s, rest) => (.string s, rest)
    | '\'' :: _ => (string? text).map fun (s, rest) => (.string s, rest)
    | '[' :: rest =>
      if depth < depthLimit then
        (items? (depth + 1) fuel rest).map fun (items, rest) => (.array items, rest)
      else none
    | '\x7b' :: rest =>
      if depth < depthLimit then
        match skipBlanks rest with
        | '\x7d' :: rest => some (.inline [], rest)
        | rest => (pairs? (depth + 1) fuel {} rest).map fun (t, rest) => (.inline t.entries, rest)
      else none
    | 't' :: 'r' :: 'u' :: 'e' :: rest => some (.boolean true, rest)
    | 'f' :: 'a' :: 'l' :: 's' :: 'e' :: rest => some (.boolean false, rest)
    | _ => quantity? text

def items? (depth : Nat) : Nat → List Char → Option (List Node × List Char)
  | 0, _ => none
  | fuel + 1, text => do
    let text ← skipLines fuel text
    match text with
    | ']' :: rest => return ([], rest)
    | text =>
      let (item, rest) ← value? depth fuel text
      let rest ← skipLines fuel rest
      match rest with
      | ',' :: rest =>
        let (items, rest) ← items? depth fuel rest
        return (item :: items, rest)
      | ']' :: rest => return ([item], rest)
      | _ => none

def pairs? (depth : Nat) : Nat → Table → List Char → Option (Table × List Char)
  | 0, _, _ => none
  | fuel + 1, t, text => do
    let (key, rest) ← key? text
    let rest ← expect? '=' rest
    let (node, rest) ← value? depth fuel (skipBlanks rest)
    let t ← addPath t key node
    match skipBlanks rest with
    | ',' :: rest => pairs? depth fuel t rest
    | '\x7d' :: rest => return (t, rest)
    | _ => none

end

structure Header where
  key : List String
  isListed : Bool

inductive Statement where
  | pair (key : List String) (node : Node)
  | header (header : Header)

def header? (text : List Char) : Option (Header × List Char) :=
  match text with
  | '[' :: rest => do
    let (key, rest) ← key? rest
    let rest ← expect? ']' rest
    return ({ key, isListed := true }, ← expect? ']' rest)
  | _ => do
    let (key, rest) ← key? text
    return ({ key, isListed := false }, ← expect? ']' rest)

def pair? (text : List Char) : Option (Statement × List Char) := do
  let (key, rest) ← key? text
  let rest ← expect? '=' rest
  let (node, rest) ← value? 0 (2 * rest.length + 2) (skipBlanks rest)
  return (.pair key node, rest)

def statement? (text : List Char) : Option (Statement × List Char) := do
  let (statement, rest) ← match text with
    | '[' :: rest => (header? rest).map fun (h, rest) => (.header h, rest)
    | _ => pair? text
  return (statement, ← endLine? rest)

def statements? : Nat → List Char → Option (List Statement)
  | 0, _ => none
  | fuel + 1, text => do
    match ← skipLines text.length text with
    | [] => return []
    | rest =>
      let (statement, rest) ← statement? rest
      return statement :: (← statements? fuel rest)

def pairsOf (statements : List Statement) : List (List String × Node) :=
  statements.filterMap fun
    | .pair key node => some (key, node)
    | .header _ => none

def fillPairs (pairs : List (List String × Node)) (t : Table) : Option Table :=
  pairs.foldlM (fun t (key, node) => addPath t key node) t

def Statement.isPair : Statement → Bool
  | .pair _ _ => true
  | .header _ => false

def addSections : Nat → List Statement → Table → Option Table
  | 0, _, t => some t
  | _ + 1, [], t => some t
  | fuel + 1, .pair _ _ :: rest, t => addSections fuel rest t
  | fuel + 1, .header h :: rest, t => do
    let pairs := pairsOf (rest.takeWhile Statement.isPair)
    let t ← t.addSection h.key.dropLast (h.key.getLastD "") h.isListed (fillPairs pairs)
    addSections fuel (rest.dropWhile Statement.isPair) t

def skipMark : List Char → List Char
  | '\uFEFF' :: rest => rest
  | text => text

def parse? (text : String) : Option (List (String × Node)) := do
  let chars := skipMark text.toList
  let statements ← statements? (chars.length + 1) chars
  let root ← fillPairs (pairsOf (statements.takeWhile Statement.isPair)) {}
  let document ← addSections (statements.length + 1) (statements.dropWhile Statement.isPair) root
  return document.entries

end Bindery.Toml
