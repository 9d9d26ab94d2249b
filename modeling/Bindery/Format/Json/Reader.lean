import Bindery.Format.Decimal
import Bindery.Format.Json

/-!
# Reading JSON text

A strict reader: no trailing comma, no text behind the value, no raw control character
in a string. The recursion is bounded by a count that starts above the length of the
text, and every nested call has consumed a character.
-/

namespace Bindery.Json

def isSpace (c : Char) : Bool := c = ' ' || c = '\n' || c = '\t' || c = '\r'

def skipSpace (text : List Char) : List Char := text.dropWhile isSpace

def hexValue? (c : Char) : Option Nat :=
  if '0' ≤ c ∧ c ≤ '9' then some (c.toNat - '0'.toNat)
  else if 'a' ≤ c ∧ c ≤ 'f' then some (c.toNat - 'a'.toNat + 10)
  else if 'A' ≤ c ∧ c ≤ 'F' then some (c.toNat - 'A'.toNat + 10)
  else none

def hexUnit? (a b c d : Char) : Option Nat := do
  let a ← hexValue? a
  let b ← hexValue? b
  let c ← hexValue? c
  let d ← hexValue? d
  return ((a * 16 + b) * 16 + c) * 16 + d

def isHighSurrogate (n : Nat) : Bool := 0xD800 ≤ n && n ≤ 0xDBFF

def isLowSurrogate (n : Nat) : Bool := 0xDC00 ≤ n && n ≤ 0xDFFF

def escaped? : Char → Option Char
  | '"' => some '"'
  | '\\' => some '\\'
  | '/' => some '/'
  | 'b' => some '\x08'
  | 'f' => some '\x0c'
  | 'n' => some '\n'
  | 'r' => some '\r'
  | 't' => some '\t'
  | _ => none

/-- Reads a string behind its opening quote. `done` holds the characters so far, last
one first, or nothing once half of a surrogate pair was met. -/
def stringBody (done : Option (List Char)) :
    List Char → Option (Option (List Char) × List Char)
  | [] => none
  | '"' :: rest => some (done.map List.reverse, rest)
  | '\\' :: 'u' :: a :: b :: c :: d :: '\\' :: 'u' :: e :: f :: g :: h :: rest =>
    match hexUnit? a b c d with
    | none => none
    | some unit =>
      if isHighSurrogate unit then
        match hexUnit? e f g h with
        | none => none
        | some low =>
          if isLowSurrogate low then
            let c := Char.ofNat (0x10000 + (unit - 0xD800) * 0x400 + (low - 0xDC00))
            stringBody (done.map (c :: ·)) rest
          else stringBody none ('\\' :: 'u' :: e :: f :: g :: h :: rest)
      else if isLowSurrogate unit then
        stringBody none ('\\' :: 'u' :: e :: f :: g :: h :: rest)
      else
        stringBody (done.map (Char.ofNat unit :: ·)) ('\\' :: 'u' :: e :: f :: g :: h :: rest)
  | '\\' :: 'u' :: a :: b :: c :: d :: rest =>
    match hexUnit? a b c d with
    | none => none
    | some unit =>
      if isHighSurrogate unit || isLowSurrogate unit then stringBody none rest
      else stringBody (done.map (Char.ofNat unit :: ·)) rest
  | '\\' :: c :: rest =>
    match escaped? c with
    | some c => stringBody (done.map (c :: ·)) rest
    | none => none
  | c :: rest => if c.toNat < 32 then none else stringBody (done.map (c :: ·)) rest

def digitsOf (text : List Char) : List Char × List Char := text.span Char.isDigit

def wholePart? (text : List Char) : Option (List Char × List Char) :=
  match digitsOf text with
  | ([], _) => none
  | ('0' :: _ :: _, _) => none
  | (digits, rest) => some (digits, rest)

def fraction? : List Char → Option (List Char × List Char)
  | '.' :: rest =>
    match digitsOf rest with
    | ([], _) => none
    | (digits, rest) => some (digits, rest)
  | rest => some ([], rest)

/-- The exponent behind a number: its text and its value. An exponent of ten digits or more
is beyond any use. -/
def exponent? (text : List Char) : Option (List Char × Int × List Char) :=
  match text with
  | c :: rest =>
    if c = 'e' || c = 'E' then
      let (sign, rest) :=
        match rest with
        | '-' :: rest => (['-'], rest)
        | '+' :: rest => (['+'], rest)
        | rest => ([], rest)
      match digitsOf rest with
      | ([], _) => none
      | (digits, rest) =>
        let significant := digits.dropWhile (· = '0')
        let size : Int := if significant.length > 9 then Nat.pow 10 9 else Decimal.value significant
        some (c :: sign ++ digits, if sign = ['-'] then -size else size, rest)
    else some ([], 0, text)
  | [] => some ([], 0, [])

/-- Appends digits to a number as long as it fits in 64 bits, and gives back the digits that
are left over. -/
def appendDigits (n : Nat) : List Char → Nat × List Char
  | [] => (n, [])
  | c :: rest =>
    let next := 10 * n + (c.toNat - '0'.toNat)
    if next < Nat.pow 2 64 then appendDigits next rest else (n, c :: rest)

/-- Whether a number is in the range of doubles. Only the digits that fit in 64 bits count,
and the power of ten that they are multiplied with is a double. -/
def inRange (whole fraction : List Char) (exponent : Int) : Bool :=
  let (n, wholeLeft) := appendDigits 0 whole
  let (n, fractionLeft) := appendDigits n fraction
  let used := fraction.length - fractionLeft.length
  Decimal.isFiniteProduct n (wholeLeft.length - used + exponent)

def number? (text : List Char) : Option (Json × List Char) := do
  let (sign, unsigned) := match text with
    | '-' :: rest => (['-'], rest)
    | rest => ([], rest)
  let (whole, rest) ← wholePart? unsigned
  let (fraction, rest) ← fraction? rest
  let (mark, exponent, rest) ← exponent? rest
  let point := if fraction.isEmpty then [] else '.' :: fraction
  if inRange whole fraction exponent then
    return (.number (String.ofList (sign ++ whole ++ point ++ mark)), rest)
  else return (.unreadable, rest)

def objectOf (fields : List (Option (List Char) × Json)) : Json :=
  match fields.mapM fun (key, value) => key.map fun key => (String.ofList key, value) with
  | some fields => .object fields
  | none => .unreadable

mutual

def value? : Nat → List Char → Option (Json × List Char)
  | 0, _ => none
  | fuel + 1, text =>
    match skipSpace text with
    | '{' :: rest =>
      match skipSpace rest with
      | '}' :: rest => some (.object [], rest)
      | rest => (fields? fuel [] rest).map fun (fields, rest) => (objectOf fields, rest)
    | '[' :: rest =>
      match skipSpace rest with
      | ']' :: rest => some (.array [], rest)
      | rest => (items? fuel [] rest).map fun (items, rest) => (.array items, rest)
    | '"' :: rest =>
      match stringBody (some []) rest with
      | some (some text, rest) => some (.string (String.ofList text), rest)
      | some (none, rest) => some (.unreadable, rest)
      | none => none
    | 't' :: 'r' :: 'u' :: 'e' :: rest => some (.bool true, rest)
    | 'f' :: 'a' :: 'l' :: 's' :: 'e' :: rest => some (.bool false, rest)
    | 'n' :: 'u' :: 'l' :: 'l' :: rest => some (.null, rest)
    | rest => number? rest

def items? : Nat → List Json → List Char → Option (List Json × List Char)
  | 0, _, _ => none
  | fuel + 1, done, text =>
    match value? fuel text with
    | none => none
    | some (item, rest) =>
      match skipSpace rest with
      | ',' :: rest => items? fuel (item :: done) rest
      | ']' :: rest => some ((item :: done).reverse, rest)
      | _ => none

def fields? : Nat → List (Option (List Char) × Json) → List Char →
    Option (List (Option (List Char) × Json) × List Char)
  | 0, _, _ => none
  | fuel + 1, done, text =>
    match skipSpace text with
    | '"' :: rest =>
      match stringBody (some []) rest with
      | none => none
      | some (key, rest) =>
        match skipSpace rest with
        | ':' :: rest =>
          match value? fuel rest with
          | none => none
          | some (value, rest) =>
            match skipSpace rest with
            | ',' :: rest => fields? fuel ((key, value) :: done) rest
            | '}' :: rest => some (((key, value) :: done).reverse, rest)
            | _ => none
        | _ => none
    | _ => none

end

def parse? (text : String) : Option Json :=
  let chars := text.toList
  match value? (2 * chars.length + 2) chars with
  | some (value, rest) => if skipSpace rest = [] then some value else none
  | none => none

end Bindery.Json
