import Bindery.Format.Decimal

/-!
# Dates and times

A moment is a day, a time of day or both; to both, the distance to universal time may be
added. A text gives a moment in one of several spellings, and `Moment.text` is the one that
stands for all of them.
-/

namespace Bindery.Toml

structure Day where
  year : Nat
  month : Nat
  day : Nat

structure Time where
  hour : Nat
  minute : Nat
  second : Nat
  nanosecond : Nat := 0

inductive Offset where
  | none
  | universal
  | minutes (count : Int)

inductive Moment where
  | day (day : Day)
  | time (time : Time)
  | both (day : Day) (time : Time) (offset : Offset)

def Day.text (d : Day) : List Char :=
  Decimal.padded 4 d.year ++ '-' :: Decimal.padded 2 d.month ++ '-' :: Decimal.padded 2 d.day

def Time.fraction (t : Time) : List Char :=
  if t.nanosecond = 0 then []
  else '.' :: ((Decimal.padded 9 t.nanosecond).reverse.dropWhile (· = '0')).reverse

def Time.text (t : Time) : List Char :=
  Decimal.padded 2 t.hour ++ ':' :: Decimal.padded 2 t.minute ++ ':' :: Decimal.padded 2 t.second ++
    t.fraction

def Offset.text : Offset → List Char
  | .none => []
  | .universal => ['Z']
  | .minutes count =>
    (if count < 0 then '-' else '+') ::
      Decimal.padded 2 (count.natAbs / 60) ++ ':' :: Decimal.padded 2 (count.natAbs % 60)

def Moment.text : Moment → String
  | .day d => String.ofList d.text
  | .time t => String.ofList t.text
  | .both d t offset => String.ofList (d.text ++ 'T' :: t.text ++ offset.text)

def number? (count : Nat) (text : List Char) : Option (Nat × List Char) :=
  let digits := text.take count
  if digits.length = count ∧ digits.all Char.isDigit then
    some (Decimal.value digits, text.drop count)
  else none

def expect? (c : Char) : List Char → Option (List Char)
  | d :: rest => if c = d then some rest else none
  | [] => none

def isLeap (year : Nat) : Bool := year % 4 = 0 && (year % 100 ≠ 0 || year % 400 = 0)

def daysIn (year month : Nat) : Nat :=
  if month = 2 then (if isLeap year then 29 else 28)
  else if month = 4 ∨ month = 6 ∨ month = 9 ∨ month = 11 then 30
  else 31

def day? (text : List Char) : Option (Day × List Char) := do
  let (year, rest) ← number? 4 text
  let (month, rest) ← number? 2 (← expect? '-' rest)
  let (day, rest) ← number? 2 (← expect? '-' rest)
  if 1 ≤ month ∧ month ≤ 12 ∧ 1 ≤ day ∧ day ≤ daysIn year month then
    some ({ year, month, day }, rest)
  else none

/-- The nanoseconds that digits behind a point give, if any are there. Digits beyond the
ninth are dropped. -/
def nanoseconds (text : List Char) : Nat × List Char :=
  match text with
  | '.' :: rest =>
    match rest.takeWhile Char.isDigit with
    | [] => (0, text)
    | digits => (Decimal.value ((digits.take 9).rightpad 9 '0'), rest.dropWhile Char.isDigit)
  | _ => (0, text)

/-- A time of day; a minute may have a leap second. -/
def time? (text : List Char) : Option (Time × List Char) := do
  let (hour, rest) ← number? 2 text
  let (minute, rest) ← number? 2 (← expect? ':' rest)
  let (second, rest) ← number? 2 (← expect? ':' rest)
  if hour ≤ 23 ∧ minute ≤ 59 ∧ second ≤ 60 then
    let (nanosecond, rest) := nanoseconds rest
    some ({ hour, minute, second, nanosecond }, rest)
  else none

def offset? (text : List Char) : Option (Offset × List Char) :=
  match text with
  | c :: rest =>
    if c = 'Z' || c = 'z' then some (.universal, rest)
    else if c = '+' || c = '-' then do
      let (hour, rest) ← number? 2 rest
      let (minute, rest) ← number? 2 (← expect? ':' rest)
      let count : Int := hour * 60 + minute
      if hour ≤ 23 ∧ minute ≤ 59 then some (.minutes (if c = '-' then -count else count), rest)
      else none
    else none
  | [] => none

def timeBehind? : List Char → Option (Time × List Char)
  | c :: rest => if c = 'T' || c = 't' || c = ' ' then time? rest else none
  | [] => none

def moment? (text : List Char) : Option (Moment × List Char) :=
  match day? text with
  | some (day, rest) =>
    match timeBehind? rest with
    | some (time, rest) =>
      let (offset, rest) := (offset? rest).getD (.none, rest)
      some (.both day time offset, rest)
    | none => some (.day day, rest)
  | none => (time? text).map fun (time, rest) => (.time time, rest)

end Bindery.Toml
