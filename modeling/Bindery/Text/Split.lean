/-!
# Cutting and joining text

Text is handled as its list of characters. `split` cuts at every occurrence of a
separator and `String.intercalate` undoes it. `stripPrefix?` and `breakAt?` cut at
a given text, and `dropBytes?` cuts at a distance counted in UTF-8 bytes, which is
defined only where the distance ends between two characters.
-/

namespace Bindery.Text

def split (sep : Char) (text : String) : List String :=
  (text.toList.splitOn sep).map String.ofList

theorem split_ne_nil (sep : Char) (text : String) : split sep text ≠ [] := by
  simp [split]

theorem intercalate_split (sep : Char) (text : String) :
    (String.ofList [sep]).intercalate (split sep text) = text := by
  apply String.toList_inj.mp
  simp [split, String.toList_intercalate, Function.comp_def, List.intercalate_splitOn]

def stripPrefix? : List Char → List Char → Option (List Char)
  | [], text => some text
  | _ :: _, [] => none
  | p :: start, c :: text => if p = c then stripPrefix? start text else none

theorem stripPrefix?_eq_some_iff {start text rest : List Char} :
    stripPrefix? start text = some rest ↔ text = start ++ rest := by
  induction start generalizing text with
  | nil => simp [stripPrefix?]
  | cons p start ih =>
    cases text with
    | nil => simp [stripPrefix?]
    | cons c text =>
      by_cases h : p = c
      · simp [stripPrefix?, h, ih]
      · simp [stripPrefix?, h, Ne.symm h]

def after? (start text : String) : Option String :=
  (stripPrefix? start.toList text.toList).map String.ofList

theorem after?_eq_some_iff {start text rest : String} :
    after? start text = some rest ↔ text = start ++ rest := by
  simp only [after?, Option.map_eq_some_iff, stripPrefix?_eq_some_iff]
  constructor
  · rintro ⟨cs, h, rfl⟩
    apply String.toList_inj.mp
    simpa using h
  · rintro rfl
    exact ⟨rest.toList, by simp, by simp⟩

def startsWith (start text : String) : Bool := (after? start text).isSome

def breakAt? (mark : List Char) : List Char → Option (List Char × List Char)
  | [] => if mark = [] then some ([], []) else none
  | c :: text =>
    match stripPrefix? mark (c :: text) with
    | some rest => some ([], rest)
    | none => (breakAt? mark text).map fun (before, rest) => (c :: before, rest)

def breakOn? (mark text : String) : Option (String × String) :=
  (breakAt? mark.toList text.toList).map fun (before, rest) =>
    (String.ofList before, String.ofList rest)

/-- What is left behind the first `n` UTF-8 bytes, if these end between characters. -/
def dropBytes? : Nat → List Char → Option (List Char)
  | 0, text => some text
  | _ + 1, [] => none
  | n + 1, c :: text => if c.utf8Size ≤ n + 1 then dropBytes? (n + 1 - c.utf8Size) text else none

def replaceChar (old new : Char) (text : String) : String :=
  String.ofList (text.toList.map fun c => if c = old then new else c)

def removeChar (old : Char) (text : String) : String :=
  String.ofList (text.toList.filter (· ≠ old))

def repeated (n : Nat) (c : Char) : String := String.ofList (List.replicate n c)

def padRight (width : Nat) (text : String) : String :=
  text ++ repeated (width - text.length) ' '

def padLeft (width : Nat) (text : String) : String :=
  repeated (width - text.length) ' ' ++ text

/-- The lines of `text`: a line ends with a line feed, which a carriage return may
precede, and nothing behind the last line feed is no line. -/
def lines (text : String) : List String :=
  go (text.toList.splitOn '\n')
where
  go : List (List Char) → List String
    | [] => []
    | [last] => if last = [] then [] else [String.ofList last]
    | line :: rest =>
      let kept := if line.getLast? = some '\r' then line.dropLast else line
      String.ofList kept :: go rest

end Bindery.Text
