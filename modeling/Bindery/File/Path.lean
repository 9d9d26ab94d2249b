import Bindery.Text.Split

/-!
# Paths

A path is kept as it is spelled. Its components leave out empty parts, and dots that mean
the directory itself unless the path begins with one. Two spellings with the same
components name the same file, and paths are ordered by their components.
-/

namespace Bindery

structure Path where
  text : String
  deriving DecidableEq, Inhabited

namespace Path

inductive Component where
  | root
  | here
  | above
  | name (text : String)
  deriving DecidableEq

def isAbsolute (p : Path) : Bool := Text.startsWith "/" p.text

def parts (p : Path) : List String := Text.split '/' p.text

/-- A part that stands for no component unless it comes first. -/
def isIdle (part : String) : Bool := part = "" || part = "."

def component (part : String) : Component := if part = ".." then .above else .name part

def components (p : Path) : List Component :=
  let named := fun parts : List String => (parts.filter (!isIdle ·)).map component
  match p.parts with
  | "" :: rest => (if p.isAbsolute then [.root] else []) ++ named rest
  | "." :: rest => .here :: named rest
  | parts => named parts

/-- A text for each component such that components are ordered as these texts. -/
def Component.key : Component → String
  | .root => "0"
  | .here => "1"
  | .above => "2"
  | .name text => "3" ++ text

def key (p : Path) : List String := p.components.map Component.key

/-- Appends a relative path; an absolute one takes the place of the whole. -/
def join (p q : Path) : Path :=
  if q.isAbsolute then q
  else if p.text.isEmpty || p.text.toList.getLast? = some '/' then ⟨p.text ++ q.text⟩
  else ⟨p.text ++ "/" ++ q.text⟩

def dropIdle (parts : List String) : List String :=
  match (parts.reverse.dropWhile isIdle).reverse with
  | [] => if parts.head? = some "." then ["."] else []
  | kept => kept

/-- The directory that a path lies in; a root lies in none, and neither does the empty
path. -/
def parent? (p : Path) : Option Path :=
  match dropIdle p.parts with
  | [] => none
  | parts =>
    let outer := dropIdle parts.dropLast
    if p.isAbsolute && outer.isEmpty then some ⟨"/"⟩
    else some ⟨"/".intercalate outer⟩

/-- What stands behind the last dot of a file name, unless nothing precedes the dot. -/
def extension? (p : Path) : Option String :=
  match p.components.getLast? with
  | some (.name file) =>
    match Text.split '.' file with
    | [_] => none
    | ["", _] => none
    | pieces => pieces.getLast?
  | _ => none

end Path

end Bindery
