import Bindery.Text.Case
import Bindery.Text.Split

/-!
# Namespaced names

PHP names are segments in pascal case behind backslashes. Members hang off their owner
behind two colons, and a parameter, which starts with a dollar sign, hangs off its method
in the same way.
-/

namespace Bindery.Namespaced

def capitalize (word : String) : String :=
  match word.toList with
  | [] => ""
  | c :: rest => String.ofList (Text.upperChar c ++ rest)

def pascal (segment : String) : String := String.join ((Text.split '-' segment).map capitalize)

def name (fqn : String) : String := "\\".intercalate ((Text.split '.' fqn).map pascal)

def namespaceOf (fqn : String) : String := "\\".intercalate (Text.split '\\' fqn).dropLast

def lastSegment (fqn : String) : String := (Text.split '\\' fqn).getLastD ""

def memberMark : String := "::"

def memberName (owner member : String) : String := owner ++ memberMark ++ member

def isMemberOf (owner fqn : String) : Bool :=
  match Text.after? (owner ++ memberMark) fqn with
  | some rest => (Text.breakOn? memberMark rest).isNone
  | none => false

end Bindery.Namespaced
