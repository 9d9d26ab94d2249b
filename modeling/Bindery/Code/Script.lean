import Bindery.Code.Layout

/-!
# Scripts

A script is what is to be written, step by step. A step is carried out at the level of the
writer that meets it. Marks write nothing; they tell what the steps around them are about.
-/

namespace Bindery.Code

inductive Step (Mark : Type) where
  | line (text : String)
  | indent (text : String)
  | unindent (text : String)
  | dedent
  | signature (signature : Signature)
  | listing (listing : Listing)
  | dictionary (dictionary : Dictionary)
  | call (call : Call)
  | mark (mark : Mark)

namespace Step

variable {Mark : Type}

def blank : Step Mark := .line ""

def block (text : String) : Step Mark := .indent (text ++ ":")

def commands (level : Nat) : Step Mark → List Command
  | .line text => [.line text]
  | .indent text => [.line text, .indent]
  | .unindent text => [.dedent, .line text]
  | .dedent => [.dedent]
  | .signature s => s.commands level
  | .listing l => l.commands level
  | .dictionary d => d.commands level
  | .call c => c.commands level
  | .mark _ => []

def mark? : Step Mark → Option Mark
  | .mark m => some m
  | _ => none

end Step

abbrev Script (Mark : Type) := List (Step Mark)

namespace Writer

variable {Mark : Type}

def step (w : Writer) (s : Step Mark) : Writer := w.execAll (s.commands w.level)

def run (w : Writer) (script : Script Mark) : Writer := script.foldl step w

end Writer

namespace Script

variable {Mark : Type}

def marks (script : Script Mark) : List Mark := script.filterMap Step.mark?

def text (script : Script Mark) : String := (Writer.run {} script).text

end Script

end Bindery.Code
