import Bindery.Code.Script
import Bindery.Model.Basic
import Bindery.Reference.Projection

/-!
# Scripts of bindings

Marks in a script of generated code tell which definition is being written, when it is
complete, which member a piece of text belongs to, which types the text mentions, and which
stub functions it relies on.
-/

namespace Bindery.Binding

/-- A function without effect whose annotations are read while the program runs. -/
structure Stub where
  name : String
  params : List String
  deriving DecidableEq

inductive Mark where
  | opened (fqn : String)
  | closed (fqn : String)
  | member (member : Member)
  | mention (type : TypeExpr) (scope : Scope)
  | stub (stub : Stub)

abbrev Script := Code.Script Mark

def line (text : String) : Code.Step Mark := .line text

def blank : Code.Step Mark := .blank

def closed (script : Script) : List String :=
  (Code.Script.marks script).filterMap fun
    | .closed fqn => some fqn
    | _ => none

def stubs (script : Script) : List Stub :=
  (Code.Script.marks script).filterMap fun
    | .stub stub => some stub
    | _ => none

structure Context where
  model : Model
  scope : Scope
  checks : Bool := true
  keywords : Bool := false

namespace Context

def inside (ctx : Context) (fqn : String) : Context :=
  { ctx with scope := ctx.scope.inside fqn }

/-- The scope of an expression that is evaluated where it stands. -/
def evaluated (ctx : Context) : Scope := { ctx.scope with annotation := false }

def parameter (ctx : Context) : Scope := { ctx.scope with parameter := true }

end Context

structure Spelled where
  text : String
  type : TypeExpr
  scope : Scope

def Spelled.step (s : Spelled) : Code.Step Mark := .mark (.mention s.type s.scope)

def spell (ctx : Context) (scope : Scope) (type : TypeExpr) : Outcome Spelled := do
  return { text := ← ctx.model.spell scope type, type, scope }

def spellNames (ctx : Context) (fqns : List String) : Outcome (List Spelled) :=
  fqns.mapM fun fqn => spell ctx ctx.evaluated (.named fqn)

def mentions (spelled : List Spelled) : Script := spelled.map Spelled.step

def texts (spelled : List Spelled) : List String := spelled.map (·.text)

end Bindery.Binding
