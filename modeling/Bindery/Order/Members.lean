import Bindery.Order.Dependency

/-!
# Order of members

Of several members with one Python name the only one that is not deprecated is kept, and
anything else about a shared name is a fault. Kept members that declare no type come first,
in their order; the types follow in rounds. A round goes through the types that wait, in
their order, and places each one whose siblings are all placed already.
-/

namespace Bindery.Members

def namesakes (members : List Member) (name : String) : List Member :=
  members.filter (·.pythonName = name)

/-- The member that keeps a name: a lone bearer, or the only one that is not deprecated. -/
def keeper (members : List Member) (name : String) : Outcome Member :=
  match namesakes members name with
  | [only] => .ok only
  | bearers =>
    match bearers.filter (!·.isDeprecated) with
    | [live] => .ok live
    | [] => .error (.allDeprecated name)
    | _ => .error (.ambiguousName name)

def names (members : List Member) : List String := (members.map Member.pythonName).eraseDups

def select (members : List Member) : Outcome (List Member) :=
  (names members).mapM (keeper members)

structure Waiting where
  member : Member
  fqn : String
  needs : List String

structure Progress where
  placed : List Waiting := []
  waiting : List Waiting

def Progress.done (p : Progress) : List String := p.placed.map (·.fqn)

/-- Places a type whose siblings are all placed and lets any other one wait. -/
def Progress.visit (p : Progress) (w : Waiting) : Progress :=
  if w.needs.all (· ∈ p.done) then { p with placed := p.placed ++ [w] }
  else { p with waiting := p.waiting ++ [w] }

def Progress.round (p : Progress) : Progress := p.waiting.foldl visit { p with waiting := [] }

def Progress.rounds : Nat → Progress → Progress
  | 0, p => p
  | n + 1, p => rounds n p.round

def waitingFor (m : Model) (module : String) (member : Member) (fqn : String) :
    Outcome Waiting := do
  let siblings ← m.siblings (← m.declaration fqn) module
  return { member, fqn, needs := (siblings.filter (!·.isModule)).map Dependency.fqn }

def waitingTypes (m : Model) (module : String) (members : List Member) :
    Outcome (List Waiting) :=
  (members.filterMap fun member => member.nested?.map (member, ·)).mapM fun (member, fqn) =>
    waitingFor m module member fqn

def sort (m : Model) (module : String) (members : List Member) : Outcome (List Member) := do
  let waiting ← waitingTypes m module members
  let last := Progress.rounds waiting.length { waiting }
  if last.waiting.isEmpty then
    return members.filter (·.nested?.isNone) ++ last.placed.map (·.member)
  else
    throw (.circular (last.waiting.map (·.member.pythonName)))

def arrange (m : Model) (module : String) (members : List Member) : Outcome (List Member) := do
  sort m module (← select members)

end Bindery.Members
