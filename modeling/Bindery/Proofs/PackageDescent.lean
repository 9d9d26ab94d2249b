import Bindery.Proofs.Package

/-!
# Packages from the outermost segment on

`Package.locate` walks a name from its end and stops at the first anchor. Read from the front, the
package of a name follows from that of the name around it: a segment that is no submodule joins the
tail, a submodule without a Python module adds a part to the package, and a submodule with one
starts anew. `descend` is this step, and `locate_child` says that the walk takes it at every
name, with the faults that it meets on the way.
-/

namespace Bindery

namespace Package

open Api Dotted

theorem walk_accumulates (assembly root : String) (submodules : SortedMap Submodule)
    (segments package tail : List String) :
    walk assembly root submodules segments package tail =
      (walk assembly root submodules segments [] []).map fun found =>
        (found.1 ++ package, found.2 ++ tail) := by
  induction segments generalizing package tail with
  | nil => rfl
  | cons segment outer ih =>
    rw [walk, walk]
    split
    · rfl
    · split
      · rw [ih package (segment :: tail), ih [] [segment]]
        cases walk assembly root submodules outer [] [] with
        | error fault => rfl
        | ok found => simp [Except.map]
      · split
        · split
          · rfl
          · rfl
        · rw [ih (_ :: package) tail, ih [_] []]
          cases walk assembly root submodules outer [] [] with
          | error fault => rfl
          | ok found => simp [Except.map]

theorem walk_fault {assembly root : String} {submodules : SortedMap Submodule}
    {segments package tail : List String} {fault : Fault}
    (h : walk assembly root submodules segments package tail = .error fault) :
    ∃ cause, fault = .config cause := by
  induction segments generalizing package tail with
  | nil => cases h
  | cons segment outer ih =>
    rw [walk] at h
    split at h
    · cases h
    · split at h
      · exact ih h
      · split at h
        · split at h
          · cases h
          · exact ⟨_, (Except.error.inj h).symm⟩
        · exact ih h

theorem targetsOf_fault {a : Assembly} {assembly : String} {fault : Fault}
    (h : targetsOf a assembly = .error fault) : ∃ cause, fault = .config cause := by
  rw [targetsOf] at h
  split at h
  · cases h
  · split at h
    · cases h
    · exact ⟨_, (Except.error.inj h).symm⟩

theorem moduleOf_fault {assembly : String} {targets : DependencyTargets} {fault : Fault}
    (h : moduleOf assembly targets = .error fault) : ∃ cause, fault = .config cause := by
  rw [moduleOf] at h
  split at h
  · cases h
  · exact ⟨_, (Except.error.inj h).symm⟩

theorem locate_fault {a : Assembly} {fqn : String} {fault : Fault}
    (h : locate a fqn = .error fault) : ∃ cause, fault = .config cause := by
  rcases Outcome.bind_eq_error.mp h with htargets | ⟨targets, -, h⟩
  · exact targetsOf_fault htargets
  · rcases Outcome.bind_eq_error.mp h with hmodule | ⟨root, -, h⟩
    · exact moduleOf_fault hmodule
    · rcases Outcome.bind_eq_error.mp h with hwalk | ⟨found, -, h⟩
      · exact walk_fault hwalk
      · cases h

theorem pythonName_fault {a : Assembly} {fqn : String} {fault : Fault}
    (h : pythonName a fqn = .error fault) : ∃ cause, fault = .config cause := by
  rcases Outcome.bind_eq_error.mp h with hlocate | ⟨location, -, h⟩
  · exact locate_fault hlocate
  · cases h

def submodule? (a : Assembly) (fqn : String) : Option Submodule :=
  (targetsOf a (head fqn)).toOption.bind fun targets => targets.submodules.find? fqn

def Location.below (location : Location) (segment : String) : Location :=
  { location with tail := location.tail ++ [segment] }

def Location.within (location : Location) (part : String) : Location :=
  { location with package := location.package ++ "." ++ part }

def PythonName.below (name : PythonName) (segment : String) : PythonName :=
  { name with path := name.path ++ "." ++ segment }

/-- Where `last` lies inside `outer`, given where `outer` lies. -/
def descend (a : Assembly) (outer last : String) (around : Outcome Location) : Outcome Location :=
  match submodule? a (outer ++ "." ++ last) with
  | none => around.map fun location => location.below last
  | some submodule =>
    match submodule.targets.python with
    | none => around.map fun location => location.within (Identifier.snake (Identifier.escape last))
    | some python => do
      let root ← rootModule a (head outer)
      if isBelow root python.module then
        return { assembly := head outer, package := python.module, tail := [] }
      else throw (.config (.packageNotNested (outer ++ "." ++ last) python.module root))

def locateIn (assembly root : String) (submodules : SortedMap Submodule) (fqn : String) :
    Outcome Location :=
  (walk assembly root submodules (segments fqn).reverse [] []).map fun found =>
    { assembly, package := join found.1, tail := found.2 }

theorem locate_eq (a : Assembly) (fqn : String) :
    locate a fqn = (do
      let targets ← targetsOf a (head fqn)
      let root ← moduleOf (head fqn) targets
      locateIn (head fqn) root targets.submodules fqn) := by
  rw [locate]
  refine bind_congr fun targets => bind_congr fun root => ?_
  rw [locateIn, head]
  cases walk ((segments fqn).headD "") root targets.submodules (segments fqn).reverse [] [] with
  | error fault => rfl
  | ok found => rfl

theorem locate_of_undotted (a : Assembly) {name : String} (h : Undotted name) :
    locate a name = (rootModule a name).map fun root =>
      { assembly := name, package := root, tail := [] } := by
  rw [locate_eq, rootModule, head_of_undotted h]
  cases targetsOf a name with
  | error fault => rfl
  | ok targets =>
    simp only [Outcome.ok_bind]
    cases moduleOf name targets with
    | error fault => rfl
    | ok root =>
      simp [Outcome.ok_bind, locateIn, segments_of_undotted h, walk, join_singleton, Except.map]

section Child

variable {assembly root outer last : String} {submodules : SortedMap Submodule}

theorem locateIn_inner (hlast : Undotted last) (hne : outer ++ "." ++ last ≠ assembly)
    (hfind : submodules.find? (outer ++ "." ++ last) = none) :
    locateIn assembly root submodules (outer ++ "." ++ last) =
      (locateIn assembly root submodules outer).map fun location => location.below last := by
  rw [locateIn, locateIn, walk_child outer hlast, if_neg hne, hfind]
  simp only [walk_accumulates _ _ _ _ [] [last]]
  cases walk assembly root submodules (segments outer).reverse [] [] with
  | error fault => rfl
  | ok found => simp [Except.map, Location.below]

theorem locateIn_plain {submodule : Submodule} (hhead : head outer = assembly)
    (hlast : Undotted last) (hne : outer ++ "." ++ last ≠ assembly)
    (hfind : submodules.find? (outer ++ "." ++ last) = some submodule)
    (hpython : submodule.targets.python = none) :
    locateIn assembly root submodules (outer ++ "." ++ last) =
      (locateIn assembly root submodules outer).map fun location =>
        location.within (Identifier.snake (Identifier.escape last)) := by
  rw [locateIn, locateIn, walk_child outer hlast, if_neg hne, hfind]
  simp only [hpython, walk_accumulates _ _ _ _ [_] []]
  cases hwalk : walk assembly root submodules (segments outer).reverse [] [] with
  | error fault => rfl
  | ok found =>
    obtain ⟨package, tail, hlies, hpackage, -⟩ := (walk_eq_ok_iff hhead).mp hwalk
    have hfound : found.1 ≠ [] := by
      rw [hpackage, List.append_nil]
      exact hlies.package_ne_nil
    simp [Except.map, Location.within, join_snoc hfound]

theorem locateIn_configured {submodule : Submodule} {python : PythonTarget}
    (hlast : Undotted last) (hne : outer ++ "." ++ last ≠ assembly)
    (hfind : submodules.find? (outer ++ "." ++ last) = some submodule)
    (hpython : submodule.targets.python = some python) :
    locateIn assembly root submodules (outer ++ "." ++ last) =
      if isBelow root python.module then
        .ok { assembly, package := python.module, tail := [] }
      else .error (.config (.packageNotNested (outer ++ "." ++ last) python.module root)) := by
  rw [locateIn, walk_child outer hlast, if_neg hne, hfind]
  simp only [hpython]
  split
  · simp [Except.map, join_singleton]
  · rfl

end Child

theorem locate_child (a : Assembly) (outer : String) {last : String} (hlast : Undotted last) :
    locate a (outer ++ "." ++ last) = descend a outer last (locate a outer) := by
  have hne : outer ++ "." ++ last ≠ head outer := fun heq =>
    not_undotted_child outer last (heq ▸ undotted_head outer)
  rw [locate_eq, locate_eq, descend, submodule?, rootModule, head_append]
  cases targetsOf a (head outer) with
  | error fault => rfl
  | ok targets =>
    simp only [Outcome.ok_bind, Except.toOption, Option.bind_some]
    -- without a root every name of the assembly has the same fault, whatever the submodule is
    cases hroot : moduleOf (head outer) targets with
    | error fault =>
      cases targets.submodules.find? (outer ++ "." ++ last) with
      | none => rfl
      | some submodule =>
        simp only [Outcome.error_bind]
        split
        · rfl
        · rfl
    | ok root =>
      cases hfind : targets.submodules.find? (outer ++ "." ++ last) with
      | none => exact locateIn_inner hlast hne hfind
      | some submodule =>
        cases hpython : submodule.targets.python with
        | none =>
          simp only [hpython]
          exact locateIn_plain rfl hlast hne hfind hpython
        | some python =>
          simp only [hpython]
          exact locateIn_configured hlast hne hfind hpython

theorem rootModule_or_isBelow {a : Assembly} {fqn : String} {location : Location}
    (h : locate a fqn = .ok location) :
    ∃ root, rootModule a (head fqn) = .ok root ∧
      (location.package = root ∨ isBelow root location.package = true) := by
  induction fqn using Dotted.inductionOn generalizing location with
  | single name hundotted =>
    rw [locate_of_undotted a hundotted] at h
    rw [head_of_undotted hundotted]
    cases hroot : rootModule a name with
    | error fault => simp [hroot, Except.map] at h
    | ok root =>
      simp only [hroot, Except.map, Except.ok.injEq] at h
      exact ⟨root, rfl, .inl (by rw [← h])⟩
  | child outer last hlast ih =>
    rw [locate_child a outer hlast, descend] at h
    rw [head_append]
    split at h
    · -- No submodule: the package is that of `outer`.
      cases houter : locate a outer with
      | error fault => simp [houter, Except.map] at h
      | ok around =>
        obtain rfl : around.below last = location := by simpa [houter, Except.map] using h
        obtain ⟨root, hroot, hpackage⟩ := ih houter
        exact ⟨root, hroot, hpackage⟩
    · split at h
      · -- A submodule without a module of its own adds one segment.
        cases houter : locate a outer with
        | error fault => simp [houter, Except.map] at h
        | ok around =>
          obtain rfl : around.within _ = location := by simpa [houter, Except.map] using h
          obtain ⟨root, hroot, hpackage⟩ := ih houter
          refine ⟨root, hroot, .inr (isBelow_iff.mpr ?_)⟩
          rcases hpackage with rfl | hbelow
          · exact ⟨_, rfl⟩
          · obtain ⟨rest, hrest⟩ := isBelow_iff.mp hbelow
            exact ⟨rest ++ "." ++ Identifier.snake (Identifier.escape last), by
              simp only [Location.within, hrest, String.append_assoc]⟩
      · -- A configured module is checked to lie below the root.
        obtain ⟨root, hroot, h⟩ := Outcome.bind_eq_ok.mp h
        split at h
        · rename_i hbelow
          obtain rfl := Outcome.pure_eq_ok.mp h
          exact ⟨root, hroot, .inr hbelow⟩
        · cases h

theorem pythonName_child {a : Assembly} {outer last : String} (hlast : Undotted last)
    (hfind : submodule? a (outer ++ "." ++ last) = none) :
    pythonName a (outer ++ "." ++ last) =
      (pythonName a outer).map fun name => name.below (Identifier.escape last) := by
  rw [pythonName, pythonName, locate_child a outer hlast, descend, hfind]
  cases locate a outer with
  | error fault => rfl
  | ok location =>
    have hpath := join_snoc (List.cons_ne_nil location.package
      (location.tail.map Identifier.escape)) (Identifier.escape last)
    simp only [Except.map, Outcome.ok_bind, pure, Except.pure, Location.below, PythonName.below,
      List.map_append, List.map_cons, List.map_nil, ← hpath, List.cons_append]

/-- The walk from the end of a name is the descent from its first segment. -/
theorem locate_top_down (a : Assembly) :
    (∀ name, Undotted name → locate a name = (rootModule a name).map fun root =>
      { assembly := name, package := root, tail := [] }) ∧
    (∀ outer last, Undotted last →
      locate a (outer ++ "." ++ last) = descend a outer last (locate a outer)) ∧
    (∀ fqn fault, locate a fqn = .error fault → ∃ cause, fault = .config cause) ∧
    (∀ fqn location, locate a fqn = .ok location → ∃ root, rootModule a (head fqn) = .ok root ∧
      (location.package = root ∨ isBelow root location.package = true)) ∧
    ∀ outer last, Undotted last → submodule? a (outer ++ "." ++ last) = none →
      pythonName a (outer ++ "." ++ last) =
        (pythonName a outer).map fun name => name.below (Identifier.escape last) :=
  ⟨fun _ => locate_of_undotted a, fun outer _ => locate_child a outer, fun _ _ => locate_fault,
    fun _ _ => rootModule_or_isBelow, fun _ _ => pythonName_child⟩

def valveAssembly : Assembly :=
  ((Assembly.ofModule "Acme" "1.0.0" "acme").withSubmodule "Acme.Core"
    (some "acme.core_lib")).withSubmodule "Acme.Core.Odd.Deep" none

theorem locate_top_down_valve :
    let deep : Location := { assembly := "Acme", package := "acme.core_lib.deep", tail := ["Odd"] }
    Undotted "Valve" ∧ submodule? valveAssembly "Acme.Core.Odd.Deep.Valve" = none ∧
      locate valveAssembly "Acme.Core.Odd.Deep" = .ok deep ∧
      locate valveAssembly "Acme.Core.Odd.Deep.Valve" = .ok (deep.below "Valve") ∧
      (deep.package = "acme" ∨ isBelow "acme" deep.package = true) := by
  intro deep
  obtain ⟨-, hdescend, -, hpackage, -⟩ := locate_top_down valveAssembly
  have hvalve : Undotted "Valve" := by decide
  have hfind : submodule? valveAssembly "Acme.Core.Odd.Deep.Valve" = none := by decide +kernel
  have hdeep : locate valveAssembly "Acme.Core.Odd.Deep" = .ok deep :=
    Outcome.eq_ok_of_toOption (by decide +kernel)
  have hroot : rootModule valveAssembly (head "Acme.Core.Odd.Deep") = .ok "acme" :=
    Outcome.eq_ok_of_toOption (by decide +kernel)
  refine ⟨hvalve, hfind, hdeep, ?_, ?_⟩
  · have hstep := hdescend "Acme.Core.Odd.Deep" "Valve" hvalve
    have hname : "Acme.Core.Odd.Deep" ++ "." ++ "Valve" = "Acme.Core.Odd.Deep.Valve" := by decide
    rw [hname] at hstep
    rw [hstep, descend, hname, hfind, hdeep]
    rfl
  · obtain ⟨root, hroot', hbelow⟩ := hpackage _ deep hdeep
    obtain rfl := Except.ok.inj (hroot.symm.trans hroot')
    exact hbelow

end Package

end Bindery
