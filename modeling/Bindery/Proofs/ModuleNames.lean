import Bindery.Proofs.Model
import Bindery.Proofs.Package

/-!
# The two names of a module

A module is written to the package that holds it, and references read it under its Python path,
which continues the package with the segments that belong to no submodule. The two names agree
exactly when nothing continues the package: every name from the module outwards, up to the one that
anchors its package, has to be a submodule. Namespaces that only hold submodules are not made
submodules by themselves, so the condition may fail.
-/

namespace Bindery

open Api Dotted

namespace Package

variable {assembly root : String} {submodules : SortedMap Submodule}

/-- Whether packages start at a name: at the assembly, or at a submodule with a Python module. -/
def isAnchor (assembly : String) (submodules : SortedMap Submodule) (name : String) : Bool :=
  name = assembly || (submodules.find? name).any fun submodule => submodule.targets.python.isSome

/-- The names from `fqn` outwards that lie before the anchor of its package. -/
def unanchored (assembly : String) (submodules : SortedMap Submodule) (fqn : String) :
    List String :=
  (fqn :: ancestors fqn).takeWhile fun name => !isAnchor assembly submodules name

theorem unanchored_of_isAnchor {fqn : String} (h : isAnchor assembly submodules fqn = true) :
    unanchored assembly submodules fqn = [] := by
  simp [unanchored, h]

theorem unanchored_child {outer last : String} (hlast : Undotted last)
    (h : isAnchor assembly submodules (outer ++ "." ++ last) = false) :
    unanchored assembly submodules (outer ++ "." ++ last) =
      (outer ++ "." ++ last) :: unanchored assembly submodules outer := by
  rw [unanchored, ancestors_child outer hlast, List.takeWhile_cons, h]
  rfl

theorem Lies.tail_eq_nil_iff {fqn : String} {package tail : List String}
    (h : Lies assembly root submodules fqn package tail) :
    tail = [] ↔ ∀ name ∈ unanchored assembly submodules fqn, submodules.contains name = true := by
  induction h with
  | root =>
    rw [unanchored_of_isAnchor (by simp [isAnchor])]
    simp
  | configured hne hfind hpython hbelow =>
    rw [unanchored_of_isAnchor (by simp [isAnchor, hfind, hpython])]
    simp
  | plain hlast hne hfind hpython _ ih =>
    rw [unanchored_child hlast (by simp [isAnchor, hne, hfind, hpython]), ih]
    simp [SortedMap.contains, hfind]
  | inner hlast hne hfind =>
    rw [unanchored_child hlast (by simp [isAnchor, hne, hfind])]
    simp [SortedMap.contains, hfind]

theorem path_eq_package_iff (package : String) (tail : List String) :
    join (package :: tail.map Identifier.escape) = package ↔ tail = [] := by
  cases tail with
  | nil => simp [join_singleton]
  | cons segment tail =>
    have hjoin := join_append (List.cons_ne_nil package [])
      (List.cons_ne_nil (Identifier.escape segment) (tail.map Identifier.escape))
    rw [join_singleton] at hjoin
    have hlonger := length_lt_child package
      (join (Identifier.escape segment :: tail.map Identifier.escape))
    refine ⟨fun heq => ?_, fun heq => by cases heq⟩
    rw [← hjoin] at hlonger
    rw [List.map_cons] at heq
    simp [heq] at hlonger

end Package

namespace Model

/-- The path of a module is the package that the module is written to, exactly when all names
before the anchor of the package are submodules. -/
theorem path_eq_name_iff {a : Assembly} {dependencies : List Assembly} {m : Model}
    (hbuild : build a dependencies = .ok m) {place : Declaration} (hplace : place ∈ m.modules) :
    ∃ targets location python, Package.targetsOf m.assembly (head place.fqn) = .ok targets ∧
      m.locate place.fqn = .ok location ∧ m.pythonName place.fqn = .ok python ∧
      location.package = place.name ∧ python.package = place.name ∧
      (python.path = place.name ↔ location.tail = []) ∧
      (location.tail = [] ↔
        ∀ name ∈ Package.unanchored (head place.fqn) targets.submodules place.fqn,
          targets.submodules.contains name = true) := by
  obtain ⟨-, location, hlocation, hname⟩ := (faithful_of_build hbuild).of_mem_modules hplace
  obtain ⟨targets, root, package, tail, htargets, -, hlies, rfl⟩ :=
    Package.locate_eq_ok_iff.mp hlocation
  refine ⟨targets, _, _, htargets, hlocation, Outcome.bind_eq_ok.mpr ⟨_, hlocation, rfl⟩,
    hname.symm, hname.symm, ?_, hlies.tail_eq_nil_iff⟩
  rw [hname]
  exact Package.path_eq_package_iff _ tail

def deepModule (isClosed : Bool) : Assembly :=
  let a := (Assembly.ofModule "Acme" "1.0.0" "acme").withSubmodule "Acme.core.deep" none
  if isClosed then a.withSubmodule "Acme.core" none else a

def named (a : Assembly) (fqn : String) : Outcome (Model × Declaration × Package.PythonName) := do
  let m ← build a []
  return (m, ← m.declaration fqn, ← m.pythonName fqn)

theorem named_eq_ok {a : Assembly} {fqn : String} {m : Model} {d : Declaration}
    {python : Package.PythonName} (h : named a fqn = .ok (m, d, python)) (hd : d.isModule = true) :
    build a [] = .ok m ∧ d ∈ m.modules ∧ m.pythonName d.fqn = .ok python := by
  simp only [named, Outcome.bind_eq_ok, Outcome.pure_eq_ok, Prod.mk.injEq] at h
  obtain ⟨_, hbuild, _, hdeclaration, _, hpython, rfl, rfl, rfl⟩ := h
  have hlookup := lookup_of_declaration hdeclaration
  refine ⟨hbuild, mem_modules_iff.mpr ⟨⟨fqn, hlookup⟩, of_decide_eq_true hd⟩, ?_⟩
  rw [(faithful_of_build hbuild).fqn_eq hlookup]
  exact hpython

theorem deepModule_closed :
    ((named (deepModule true) "Acme.core.deep").toOption.map fun (m, d, _) =>
      (d.isModule, d.name, (m.locate d.fqn).toOption.map (·.tail))) =
        some (true, "acme.core.deep", some []) := by
  decide +kernel

theorem path_eq_name_iff_closed :
    ∃ m place python, build (deepModule true) [] = .ok m ∧ place ∈ m.modules ∧
      m.pythonName place.fqn = .ok python ∧ place.name = "acme.core.deep" ∧
      python.path = place.name := by
  obtain ⟨⟨m, place, python⟩, hnamed, hview⟩ := Outcome.exists_eq_ok_of_map deepModule_closed
  obtain ⟨hmodule, hname, htail⟩ : place.isModule = true ∧ place.name = "acme.core.deep" ∧
      (m.locate place.fqn).toOption.map (·.tail) = some [] := by simpa using hview
  obtain ⟨hbuild, hplace, hpython⟩ := named_eq_ok hnamed hmodule
  obtain ⟨_, location, _, -, hlocation, hpython', -, -, hpath, -⟩ :=
    path_eq_name_iff hbuild hplace
  obtain rfl := Except.ok.inj (hpython.symm.trans hpython')
  have hempty : location.tail = [] := by
    simpa [hlocation, Except.toOption] using htail
  exact ⟨m, place, python, hbuild, hplace, hpython, hname, hpath.mpr hempty⟩

theorem deepModule_open :
    ((named (deepModule false) "Acme.core.deep").toOption.map fun (_, d, python) =>
      (d.isModule, d.name, python.path)) = some (true, "acme.deep", "acme.deep.core") := by
  decide +kernel

theorem deepModule_two_names :
    ∃ m place python, build (deepModule false) [] = .ok m ∧ place ∈ m.modules ∧
      m.pythonName place.fqn = .ok python ∧ place.name = "acme.deep" ∧
      python.path = "acme.deep.core" ∧ python.path ≠ place.name := by
  obtain ⟨⟨m, place, python⟩, hnamed, hview⟩ := Outcome.exists_eq_ok_of_map deepModule_open
  obtain ⟨hmodule, hname, hpath⟩ : place.isModule = true ∧ place.name = "acme.deep" ∧
      python.path = "acme.deep.core" := by simpa using hview
  obtain ⟨hbuild, hplace, hpython⟩ := named_eq_ok hnamed hmodule
  refine ⟨m, place, python, hbuild, hplace, hpython, hname, hpath, ?_⟩
  rw [hname, hpath]
  decide

end Model

end Bindery
