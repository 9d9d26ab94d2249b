import Bindery.Binding.Module
import Bindery.Proofs.ImportPath
import Bindery.Proofs.ModuleNames

/-!
# Links inside a package

Every module of a package imports the loader by climbing once for each level that it lies below the
assembly, and imports each of its child modules from its own package. The levels are those of the
assembly, while the climbing is done in Python packages. So the loader is found exactly when both
have the same number of levels, and a child is found exactly when its package lies directly inside
that of its parent. A submodule with a Python module of its own may break either rule.
-/

namespace Bindery

open Api Dotted

namespace Package

variable {assembly root : String} {submodules : SortedMap Submodule}

theorem Lies.unique {fqn : String} {package tail package' tail' : List String}
    (h : Lies assembly root submodules fqn package tail)
    (h' : Lies assembly root submodules fqn package' tail') :
    package = package' ∧ tail = tail' := by
  induction h generalizing package' tail' with
  | root =>
    obtain ⟨rfl, rfl⟩ := (lies_assembly rfl).mp h'
    exact ⟨rfl, rfl⟩
  | configured hne hfind hpython _ =>
    obtain ⟨-, rfl, rfl⟩ := (lies_configured hne hfind hpython).mp h'
    exact ⟨rfl, rfl⟩
  | plain hlast hne hfind hpython _ ih =>
    obtain ⟨above, houter, rfl⟩ := (lies_plain hlast hne hfind hpython).mp h'
    obtain ⟨rfl, rfl⟩ := ih houter
    exact ⟨rfl, rfl⟩
  | inner hlast hne hfind _ ih =>
    obtain ⟨above, houter, rfl⟩ := (lies_inner hlast hne hfind).mp h'
    obtain ⟨rfl, rfl⟩ := ih houter
    exact ⟨rfl, rfl⟩

/-- The name where the package of `fqn` starts, and the Python module that stands there. -/
def anchor? (assembly root : String) (submodules : SortedMap Submodule) (fqn : String) :
    Option (String × String) :=
  (fqn :: ancestors fqn).findSome? fun name =>
    if name = assembly then some (name, root)
    else ((submodules.find? name).bind fun submodule => submodule.targets.python).map
      fun python => (name, python.module)

theorem anchor?_child {outer last : String} (hlast : Undotted last)
    (hne : outer ++ "." ++ last ≠ assembly)
    (hpython : ((submodules.find? (outer ++ "." ++ last)).bind
      fun submodule => submodule.targets.python) = none) :
    anchor? assembly root submodules (outer ++ "." ++ last) =
      anchor? assembly root submodules outer := by
  rw [anchor?, ancestors_child outer hlast, List.findSome?_cons, if_neg hne, hpython]
  rfl

/-- The names before the anchor that add no segment to the package: those that are no submodules
and those that end in an empty segment. -/
def unspelled (assembly : String) (submodules : SortedMap Submodule) (fqn : String) :
    List String :=
  (unanchored assembly submodules fqn).filter fun name =>
    !submodules.contains name || last name = ""

theorem unspelled_child {outer last : String} (hlast : Undotted last)
    (h : isAnchor assembly submodules (outer ++ "." ++ last) = false) :
    (unspelled assembly submodules (outer ++ "." ++ last)).length =
      (if submodules.contains (outer ++ "." ++ last) = true ∧ last ≠ "" then 0 else 1) +
        (unspelled assembly submodules outer).length := by
  rw [unspelled, unanchored_child hlast h, List.filter_cons, last_child outer hlast, unspelled]
  by_cases hspelled : submodules.contains (outer ++ "." ++ last) = true ∧ last ≠ ""
  · simp [hspelled]
  · have hkept : (!submodules.contains (outer ++ "." ++ last) || decide (last = "")) = true := by
      by_cases hcontains : submodules.contains (outer ++ "." ++ last) = true
      · have hempty : last = "" := by simpa [hcontains] using hspelled
        simp [hempty]
      · simp [hcontains]
    rw [if_pos hkept, if_neg hspelled, List.length_cons, Nat.add_comm]

theorem length_parts_spelling {last : String} (hlast : Undotted last) :
    (parts (Identifier.snake (Identifier.escape last))).length = if last = "" then 0 else 1 := by
  by_cases hempty : last = ""
  · rw [if_pos hempty, Identifier.snake_escape_eq_empty_iff.mpr hempty, parts_empty]
    rfl
  · rw [if_neg hempty, parts_of_undotted
      (Identifier.undotted_snake (Identifier.undotted_escape hlast))
      (mt Identifier.snake_escape_eq_empty_iff.mp hempty)]
    rfl

theorem parts_join_snoc {package : List String} (hne : package ≠ []) (last : String) :
    parts (join (package ++ [last])) = parts (join package) ++ parts last := by
  rw [join_snoc hne, parts_child]

theorem Lies.parts_root {fqn : String} {package tail : List String}
    (h : Lies assembly root submodules fqn package tail) : parts root <+: parts (join package) := by
  induction h with
  | root => exact (join_singleton root).symm ▸ List.prefix_rfl
  | configured _ _ _ hbelow =>
    obtain ⟨rest, hrest⟩ := isBelow_iff.mp hbelow
    rw [join_singleton, hrest, parts_child]
    exact List.prefix_append _ _
  | plain _ _ _ _ houter ih =>
    rw [parts_join_snoc houter.package_ne_nil]
    exact ih.trans (List.prefix_append _ _)
  | inner _ _ _ _ ih => exact ih

theorem Lies.length_parts {fqn : String} {package tail : List String}
    (h : Lies assembly root submodules fqn package tail) :
    ∃ anchor module, anchor? assembly root submodules fqn = some (anchor, module) ∧
      (parts (join package)).length + (unspelled assembly submodules fqn).length + depth anchor =
        (parts module).length + depth fqn := by
  induction h with
  | root =>
    refine ⟨assembly, root, by simp [anchor?], ?_⟩
    rw [join_singleton, unspelled, unanchored_of_isAnchor (by simp [isAnchor])]
    rfl
  | @configured fqn _ python hne hfind hpython _ =>
    refine ⟨fqn, python.module, by simp [anchor?, hne, hfind, hpython], ?_⟩
    rw [join_singleton, unspelled,
      unanchored_of_isAnchor (by simp [isAnchor, hfind, hpython])]
    rfl
  | @plain outer last _ _ _ hlast hne hfind hpython houter ih =>
    obtain ⟨anchor, module, hanchor, hlevels⟩ := ih
    refine ⟨anchor, module, ?_, ?_⟩
    · rw [anchor?_child hlast hne (by simp [hfind, hpython]), hanchor]
    · have hcontains : submodules.contains (outer ++ "." ++ last) = true := by
        simp [SortedMap.contains, hfind]
      rw [parts_join_snoc houter.package_ne_nil, List.length_append, length_parts_spelling hlast,
        unspelled_child hlast (by simp [isAnchor, hne, hfind, hpython]), depth_child _ hlast]
      -- An empty segment is spelled by nothing, so its submodule adds no level.
      by_cases hempty : last = ""
      · rw [if_pos hempty, if_neg fun hspelled => hspelled.2 hempty]
        omega
      · rw [if_neg hempty, if_pos ⟨hcontains, hempty⟩]
        omega
  | inner hlast hne hfind _ ih =>
    obtain ⟨anchor, module, hanchor, hlevels⟩ := ih
    refine ⟨anchor, module, ?_, ?_⟩
    · rw [anchor?_child hlast hne (by simp [hfind]), hanchor]
    · rw [unspelled_child hlast (by simp [isAnchor, hne, hfind]), depth_child _ hlast,
        if_neg (by simp [SortedMap.contains, hfind])]
      omega

end Package

theorem Model.Faithful.lies_of_own {m : Model} (hm : m.Faithful) {d : Declaration}
    (h : d ∈ m.modules) (hown : head d.fqn = m.assembly.name) :
    ∃ root package tail, Package.rootModule m.assembly m.assembly.name = .ok root ∧
      Package.Lies m.assembly.name root m.assembly.submodules d.fqn package tail ∧
      d.name = join package := by
  obtain ⟨-, location, hlocation, hname⟩ := hm.of_mem_modules h
  obtain ⟨python, hpython, hpackage⟩ : ∃ python, m.pythonName d.fqn = .ok python ∧
      python.package = location.package :=
    ⟨_, Outcome.bind_eq_ok.mpr ⟨location, hlocation, rfl⟩, rfl⟩
  obtain ⟨root, package, tail, hroot, hlies, rfl⟩ :=
    (Package.pythonName_own_eq_ok_iff hown).mp hpython
  exact ⟨root, package, tail, hroot, hlies, hname.trans hpackage.symm⟩

theorem Model.Faithful.parent_of_mem_modules {m : Model} (hm : m.Faithful) {d : Declaration}
    (h : d ∈ m.modules) (hne : d.fqn ≠ m.assembly.name) : d.parent = parent d.fqn := by
  obtain ⟨⟨k, hk⟩, -⟩ := mem_modules_iff.mp h
  obtain ⟨bare, hdeclares, -, rfl⟩ := hm.lookup k d hk
  cases hdeclares with
  | root hroot =>
    simp only [rootDeclaration, Outcome.bind_eq_ok, Outcome.pure_eq_ok] at hroot
    obtain ⟨location, -, rfl⟩ := hroot
    exact absurd rfl hne
  | submodule _ hsubmodule =>
    simp only [submoduleDeclaration, Outcome.bind_eq_ok, Outcome.pure_eq_ok] at hsubmodule
    obtain ⟨location, -, rfl⟩ := hsubmodule
    rfl
  | type _ htype =>
    simp only [typeDeclaration, Outcome.bind_eq_ok, Outcome.pure_eq_ok] at htype
    obtain ⟨_, -, rfl⟩ := htype
    rfl

namespace Binding

variable {m : Model} {place : Declaration}

theorem moduleDepth_of_own (hown : head place.fqn = m.assembly.name) :
    moduleDepth m.toCatalog place = depth place.fqn := by
  obtain ⟨rest, hrest⟩ := exists_eq_head_append place.fqn
  rw [hown] at hrest
  have hundotted : Undotted m.assembly.name := hown ▸ undotted_head place.fqn
  have hafter : Text.after? m.assembly.name place.fqn = some rest :=
    Text.after?_eq_some_iff.mpr hrest
  simp only [moduleDepth, hafter]
  rw [depth, hrest, String.toList_append, List.count_append, List.count_eq_zero.mpr hundotted,
    Nat.zero_add]

theorem absolute_loaderPath (c : Catalog) (place : Declaration) :
    ImportPath.absolute place.name (loaderPath c place) =
      join ((parts place.name).take ((parts place.name).length - moduleDepth c place) ++
        ["_jsii"]) := by
  rw [loaderPath, ImportPath.absolute_climbing _ _ (by decide), if_neg (by decide)]

def FindsLoader (m : Model) (place : Declaration) : Prop :=
  m.loader = .ok (ImportPath.absolute place.name (loaderPath m.toCatalog place))

theorem findsLoader_iff :
    FindsLoader m place ↔
      ∃ root, Package.rootModule m.assembly m.assembly.name = .ok root ∧ Proper root ∧
        segments root <+: parts place.name ∧
        (parts place.name).length = (segments root).length + moduleDepth m.toCatalog place := by
  have hkept : ∀ text ∈ (parts place.name).take
      ((parts place.name).length - moduleDepth m.toCatalog place), Undotted text ∧ text ≠ "" :=
    fun text htext => spec_of_mem_parts (List.mem_of_mem_take htext)
  have hloader : ∀ root : String, root ++ "._jsii" = root ++ "." ++ "_jsii" := fun root => by
    rw [String.append_assoc]
    rfl
  rw [FindsLoader, Catalog.loader, Outcome.bind_eq_ok, absolute_loaderPath]
  simp only [Outcome.pure_eq_ok]
  refine exists_congr fun root => and_congr_right fun _ => ?_
  rw [hloader, eq_comm, join_snoc_eq_child_iff hkept root (by decide)]
  refine and_congr_right fun _ => ?_
  have hpos : 0 < (segments root).length := List.length_pos_iff.mpr (segments_ne_nil root)
  constructor
  · intro htake
    have hlength := congrArg List.length htake
    rw [List.length_take] at hlength
    exact ⟨htake ▸ List.take_prefix _ _, by omega⟩
  · rintro ⟨hstart, hlength⟩
    have hlevels : (parts place.name).length - moduleDepth m.toCatalog place =
        (segments root).length := by omega
    rw [hlevels]
    exact List.prefix_iff_eq_take.mp hstart

theorem loader_line_mem {checks : Bool} {script : Script}
    (h : moduleScript m checks place = .ok script) :
    line ("from " ++ loaderPath m.toCatalog place ++ " import *") ∈ script := by
  rw [moduleScript] at h
  split at h
  · simp only [Outcome.bind_eq_ok, Outcome.pure_eq_ok] at h
    obtain ⟨imports, -, members, -, types, -, rfl⟩ := h
    simp
  · cases h

/-- A module finds the loader exactly when its package has as many levels below the Python module
of the assembly as the module has below the assembly. For a module of the assembly itself this
depends on the anchor of its package alone: the Python module there has to lie as deep as the
anchor, and deeper by one level for every name behind it that adds no segment. -/
theorem loader_found_iff {a : Assembly} {dependencies : List Assembly}
    (hbuild : Model.build a dependencies = .ok m) (hplace : place ∈ m.modules) :
    (∀ checks script, moduleScript m checks place = .ok script →
      line ("from " ++ loaderPath m.toCatalog place ++ " import *") ∈ script) ∧
    (FindsLoader m place ↔
      ∃ root, Package.rootModule m.assembly m.assembly.name = .ok root ∧ Proper root ∧
        segments root <+: parts place.name ∧
        (parts place.name).length = (segments root).length + moduleDepth m.toCatalog place) ∧
    (head place.fqn = m.assembly.name → ∃ root anchor module,
      Package.rootModule m.assembly m.assembly.name = .ok root ∧
      Package.anchor? m.assembly.name root m.assembly.submodules place.fqn =
        some (anchor, module) ∧
      (FindsLoader m place ↔ Proper root ∧
        (parts module).length = (segments root).length + depth anchor +
          (Package.unspelled m.assembly.name m.assembly.submodules place.fqn).length)) := by
  refine ⟨fun checks script => loader_line_mem, findsLoader_iff, fun hown => ?_⟩
  obtain ⟨root, package, tail, hroot, hlies, hname⟩ :=
    (Model.faithful_of_build hbuild).lies_of_own hplace hown
  obtain ⟨anchor, module, hanchor, hlevels⟩ := hlies.length_parts
  refine ⟨root, anchor, module, hroot, hanchor, ?_⟩
  rw [findsLoader_iff, moduleDepth_of_own hown, hname]
  constructor
  · intro ⟨root', hroot', hproper, _, hlength⟩
    obtain rfl := Except.ok.inj (hroot.symm.trans hroot')
    exact ⟨hproper, by omega⟩
  · intro ⟨hproper, hlength⟩
    exact ⟨root, hroot, hproper, parts_of_proper hproper ▸ hlies.parts_root, by omega⟩

def coreAt (module : String) : Assembly :=
  ((Assembly.ofModule "Acme" "1.0.0" "acme").withSubmodule "Acme.core" (some module)).withSubmodule
    "Acme.core.deep" none

def located (a : Assembly) (outer inner : String) :
    Outcome (Model × Declaration × Declaration) := do
  let m ← Model.build a []
  return (m, ← m.declaration outer, ← m.declaration inner)

theorem located_eq_ok {a : Assembly} {outer inner : String} {child : Declaration}
    (h : located a outer inner = .ok (m, place, child)) (hplace : place.isModule = true)
    (hchild : child.isModule = true) :
    Model.build a [] = .ok m ∧ place ∈ m.modules ∧ child ∈ m.modules := by
  simp only [located, Outcome.bind_eq_ok, Outcome.pure_eq_ok, Prod.mk.injEq] at h
  obtain ⟨_, hbuild, _, houter, _, hinner, rfl, rfl, rfl⟩ := h
  refine ⟨hbuild, Model.mem_modules_iff.mpr ⟨⟨outer, ?_⟩, of_decide_eq_true hplace⟩,
    Model.mem_modules_iff.mpr ⟨⟨inner, ?_⟩, of_decide_eq_true hchild⟩⟩
  · exact Model.lookup_of_declaration houter
  · exact Model.lookup_of_declaration hinner

theorem located_coreAt_beside :
    ((located (coreAt "acme.core_lib") "Acme.core" "Acme.core.deep").toOption.map
      fun (m, place, child) =>
        ((place.isModule && child.isModule && head child.fqn = m.assembly.name : Bool),
          (Package.rootModule m.assembly m.assembly.name).toOption,
          Package.anchor? m.assembly.name "acme" m.assembly.submodules child.fqn,
          (Package.unspelled m.assembly.name m.assembly.submodules child.fqn).length)) =
      some (true, some "acme", some ("Acme.core", "acme.core_lib"), 0) := by
  decide +kernel

theorem loader_found_iff_beside :
    ∃ m place, Model.build (coreAt "acme.core_lib") [] = .ok m ∧ place ∈ m.modules ∧
      Package.anchor? m.assembly.name "acme" m.assembly.submodules place.fqn =
        some ("Acme.core", "acme.core_lib") ∧ FindsLoader m place := by
  obtain ⟨⟨m, outer, place⟩, hlocated, hview⟩ := Outcome.exists_eq_ok_of_map located_coreAt_beside
  simp only [Prod.mk.injEq, Bool.and_eq_true, decide_eq_true_eq] at hview
  obtain ⟨⟨⟨houter, hmodule⟩, hown⟩, hroot, hanchor, hspelled⟩ := hview
  obtain ⟨hbuild, -, hplace⟩ := located_eq_ok hlocated houter hmodule
  obtain ⟨root, anchor, module, hroot', hanchor', hfound⟩ :=
    (loader_found_iff hbuild hplace).2.2 hown
  obtain rfl := Except.ok.inj ((Outcome.eq_ok_of_toOption hroot).symm.trans hroot')
  obtain ⟨rfl, rfl⟩ := Prod.mk.inj (Option.some.inj (hanchor.symm.trans hanchor'))
  refine ⟨m, place, hbuild, hplace, hanchor, hfound.mpr ⟨by decide +kernel, ?_⟩⟩
  rw [hspelled]
  decide +kernel

theorem located_coreAt_below :
    ((located (coreAt "acme.lib.core") "Acme" "Acme.core").toOption.map
      fun (m, place, child) => ((place.isModule && child.isModule : Bool), m.loader.toOption,
        ImportPath.absolute child.name (loaderPath m.toCatalog child))) =
      some (true, some "acme._jsii", "acme.lib._jsii") := by
  decide +kernel

theorem loader_not_found_below :
    ∃ m place, Model.build (coreAt "acme.lib.core") [] = .ok m ∧ place ∈ m.modules ∧
      m.loader = .ok "acme._jsii" ∧
      ImportPath.absolute place.name (loaderPath m.toCatalog place) = "acme.lib._jsii" ∧
      ¬ FindsLoader m place := by
  obtain ⟨⟨m, outer, place⟩, hlocated, hview⟩ := Outcome.exists_eq_ok_of_map located_coreAt_below
  simp only [Prod.mk.injEq, Bool.and_eq_true] at hview
  obtain ⟨⟨houter, hmodule⟩, hloader, hpath⟩ := hview
  obtain ⟨hbuild, -, hplace⟩ := located_eq_ok hlocated houter hmodule
  have hloader' := Outcome.eq_ok_of_toOption hloader
  refine ⟨m, place, hbuild, hplace, hloader', hpath, fun hfound => ?_⟩
  rw [FindsLoader, hpath, hloader'] at hfound
  exact absurd (Except.ok.inj hfound) (by decide)

theorem child_line_mem {checks : Bool} {script : Script} {child : Declaration}
    (h : moduleScript m checks place = .ok script) (hchild : child ∈ m.children place) :
    line ("from . import " ++ (childOf place child).relative) ∈ script := by
  have hin : childOf place child ∈ childModules m place :=
    List.mem_map_of_mem (List.mem_mergeSort.mpr hchild)
  have hline : line ("from . import " ++ (childOf place child).relative) ∈
      childScript (childModules m place) := by
    rw [childScript, if_neg (by simpa using List.ne_nil_of_mem hin)]
    exact List.mem_append_right _ (List.mem_map_of_mem hin)
  rw [moduleScript] at h
  split at h
  · simp only [Outcome.bind_eq_ok, Outcome.pure_eq_ok] at h
    obtain ⟨imports, -, members, -, types, -, rfl⟩ := h
    simp [hline]
  · cases h

variable {child : Declaration}

theorem relative_childOf_of_below {rest : String} (h : child.name = place.name ++ "." ++ rest) :
    (childOf place child).relative = rest := by
  have hafter : Text.after? (place.name ++ ".") child.name = some rest :=
    Text.after?_eq_some_iff.mpr h
  simp only [childOf, hafter, Option.getD_some]

theorem relative_childOf_of_not_below (h : ¬ isBelow place.name child.name = true) :
    (childOf place child).relative = last child.name := by
  have hafter : Text.after? (place.name ++ ".") child.name = none := by
    simpa [isBelow, below?] using h
  simp only [childOf, hafter, Option.getD_none]

theorem relative_childOf_ne_empty (h : Proper child.name) :
    (childOf place child).relative ≠ "" := by
  by_cases hbelow : isBelow place.name child.name = true
  · obtain ⟨rest, hrest⟩ := isBelow_iff.mp hbelow
    rw [relative_childOf_of_below hrest]
    rw [hrest] at h
    exact (proper_child.mp h).2.ne_empty
  · rw [relative_childOf_of_not_below hbelow]
    exact h.last_ne_empty

/-- The statement that imports a child names the child: what it imports is a single name, and that
name in the package of the module is the child. -/
def FindsChild (place child : Declaration) : Prop :=
  Undotted (childOf place child).relative ∧
    ImportPath.absolute place.name ("." ++ (childOf place child).relative) = child.name

theorem isPath_of_findsChild (h : FindsChild place child) :
    IsPath child.name ∧ parent child.name = ImportPath.absolute place.name "." := by
  obtain ⟨hundotted, hname⟩ := h
  rw [ImportPath.absolute_inside place.name hundotted] at hname
  rw [ImportPath.absolute_dot]
  by_cases hempty : (childOf place child).relative = ""
  · rw [if_pos hempty, List.append_nil] at hname
    by_cases hnil : parts place.name = []
    · rw [hnil] at hname ⊢
      rw [← hname]
      exact ⟨.inl rfl, rfl⟩
    · have hproper : Proper child.name :=
        hname ▸ proper_join_of_spec hnil fun _ => spec_of_mem_parts
      exact absurd hempty (relative_childOf_ne_empty hproper)
  · rw [if_neg hempty] at hname
    rw [← hname]
    refine ⟨.inr (proper_join_of_spec (by simp) fun part hin => ?_),
      parent_join_snoc _ hundotted⟩
    rcases List.mem_append.mp hin with hin | hin
    · exact spec_of_mem_parts hin
    · exact List.mem_singleton.mp hin ▸ ⟨hundotted, hempty⟩

theorem name_eq_of_parent (hproper : Proper child.name)
    (hparent : parent child.name = join (parts place.name)) :
    child.name = join (parts place.name ++ [last child.name]) := by
  by_cases hundotted : Undotted child.name
  · rw [parent_of_undotted hundotted] at hparent
    have hnil : parts place.name = [] := by
      by_contra hne
      exact (proper_join_of_spec hne fun _ => spec_of_mem_parts).ne_empty hparent.symm
    rw [hnil, List.nil_append, join_singleton, last_of_undotted hundotted]
  · obtain ⟨outer, inner, hinner, hchild⟩ := exists_child hundotted
    rw [hchild] at hproper hparent ⊢
    rw [parent_child outer hinner] at hparent
    have hne : parts place.name ≠ [] := by
      intro hnil
      rw [hnil] at hparent
      exact (proper_child.mp hproper).1.ne_empty hparent
    rw [last_child outer hinner, join_snoc hne, ← hparent]

theorem relative_childOf_eq_last (hproper : Proper child.name)
    (hname : child.name = join (parts place.name ++ [last child.name])) :
    (childOf place child).relative = last child.name := by
  by_cases hbelow : isBelow place.name child.name = true
  · obtain ⟨rest, hrest⟩ := isBelow_iff.mp hbelow
    have hplace : Proper place.name := (proper_child.mp (hrest ▸ hproper)).1
    rw [parts_of_proper hplace, join_snoc (segments_ne_nil _), join_segments] at hname
    rw [relative_childOf_of_below hrest]
    exact child_inj_left (hrest.symm.trans hname)
  · exact relative_childOf_of_not_below hbelow

theorem findsChild_iff :
    FindsChild place child ↔
      IsPath child.name ∧ parent child.name = ImportPath.absolute place.name "." := by
  refine ⟨isPath_of_findsChild, fun ⟨hpath, hparent⟩ => ?_⟩
  rw [ImportPath.absolute_dot] at hparent
  rcases hpath with hempty | hproper
  · rw [hempty, parent_empty] at hparent
    have hbelow : ¬ isBelow place.name child.name = true := by
      intro hbelow
      obtain ⟨rest, hrest⟩ := isBelow_iff.mp hbelow
      exact absurd (congrArg String.toList (hempty.symm.trans hrest)) (by simp)
    have hrelative : (childOf place child).relative = "" := by
      rw [relative_childOf_of_not_below hbelow, hempty]
      rfl
    have hundotted : Undotted "" := by simp [Undotted]
    rw [FindsChild, hrelative, ImportPath.absolute_inside _ hundotted, if_pos rfl,
      List.append_nil, hempty]
    exact ⟨hundotted, hparent.symm⟩
  · have hname := name_eq_of_parent hproper hparent
    rw [FindsChild, relative_childOf_eq_last hproper hname,
      ImportPath.absolute_inside _ (undotted_last _), if_neg hproper.last_ne_empty]
    exact ⟨undotted_last _, hname.symm⟩

theorem findsChild_of_spelled {last : String} (hlast : Undotted last)
    (hname : child.name = place.name ++ "." ++ last) :
    FindsChild place child ↔ Proper place.name ∧ last ≠ "" := by
  have hne : child.name ≠ "" := by
    rw [hname]
    simp
  rw [findsChild_iff, IsPath, or_iff_right hne, hname, proper_child, parent_child _ hlast,
    ImportPath.absolute_dot, proper_of_undotted hlast]
  refine ⟨fun h => h.1, fun h => ⟨h, ?_⟩⟩
  rw [parts_of_proper h.1, join_segments]

theorem mem_children_iff :
    child ∈ m.children place ↔
      child ∈ m.modules ∧ child.parent = place.fqn ∧ child.fqn ≠ place.fqn := by
  simp [Model.children]

section Named

variable {submodule : Submodule} (hm : m.Faithful) (hmodule : child ∈ m.modules)
  (hown : head child.fqn = m.assembly.name) (hne : child.fqn ≠ m.assembly.name)
  (hfind : m.assembly.submodules.find? child.fqn = some submodule)

include hm hmodule hown hne hfind

theorem name_of_plain (hplace : place ∈ m.modules) (hparent : child.parent = place.fqn)
    (hpython : submodule.targets.python = none) :
    child.name = place.name ++ "." ++
      Identifier.snake (Identifier.escape (last child.fqn)) := by
  obtain ⟨outer, inner, hinner, hfqn⟩ : ∃ outer inner, Undotted inner ∧
      child.fqn = outer ++ "." ++ inner := by
    apply exists_child
    intro hundotted
    exact hne (head_of_undotted hundotted ▸ hown)
  obtain rfl : outer = place.fqn := by
    rw [← hparent, hm.parent_of_mem_modules hmodule hne, hfqn, parent_child outer hinner]
  obtain ⟨root, package, tail, hroot, hlies, hname⟩ := hm.lies_of_own hmodule hown
  rw [hfqn] at hlies hfind hown hne
  obtain ⟨above, habove, rfl⟩ := (Package.lies_plain hinner hne hfind hpython).mp hlies
  rw [head_append] at hown
  obtain ⟨root', package', tail', hroot', hlies', hname'⟩ := hm.lies_of_own hplace hown
  obtain rfl := Except.ok.inj (hroot.symm.trans hroot')
  obtain ⟨rfl, -⟩ := habove.unique hlies'
  rw [hname, join_snoc habove.package_ne_nil, hname', hfqn, last_child place.fqn hinner]

theorem name_of_configured {python : PythonTarget}
    (hpython : submodule.targets.python = some python) :
    child.name = python.module ∧ python.module ≠ "" := by
  obtain ⟨root, package, tail, -, hlies, hname⟩ := hm.lies_of_own hmodule hown
  obtain ⟨hbelow, rfl, -⟩ := (Package.lies_configured hne hfind hpython).mp hlies
  refine ⟨hname.trans (join_singleton _), ?_⟩
  obtain ⟨rest, hrest⟩ := isBelow_iff.mp hbelow
  rw [hrest]
  simp

end Named

/-- A module imports each of its children, and finds it exactly when the name of the child has no
empty segment and lies directly in the package of the module. A child of the assembly without a
Python module of its own lies there; a child with one is found only if that module does. -/
theorem child_found_iff {a : Assembly} {dependencies : List Assembly}
    (hbuild : Model.build a dependencies = .ok m) (hplace : place ∈ m.modules)
    (hchild : child ∈ m.children place) :
    (∀ checks script, moduleScript m checks place = .ok script →
      line ("from . import " ++ (childOf place child).relative) ∈ script) ∧
    (FindsChild place child ↔
      IsPath child.name ∧ parent child.name = ImportPath.absolute place.name ".") ∧
    (head child.fqn = m.assembly.name → child.fqn ≠ m.assembly.name → ∃ submodule,
      m.assembly.submodules.find? child.fqn = some submodule ∧
      (submodule.targets.python = none →
        child.name = place.name ++ "." ++
          Identifier.snake (Identifier.escape (last child.fqn)) ∧
        (FindsChild place child ↔ Proper place.name ∧ last child.fqn ≠ "")) ∧
      ∀ python, submodule.targets.python = some python →
        child.name = python.module ∧
        (FindsChild place child ↔ Proper python.module ∧
          parent python.module = ImportPath.absolute place.name ".")) := by
  refine ⟨fun checks script h => child_line_mem h hchild, findsChild_iff, fun hown hne => ?_⟩
  have hm := Model.faithful_of_build hbuild
  obtain ⟨hmodule, hparent, -⟩ := mem_children_iff.mp hchild
  have hkey : child.fqn ∈ m.assembly.submodules.keys :=
    (hm.of_mem_modules hmodule).1.resolve_left hne
  obtain ⟨submodule, hfind⟩ := Option.isSome_iff_exists.mp (SortedMap.contains_iff.mpr hkey)
  refine ⟨submodule, hfind, fun hpython => ?_, fun python hpython => ?_⟩
  · have hname := name_of_plain hm hmodule hown hne hfind hplace hparent hpython
    refine ⟨hname, ?_⟩
    rw [findsChild_of_spelled
      (Identifier.undotted_snake (Identifier.undotted_escape (undotted_last child.fqn))) hname, Ne,
      Identifier.snake_escape_eq_empty_iff]
  · obtain ⟨hname, hnonempty⟩ := name_of_configured hm hmodule hown hne hfind hpython
    rw [findsChild_iff, IsPath, hname, or_iff_right hnonempty]
    exact ⟨rfl, Iff.rfl⟩

theorem located_coreAt_child :
    ((located (coreAt "acme.core_lib") "Acme" "Acme.core").toOption.map fun (m, place, child) =>
      ((place.isModule && child.isModule && child.parent = place.fqn && child.fqn ≠ place.fqn &&
        head child.fqn = m.assembly.name && child.fqn ≠ m.assembly.name : Bool), place.name,
        ((m.assembly.submodules.find? child.fqn).bind (·.targets.python)).map (·.module))) =
      some (true, "acme", some "acme.core_lib") := by
  decide +kernel

theorem child_found_iff_beside :
    ∃ m place child, Model.build (coreAt "acme.core_lib") [] = .ok m ∧ place ∈ m.modules ∧
      child ∈ m.children place ∧ child.name = "acme.core_lib" ∧ FindsChild place child := by
  obtain ⟨⟨m, place, child⟩, hlocated, hview⟩ := Outcome.exists_eq_ok_of_map located_coreAt_child
  simp only [Prod.mk.injEq, Bool.and_eq_true, decide_eq_true_eq] at hview
  obtain ⟨⟨⟨⟨⟨⟨hplace, hmodule⟩, hparent⟩, hne⟩, hown⟩, hname⟩, hhome, htarget⟩ := hview
  obtain ⟨hbuild, hplace, hmodule⟩ := located_eq_ok hlocated hplace hmodule
  have hchild : child ∈ m.children place := mem_children_iff.mpr ⟨hmodule, hparent, hne⟩
  obtain ⟨submodule, hfind, -, hconfigured⟩ :=
    (child_found_iff hbuild hplace hchild).2.2 hown hname
  rw [hfind, Option.bind_some, Option.map_eq_some_iff] at htarget
  obtain ⟨python, hpython, htarget⟩ := htarget
  obtain ⟨hspelled, hfound⟩ := hconfigured python hpython
  refine ⟨m, place, child, hbuild, hplace, hchild, hspelled.trans htarget, hfound.mpr ?_⟩
  rw [htarget, hhome]
  decide +kernel

theorem located_coreAt_dotted :
    ((located (coreAt "acme.lib.core") "Acme" "Acme.core").toOption.map fun (_, place, child) =>
      ((place.isModule && child.isModule && child.parent = place.fqn && child.fqn ≠ place.fqn :
        Bool), child.name, (childOf place child).relative)) =
      some (true, "acme.lib.core", "lib.core") := by
  decide +kernel

theorem child_not_found_below :
    ∃ m place child, Model.build (coreAt "acme.lib.core") [] = .ok m ∧ place ∈ m.modules ∧
      child ∈ m.children place ∧ child.name = "acme.lib.core" ∧
      (childOf place child).relative = "lib.core" ∧ ¬ FindsChild place child := by
  obtain ⟨⟨m, place, child⟩, hlocated, hview⟩ := Outcome.exists_eq_ok_of_map located_coreAt_dotted
  simp only [Prod.mk.injEq, Bool.and_eq_true, decide_eq_true_eq] at hview
  obtain ⟨⟨⟨⟨hplace, hmodule⟩, hparent⟩, hne⟩, hname, hrelative⟩ := hview
  obtain ⟨hbuild, hplace, hmodule⟩ := located_eq_ok hlocated hplace hmodule
  have hchild : child ∈ m.children place := mem_children_iff.mpr ⟨hmodule, hparent, hne⟩
  refine ⟨m, place, child, hbuild, hplace, hchild, hname, hrelative, fun hfound => ?_⟩
  exact absurd (hrelative ▸ hfound.1) (by decide)

end Binding

end Bindery
