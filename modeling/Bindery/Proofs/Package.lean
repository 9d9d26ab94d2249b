import Bindery.Name.Package
import Bindery.Proofs.Collection
import Bindery.Proofs.Identifier
import Bindery.Proofs.Outcome

/-!
# Theory of packages

`Package.walk` reads a name from its end and collects the parts of its package on the way. The
relation `Package.Lies` says the same from the outermost segment on: where a name lies follows
from where the name around it lies. The walk computes this relation, and the facts about
packages are proved along it.
-/

namespace Bindery

namespace Api

def Targets.modules (t : Targets) : List String := (t.python.map (·.module)).toList

def DependencyTargets.modules (d : DependencyTargets) : List String :=
  d.targets.modules ++ d.submodules.values.flatMap fun submodule => submodule.targets.modules

def Assembly.configuredModules (a : Assembly) : List String :=
  DependencyTargets.modules { targets := a.targets, submodules := a.submodules } ++
    a.closure.values.flatMap DependencyTargets.modules

open Dotted in
/-- An assembly whose names fit together: types stand under their own names and inside the
assembly, no type is a submodule, every namespace around a submodule is one as well, and no
segment of a name is empty. -/
structure Assembly.WellFormed (a : Assembly) : Prop where
  name_undotted : Undotted a.name
  name_ne_empty : a.name ≠ ""
  keyed : ∀ entry ∈ a.types.entries, entry.2.fqn = entry.1
  below : ∀ key ∈ a.types.keys, isBelow a.name key = true
  disjoint : ∀ key ∈ a.types.keys, key ∉ a.submodules.keys
  closed : ∀ key ∈ a.submodules.keys, ∀ outer ∈ ancestors key,
    outer = "" ∨ outer = a.name ∨ outer ∈ a.submodules.keys
  submodules_proper : ∀ key ∈ a.submodules.keys, Proper key
  modules_proper : ∀ module ∈ a.configuredModules, Proper module

open Dotted in
theorem Assembly.wellFormed_iff {a : Assembly} :
    a.WellFormed ↔ Undotted a.name ∧ a.name ≠ "" ∧
      (∀ entry ∈ a.types.entries, entry.2.fqn = entry.1) ∧
      (∀ key ∈ a.types.keys, isBelow a.name key = true) ∧
      (∀ key ∈ a.types.keys, key ∉ a.submodules.keys) ∧
      (∀ key ∈ a.submodules.keys, ∀ outer ∈ ancestors key,
        outer = "" ∨ outer = a.name ∨ outer ∈ a.submodules.keys) ∧
      (∀ key ∈ a.submodules.keys, Proper key) ∧ ∀ module ∈ a.configuredModules, Proper module :=
  ⟨fun ⟨h₁, h₂, h₃, h₄, h₅, h₆, h₇, h₈⟩ => ⟨h₁, h₂, h₃, h₄, h₅, h₆, h₇, h₈⟩,
    fun ⟨h₁, h₂, h₃, h₄, h₅, h₆, h₇, h₈⟩ => ⟨h₁, h₂, h₃, h₄, h₅, h₆, h₇, h₈⟩⟩

instance (a : Assembly) : Decidable a.WellFormed := decidable_of_iff' _ Assembly.wellFormed_iff

namespace Assembly.WellFormed

open Dotted

variable {a : Assembly}

theorem exists_type (h : a.WellFormed) {key : String} (hkey : key ∈ a.types.keys) :
    ∃ entry ∈ a.types.values, entry.fqn = key := by
  obtain ⟨entry, hentry, rfl⟩ := List.mem_map.mp hkey
  exact ⟨entry.2, List.mem_map_of_mem hentry, h.keyed entry hentry⟩

theorem fqn_mem_keys (h : a.WellFormed) {entry : TypeEntry} (hentry : entry ∈ a.types.values) :
    entry.fqn ∈ a.types.keys := by
  obtain ⟨pair, hpair, rfl⟩ := List.mem_map.mp hentry
  rw [h.keyed pair hpair]
  exact List.mem_map_of_mem hpair

theorem find?_submodule (h : a.WellFormed) {key : String} (hkey : key ∈ a.types.keys) :
    a.submodules.find? key = none := by
  rw [← Option.not_isSome_iff_eq_none]
  exact fun hsome => h.disjoint key hkey (SortedMap.contains_iff.mp hsome)

theorem closed_parent (h : a.WellFormed) {outer last : String} (hlast : Undotted last)
    (hkey : a.submodules.contains (outer ++ "." ++ last) = true) :
    outer = a.name ∨ a.submodules.contains outer = true := by
  rw [SortedMap.contains_iff] at hkey
  have hproper := (proper_child.mp (h.submodules_proper _ hkey)).1
  have hancestor : outer ∈ ancestors (outer ++ "." ++ last) := by
    simp [ancestors_child outer hlast]
  rcases h.closed _ hkey outer hancestor with hempty | hname | hsubmodule
  · exact absurd hempty hproper.ne_empty
  · exact .inl hname
  · exact .inr (SortedMap.contains_iff.mpr hsubmodule)

theorem proper_of_module (h : a.WellFormed) {fqn : String}
    (hfqn : fqn = a.name ∨ fqn ∈ a.submodules.keys) : Proper fqn := by
  rcases hfqn with rfl | hsubmodule
  · exact (proper_of_undotted h.name_undotted).mpr h.name_ne_empty
  · exact h.submodules_proper fqn hsubmodule

theorem exists_child (h : a.WellFormed) {key : String} (hkey : key ∈ a.types.keys) :
    ∃ outer last, Undotted last ∧ key = outer ++ "." ++ last := by
  apply Dotted.exists_child
  obtain ⟨rest, rfl⟩ := isBelow_iff.mp (h.below key hkey)
  exact not_undotted_child a.name rest

theorem ne_empty_of_type (h : a.WellFormed) {key : String} (hkey : key ∈ a.types.keys) :
    key ≠ "" := by
  obtain ⟨outer, last, -, rfl⟩ := h.exists_child hkey
  simp

theorem not_mem_types_of_module (h : a.WellFormed) {fqn : String}
    (hfqn : fqn = a.name ∨ fqn ∈ a.submodules.keys) : fqn ∉ a.types.keys := by
  intro htype
  rcases hfqn with rfl | hsubmodule
  · obtain ⟨outer, last, -, hchild⟩ := h.exists_child htype
    exact not_undotted_child outer last (hchild ▸ h.name_undotted)
  · exact h.disjoint fqn htype hsubmodule

theorem head_of_type (h : a.WellFormed) {key : String} (hkey : key ∈ a.types.keys) :
    head key = a.name := by
  obtain ⟨rest, rfl⟩ := isBelow_iff.mp (h.below key hkey)
  rw [head_append, head_of_undotted h.name_undotted]

end Assembly.WellFormed

end Api

namespace Package

open Api Dotted

/-- Where a name lies: the parts of its package and the segments below. -/
inductive Lies (assembly root : String) (submodules : SortedMap Submodule) :
    String → List String → List String → Prop
  | root : Lies assembly root submodules assembly [root] []
  | configured {fqn : String} {submodule : Submodule} {python : PythonTarget}
      (hne : fqn ≠ assembly) (hfind : submodules.find? fqn = some submodule)
      (hpython : submodule.targets.python = some python)
      (hbelow : isBelow root python.module = true) :
      Lies assembly root submodules fqn [python.module] []
  | plain {outer last : String} {submodule : Submodule} {package tail : List String}
      (hlast : Undotted last) (hne : outer ++ "." ++ last ≠ assembly)
      (hfind : submodules.find? (outer ++ "." ++ last) = some submodule)
      (hpython : submodule.targets.python = none)
      (houter : Lies assembly root submodules outer package tail) :
      Lies assembly root submodules (outer ++ "." ++ last)
        (package ++ [Identifier.snake (Identifier.escape last)]) tail
  | inner {outer last : String} {package tail : List String}
      (hlast : Undotted last) (hne : outer ++ "." ++ last ≠ assembly)
      (hfind : submodules.find? (outer ++ "." ++ last) = none)
      (houter : Lies assembly root submodules outer package tail) :
      Lies assembly root submodules (outer ++ "." ++ last) package (tail ++ [last])

variable {assembly root : String} {submodules : SortedMap Submodule}

theorem lies_assembly {fqn : String} {package tail : List String} (hfqn : fqn = assembly) :
    Lies assembly root submodules fqn package tail ↔ package = [root] ∧ tail = [] := by
  constructor
  · intro h
    cases h with
    | root => exact ⟨rfl, rfl⟩
    | configured hne => exact absurd hfqn hne
    | plain hlast hne => exact absurd hfqn hne
    | inner hlast hne => exact absurd hfqn hne
  · rintro ⟨rfl, rfl⟩
    exact hfqn ▸ .root

section Child

variable {outer last : String} {package tail : List String}

theorem lies_inner (hlast : Undotted last) (hne : outer ++ "." ++ last ≠ assembly)
    (hfind : submodules.find? (outer ++ "." ++ last) = none) :
    Lies assembly root submodules (outer ++ "." ++ last) package tail ↔
      ∃ above, Lies assembly root submodules outer package above ∧ tail = above ++ [last] := by
  constructor
  · intro h
    generalize hname : outer ++ "." ++ last = fqn at h
    cases h with
    | root => exact absurd hname hne
    | configured _ hfind' => simp [← hname, hfind] at hfind'
    | plain hlast' _ hfind' => simp [← hname, hfind] at hfind'
    | inner hlast' _ _ houter =>
      obtain ⟨rfl, rfl⟩ := child_eq_child hlast hlast' hname
      exact ⟨_, houter, rfl⟩
  · rintro ⟨above, houter, rfl⟩
    exact .inner hlast hne hfind houter

theorem lies_plain {submodule : Submodule} (hlast : Undotted last)
    (hne : outer ++ "." ++ last ≠ assembly)
    (hfind : submodules.find? (outer ++ "." ++ last) = some submodule)
    (hpython : submodule.targets.python = none) :
    Lies assembly root submodules (outer ++ "." ++ last) package tail ↔
      ∃ above, Lies assembly root submodules outer above tail ∧
        package = above ++ [Identifier.snake (Identifier.escape last)] := by
  constructor
  · intro h
    generalize hname : outer ++ "." ++ last = fqn at h
    cases h with
    | root => exact absurd hname hne
    | configured _ hfind' hpython' =>
      obtain rfl : submodule = _ := by simpa [← hname, hfind] using hfind'
      simp [hpython] at hpython'
    | plain hlast' _ _ _ houter =>
      obtain ⟨rfl, rfl⟩ := child_eq_child hlast hlast' hname
      exact ⟨_, houter, rfl⟩
    | inner hlast' _ hfind' => simp [← hname, hfind] at hfind'
  · rintro ⟨above, houter, rfl⟩
    exact .plain hlast hne hfind hpython houter

end Child

theorem lies_configured {fqn : String} {submodule : Submodule} {python : PythonTarget}
    {package tail : List String} (hne : fqn ≠ assembly)
    (hfind : submodules.find? fqn = some submodule)
    (hpython : submodule.targets.python = some python) :
    Lies assembly root submodules fqn package tail ↔
      isBelow root python.module = true ∧ package = [python.module] ∧ tail = [] := by
  constructor
  · intro h
    cases h with
    | root => exact absurd rfl hne
    | configured _ hfind' hpython' hbelow =>
      obtain rfl : submodule = _ := by simpa [hfind] using hfind'
      obtain rfl : python = _ := by simpa [hpython] using hpython'
      exact ⟨hbelow, rfl, rfl⟩
    | plain _ _ hfind' hpython' =>
      obtain rfl : submodule = _ := by simpa [hfind] using hfind'
      simp [hpython] at hpython'
    | inner _ _ hfind' => simp [hfind] at hfind'
  · rintro ⟨hbelow, rfl, rfl⟩
    exact .configured hne hfind hpython hbelow

theorem walk_child (outer : String) {last : String} (hlast : Undotted last)
    (package tail : List String) :
    walk assembly root submodules (segments (outer ++ "." ++ last)).reverse package tail =
      if outer ++ "." ++ last = assembly then .ok (root :: package, tail)
      else match submodules.find? (outer ++ "." ++ last) with
        | none => walk assembly root submodules (segments outer).reverse package (last :: tail)
        | some submodule =>
          match submodule.targets.python with
          | some python =>
            if isBelow root python.module then .ok (python.module :: package, tail)
            else .error (.config (.packageNotNested (outer ++ "." ++ last) python.module root))
          | none =>
            walk assembly root submodules (segments outer).reverse
              (Identifier.snake (Identifier.escape last) :: package) tail := by
  have hname : join (last :: (segments outer).reverse).reverse = outer ++ "." ++ last := by
    rw [List.reverse_cons, List.reverse_reverse, ← segments_child outer hlast, join_segments]
  have hreverse : (segments (outer ++ "." ++ last)).reverse = last :: (segments outer).reverse := by
    rw [segments_child outer hlast, List.reverse_append, List.reverse_singleton,
      List.singleton_append]
  rw [hreverse, ← hname]
  rfl

theorem walk_eq_ok_iff {fqn : String} (hhead : head fqn = assembly)
    {package tail package' tail' : List String} :
    walk assembly root submodules (segments fqn).reverse package tail = .ok (package', tail') ↔
      ∃ p t, Lies assembly root submodules fqn p t ∧ package' = p ++ package ∧
        tail' = t ++ tail := by
  -- The walk collects from the innermost segment and `Lies` from the outermost, so the two
  -- accumulators are general.
  induction fqn using Dotted.inductionOn generalizing package tail with
  | single fqn hundotted =>
    rw [head_of_undotted hundotted] at hhead
    subst hhead
    simp [segments_of_undotted hundotted, walk, join_singleton, lies_assembly rfl, eq_comm]
  | child outer last hlast ih =>
    rw [head_append] at hhead
    have hne : outer ++ "." ++ last ≠ assembly := by
      intro heq
      exact not_undotted_child outer last (heq ▸ hhead ▸ undotted_head outer)
    rw [walk_child outer hlast, if_neg hne]
    cases hfind : submodules.find? (outer ++ "." ++ last) with
    | none =>
      simp only [ih hhead, lies_inner hlast hne hfind]
      constructor
      · rintro ⟨p, t, hlies, hp, ht⟩
        exact ⟨p, t ++ [last], ⟨t, hlies, rfl⟩, hp, by simpa using ht⟩
      · rintro ⟨p, _, ⟨t, hlies, rfl⟩, hp, ht⟩
        exact ⟨p, t, hlies, hp, by simpa using ht⟩
    | some submodule =>
      cases hpython : submodule.targets.python with
      | none =>
        simp only [ih hhead, hpython, lies_plain hlast hne hfind hpython]
        constructor
        · rintro ⟨p, t, hlies, hp, ht⟩
          exact ⟨p ++ [_], t, ⟨p, hlies, rfl⟩, by simpa using hp, ht⟩
        · rintro ⟨_, t, ⟨p, hlies, rfl⟩, hp, ht⟩
          exact ⟨p, t, hlies, by simpa using hp, ht⟩
      | some python =>
        simp only [hpython, lies_configured hne hfind hpython]
        by_cases hbelow : isBelow root python.module = true
        · simp [hbelow, eq_comm]
        · simp [hbelow]

theorem locate_eq_ok_iff {a : Assembly} {fqn : String} {location : Location} :
    locate a fqn = .ok location ↔
      ∃ targets root package tail, targetsOf a (head fqn) = .ok targets ∧
        moduleOf (head fqn) targets = .ok root ∧
        Lies (head fqn) root targets.submodules fqn package tail ∧
        location = { assembly := head fqn, package := join package, tail } := by
  rw [locate]
  simp only [Outcome.bind_eq_ok, Outcome.pure_eq_ok, Prod.exists]
  constructor
  · rintro ⟨targets, htargets, root, hroot, package, tail, hwalk, rfl⟩
    obtain ⟨p, t, hlies, hp, ht⟩ := (walk_eq_ok_iff (rfl : head fqn = head fqn)).mp hwalk
    rw [List.append_nil] at hp ht
    exact ⟨targets, root, package, tail, htargets, hroot, hp ▸ ht ▸ hlies, rfl⟩
  · rintro ⟨targets, root, package, tail, htargets, hroot, hlies, rfl⟩
    exact ⟨targets, htargets, root, hroot, package, tail,
      (walk_eq_ok_iff rfl).mpr ⟨package, tail, hlies, by simp, by simp⟩, rfl⟩

theorem pythonName_eq_ok_iff {a : Assembly} {fqn : String} {name : PythonName} :
    pythonName a fqn = .ok name ↔
      ∃ targets root package tail, targetsOf a (head fqn) = .ok targets ∧
        moduleOf (head fqn) targets = .ok root ∧
        Lies (head fqn) root targets.submodules fqn package tail ∧
        name = { assembly := head fqn, package := join package,
                 path := join (join package :: tail.map Identifier.escape) } := by
  rw [pythonName]
  simp only [Outcome.bind_eq_ok, Outcome.pure_eq_ok, locate_eq_ok_iff]
  constructor
  · rintro ⟨_, ⟨targets, root, package, tail, htargets, hroot, hlies, rfl⟩, rfl⟩
    exact ⟨targets, root, package, tail, htargets, hroot, hlies, rfl⟩
  · rintro ⟨targets, root, package, tail, htargets, hroot, hlies, rfl⟩
    exact ⟨_, ⟨targets, root, package, tail, htargets, hroot, hlies, rfl⟩, rfl⟩

theorem modules_subset_configuredModules {a : Assembly} {name : String}
    {targets : DependencyTargets} (h : targetsOf a name = .ok targets) :
    targets.modules ⊆ a.configuredModules := by
  rw [targetsOf] at h
  split at h
  · obtain rfl := Except.ok.inj h
    exact List.subset_append_left _ _
  · split at h
    · rename_i found hfind
      obtain rfl := Except.ok.inj h
      have hin : found ∈ a.closure.values :=
        List.mem_map_of_mem (SortedMap.find?_eq_some_iff.mp hfind)
      exact fun module hmodule =>
        List.mem_append_right _ (List.mem_flatMap.mpr ⟨found, hin, hmodule⟩)
    · exact absurd h (by simp)

theorem mem_modules_of_moduleOf {targets : DependencyTargets} {name module : String}
    (h : moduleOf name targets = .ok module) : module ∈ targets.modules := by
  rw [moduleOf] at h
  split at h
  · rename_i python hpython
    obtain rfl := Except.ok.inj h
    exact List.mem_append_left _ (by simp [Targets.modules, hpython])
  · exact absurd h (by simp)

theorem mem_modules_of_find? {targets : DependencyTargets} {fqn : String} {submodule : Submodule}
    {python : PythonTarget} (hfind : targets.submodules.find? fqn = some submodule)
    (hpython : submodule.targets.python = some python) :
    python.module ∈ targets.modules := by
  have hin : submodule ∈ targets.submodules.values :=
    List.mem_map_of_mem (SortedMap.find?_eq_some_iff.mp hfind)
  exact List.mem_append_right _
    (List.mem_flatMap.mpr ⟨submodule, hin, by simp [Targets.modules, hpython]⟩)

theorem Lies.package_ne_nil {fqn : String} {package tail : List String}
    (h : Lies assembly root submodules fqn package tail) : package ≠ [] := by
  induction h with
  | root => simp
  | configured => simp
  | plain => simp
  | inner _ _ _ _ ih => exact ih

theorem Lies.proper {targets : DependencyTargets} {fqn : String} {package tail : List String}
    (h : Lies assembly root targets.submodules fqn package tail) (hfqn : Proper fqn)
    (hroot : Proper root) (hmodules : ∀ module ∈ targets.modules, Proper module) :
    (∀ part ∈ package, Proper part) ∧ ∀ segment ∈ tail, Undotted segment ∧ segment ≠ "" := by
  induction h with
  | root => simpa using hroot
  | configured _ hfind hpython _ => simpa using hmodules _ (mem_modules_of_find? hfind hpython)
  | @plain outer last _ _ _ hlast _ _ _ _ ih =>
    obtain ⟨houter, hproper⟩ := proper_child.mp hfqn
    have hne := (proper_of_undotted hlast).mp hproper
    have hpart : Proper (Identifier.snake (Identifier.escape last)) :=
      (proper_of_undotted (Identifier.undotted_snake (Identifier.undotted_escape hlast))).mpr
        (Identifier.snake_ne_empty (Identifier.escape_ne_empty hne))
    obtain ⟨hpackage, htail⟩ := ih houter
    refine ⟨fun part hin => ?_, htail⟩
    rcases List.mem_append.mp hin with hin | hin
    · exact hpackage part hin
    · exact List.mem_singleton.mp hin ▸ hpart
  | @inner outer last _ _ hlast _ _ _ ih =>
    obtain ⟨houter, hproper⟩ := proper_child.mp hfqn
    obtain ⟨hpackage, htail⟩ := ih houter
    refine ⟨hpackage, fun segment hin => ?_⟩
    rcases List.mem_append.mp hin with hin | hin
    · exact htail segment hin
    · exact List.mem_singleton.mp hin ▸ ⟨hlast, (proper_of_undotted hlast).mp hproper⟩

theorem proper_path {a : Assembly} (hmodules : ∀ module ∈ a.configuredModules, Proper module)
    {fqn : String} (hfqn : Proper fqn) {name : PythonName} (h : pythonName a fqn = .ok name) :
    Proper name.path := by
  obtain ⟨targets, root, package, tail, htargets, hroot, hlies, rfl⟩ := pythonName_eq_ok_iff.mp h
  have hown : ∀ module ∈ targets.modules, Proper module := fun module hin =>
    hmodules module (modules_subset_configuredModules htargets hin)
  obtain ⟨hpackage, htail⟩ := hlies.proper hfqn (hown root (mem_modules_of_moduleOf hroot)) hown
  rw [proper_join (List.cons_ne_nil _ _), List.forall_mem_cons,
    proper_join hlies.package_ne_nil]
  refine ⟨hpackage, fun part hin => ?_⟩
  obtain ⟨segment, hsegment, rfl⟩ := List.mem_map.mp hin
  obtain ⟨hundotted, hne⟩ := htail segment hsegment
  exact (proper_of_undotted (Identifier.undotted_escape hundotted)).mpr
    (Identifier.escape_ne_empty hne)

theorem pythonName_own_eq_ok_iff {a : Assembly} {fqn : String} {name : PythonName}
    (hhead : head fqn = a.name) :
    pythonName a fqn = .ok name ↔
      ∃ root package tail, rootModule a a.name = .ok root ∧
        Lies a.name root a.submodules fqn package tail ∧
        name = { assembly := a.name, package := join package,
                 path := join (join package :: tail.map Identifier.escape) } := by
  have htargets : targetsOf a a.name =
      .ok { targets := a.targets, submodules := a.submodules } := by
    rw [targetsOf, if_pos rfl]
  rw [pythonName_eq_ok_iff, hhead, htargets]
  simp only [rootModule, htargets, Outcome.bind_eq_ok, Except.ok.injEq]
  constructor
  · rintro ⟨_, root, package, tail, rfl, hroot, hlies, rfl⟩
    exact ⟨root, package, tail, ⟨_, rfl, hroot⟩, hlies, rfl⟩
  · rintro ⟨root, package, tail, ⟨_, rfl, hroot⟩, hlies, rfl⟩
    exact ⟨_, root, package, tail, rfl, hroot, hlies, rfl⟩

theorem Lies.tail_eq_nil {fqn : String} {package tail : List String}
    (h : Lies assembly root submodules fqn package tail)
    (hfqn : fqn = assembly ∨ submodules.contains fqn = true)
    (hclosed : ∀ outer last, Undotted last → submodules.contains (outer ++ "." ++ last) = true →
      outer = assembly ∨ submodules.contains outer = true) : tail = [] := by
  induction h with
  | root => rfl
  | configured => rfl
  | plain hlast _ hfind _ _ ih =>
    exact ih (hclosed _ _ hlast (by simp [SortedMap.contains, hfind]))
  | inner _ hne hfind _ _ =>
    rcases hfqn with heq | hcontains
    · exact absurd heq hne
    · simp [SortedMap.contains, hfind] at hcontains

end Package

end Bindery
