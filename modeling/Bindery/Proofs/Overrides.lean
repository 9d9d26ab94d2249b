import Bindery.Proofs.Package
import Bindery.Settings

/-!
# Effect of settings on an assembly

Settings name assemblies and, for each of them, submodules. Each name is met once and changes its
own record only, so what a record becomes depends on the step that names it and on nothing else. A
step changes Python modules and leaves everything beside them as it was, so it finds nothing left
to change when it is taken again.
-/

namespace Bindery

namespace Outcome

variable {β γ V : Type}

theorem foldlM_of_fixed {α : Type} {f : β → α → Outcome β} {b : β} {xs : List α}
    (h : ∀ x ∈ xs, f b x = .ok b) : xs.foldlM f b = .ok b := by
  induction xs with
  | nil => rfl
  | cons x xs ih =>
    rw [List.foldlM_cons, h x List.mem_cons_self]
    exact ih fun y hy => h y (List.mem_cons_of_mem x hy)

theorem foldlM_keeps {α : Type} {f : β → α → Outcome β} {g : β → γ}
    (hstep : ∀ b x b', f b x = .ok b' → g b' = g b) {xs : List α} {b b' : β}
    (h : xs.foldlM f b = .ok b') : g b' = g b := by
  induction xs generalizing b with
  | nil => rw [Outcome.pure_eq_ok.mp h]
  | cons x xs ih =>
    rw [List.foldlM_cons] at h
    obtain ⟨middle, hfirst, hrest⟩ := bind_eq_ok.mp h
    rw [ih hrest, hstep b x middle hfirst]

/-- Where a step changes what stands under its own key only, a fold over distinct keys changes
what stands under a key by the one step that has it. -/
theorem foldlM_keyed {f : β → String × V → Outcome β} {get : β → String → γ}
    (hother : ∀ b entry b', f b entry = .ok b' → ∀ key ≠ entry.1, get b' key = get b key)
    {entries : List (String × V)} (hdistinct : (entries.map Prod.fst).Nodup) {b b' : β}
    (h : entries.foldlM f b = .ok b') :
    (∀ key ∉ entries.map Prod.fst, get b' key = get b key) ∧
      ∀ entry ∈ entries, ∃ before behind, f before entry = .ok behind ∧
        get before entry.1 = get b entry.1 ∧ get behind entry.1 = get b' entry.1 := by
  induction entries generalizing b with
  | nil =>
    rw [Outcome.pure_eq_ok.mp h]
    exact ⟨fun _ _ => rfl, fun _ hin => absurd hin List.not_mem_nil⟩
  | cons first entries ih =>
    rw [List.foldlM_cons] at h
    obtain ⟨middle, hfirst, hrest⟩ := bind_eq_ok.mp h
    rw [List.map_cons, List.nodup_cons] at hdistinct
    obtain ⟨hnew, hdistinct⟩ := hdistinct
    obtain ⟨hsame, hsteps⟩ := ih hdistinct hrest
    have hmiddle := hother b first middle hfirst
    constructor
    · intro key hkey
      rw [List.map_cons, List.mem_cons, not_or] at hkey
      rw [hsame key hkey.2, hmiddle key hkey.1]
    · intro entry hin
      rcases List.mem_cons.mp hin with rfl | hin
      · exact ⟨b, middle, hfirst, rfl, (hsame entry.1 hnew).symm⟩
      · obtain ⟨before, behind, hstep, hbefore, hbehind⟩ := hsteps entry hin
        have hne : entry.1 ≠ first.1 := fun heq => hnew (heq ▸ List.mem_map_of_mem hin)
        exact ⟨before, behind, hstep, hbefore.trans (hmiddle entry.1 hne), hbehind⟩

end Outcome

namespace Api

theorem Targets.module_withModule (t : Targets) (module : String) :
    (t.withModule module).python.map (·.module) = some module := by
  rw [withModule]
  split <;> rfl

theorem Targets.distribution_withModule (t : Targets) (module : String) :
    (t.withModule module).python.bind (·.distribution) = t.python.bind (·.distribution) := by
  rw [withModule]
  split
  · rename_i python hpython
    rw [hpython]
    rfl
  · rename_i hpython
    rw [hpython]
    rfl

theorem Targets.withModule_of_module {t : Targets} {module : String}
    (h : t.python.map (·.module) = some module) : t.withModule module = t := by
  obtain ⟨python, hpython, rfl⟩ := Option.map_eq_some_iff.mp h
  rw [withModule, hpython]
  cases t
  cases hpython
  rfl

end Api

namespace SortedMap

theorem insert_of_find? {V : Type} {map : SortedMap V} {key : String} {value : V}
    (h : map.find? key = some value) : map.insert key value = map := by
  apply ext_of_find?
  intro k
  rw [find?_insert]
  split
  · rename_i hk
    rw [hk, h]
  · rfl

theorem not_mem_keys_of_find? {V : Type} {map : SortedMap V} {key : String}
    (h : map.find? key = none) : key ∉ map.entries.map Prod.fst := by
  intro hin
  rw [← lookup_isSome_iff_mem_keys, ← find?, h] at hin
  cases hin

end SortedMap

namespace Settings

open Api Dotted Package

def moved (old : Option Submodule) (package : String) : Submodule :=
  { old.getD {} with targets := (old.getD {}).targets.withModule package }

theorem startsWith_eq_isBelow (name other : String) :
    Text.startsWith (name ++ ".") other = isBelow name other := rfl

theorem setSubmodule_eq_ok_iff {assembly root fqn package : String}
    {submodules submodules' : SortedMap Submodule} :
    setSubmodule assembly root fqn package submodules = .ok submodules' ↔
      isBelow assembly fqn = true ∧ isBelow root package = true ∧
        submodules.insert fqn (moved (submodules.find? fqn) package) = submodules' := by
  rw [setSubmodule, startsWith_eq_isBelow, startsWith_eq_isBelow]
  cases hown : isBelow assembly fqn with
  | false => simp
  | true =>
    cases hnested : isBelow root package with
    | false => simp
    | true => simp [moved]

theorem moved_moved (old : Option Submodule) (package : String) :
    moved (some (moved old package)) package = moved old package := by
  have htargets := Targets.withModule_of_module
    (Targets.module_withModule (old.getD {}).targets package)
  simp only [moved, Option.getD_some, htargets]

structure SubmodulesSet (assembly root : String) (overrides : SortedMap String)
    (before behind : SortedMap Submodule) : Prop where
  own : ∀ fqn package, overrides.find? fqn = some package → isBelow assembly fqn = true
  nested : ∀ fqn package, overrides.find? fqn = some package → isBelow root package = true
  find?_named : ∀ fqn package, overrides.find? fqn = some package →
    behind.find? fqn = some (moved (before.find? fqn) package)
  find?_other : ∀ fqn, overrides.find? fqn = none → behind.find? fqn = before.find? fqn

def setSubmodules (assembly root : String) (overrides : SortedMap String)
    (submodules : SortedMap Submodule) : Outcome (SortedMap Submodule) :=
  overrides.entries.foldlM (fun submodules entry =>
    setSubmodule assembly root entry.1 entry.2 submodules) submodules

variable {assembly root : String} {overrides : SortedMap String}
  {before behind : SortedMap Submodule}

theorem SubmodulesSet.of_eq_ok (h : setSubmodules assembly root overrides before = .ok behind) :
    SubmodulesSet assembly root overrides before behind := by
  have hother : ∀ (map : SortedMap Submodule) (entry : String × String) map',
      setSubmodule assembly root entry.1 entry.2 map = .ok map' →
        ∀ key ≠ entry.1, map'.find? key = map.find? key := by
    intro map entry map' hstep key hne
    obtain ⟨-, -, rfl⟩ := setSubmodule_eq_ok_iff.mp hstep
    rw [SortedMap.find?_insert, if_neg hne]
  obtain ⟨hsame, hsteps⟩ := Outcome.foldlM_keyed hother overrides.distinct h
  have hstep : ∀ fqn package, overrides.find? fqn = some package →
      isBelow assembly fqn = true ∧ isBelow root package = true ∧
        behind.find? fqn = some (moved (before.find? fqn) package) := by
    intro fqn package hfind
    obtain ⟨map, map', hstep, hmap, hmap'⟩ :=
      hsteps (fqn, package) (SortedMap.find?_eq_some_iff.mp hfind)
    obtain ⟨hown, hnested, rfl⟩ := setSubmodule_eq_ok_iff.mp hstep
    rw [← hmap, ← hmap', SortedMap.find?_insert, if_pos rfl]
    exact ⟨hown, hnested, rfl⟩
  exact ⟨fun fqn package hfind => (hstep fqn package hfind).1,
    fun fqn package hfind => (hstep fqn package hfind).2.1,
    fun fqn package hfind => (hstep fqn package hfind).2.2,
    fun fqn hnone => hsame fqn (SortedMap.not_mem_keys_of_find? hnone)⟩

theorem SubmodulesSet.again (h : SubmodulesSet assembly root overrides before behind) :
    setSubmodules assembly root overrides behind = .ok behind := by
  apply Outcome.foldlM_of_fixed
  intro entry hentry
  have hfind := SortedMap.find?_eq_some_iff.mpr hentry
  have hnamed := h.find?_named _ _ hfind
  refine setSubmodule_eq_ok_iff.mpr ⟨h.own _ _ hfind, h.nested _ _ hfind, ?_⟩
  rw [hnamed, moved_moved]
  exact SortedMap.insert_of_find? hnamed

def retargeted (o : Overrides) (t : Targets) : Targets := o.python.elim t t.withModule

theorem retargeted_retargeted (o : Overrides) (t : Targets) :
    retargeted o (retargeted o t) = retargeted o t := by
  rw [retargeted, retargeted]
  cases o.python with
  | none => rfl
  | some module => exact Targets.withModule_of_module (Targets.module_withModule t module)

theorem setModules_eq (o : Overrides) (d : DependencyTargets) :
    setModules assembly o d = (do
      let root ← moduleOf assembly { d with targets := retargeted o d.targets }
      let submodules ← setSubmodules assembly root o.submodules d.submodules
      return { targets := retargeted o d.targets, submodules }) := by
  rw [setModules, moduleOf, retargeted]
  cases o.python with
  | none =>
    simp only [Option.elim]
    cases d.targets.python with
    | none => rfl
    | some python => rfl
  | some module =>
    simp only [Option.elim]
    cases (d.targets.withModule module).python with
    | none => rfl
    | some python => rfl

structure RecordSet (assembly : String) (o : Overrides) (d d' : DependencyTargets) : Prop where
  targets : d'.targets = retargeted o d.targets
  submodules : ∃ root, moduleOf assembly d' = .ok root ∧
    SubmodulesSet assembly root o.submodules d.submodules d'.submodules

theorem RecordSet.of_eq_ok {o : Overrides} {d d' : DependencyTargets}
    (h : setModules assembly o d = .ok d') : RecordSet assembly o d d' := by
  rw [setModules_eq] at h
  simp only [Outcome.bind_eq_ok, Outcome.pure_eq_ok] at h
  obtain ⟨root, hroot, submodules, hset, rfl⟩ := h
  exact ⟨rfl, root, hroot, .of_eq_ok hset⟩

theorem RecordSet.again {o : Overrides} {d d' : DependencyTargets} (h : RecordSet assembly o d d') :
    setModules assembly o d' = .ok d' := by
  obtain ⟨htargets, root, hroot, hset⟩ := h
  have hsame : retargeted o d'.targets = d'.targets := by
    rw [htargets, retargeted_retargeted]
  rw [setModules_eq, hsame]
  simp only [Outcome.bind_eq_ok, Outcome.pure_eq_ok]
  exact ⟨root, hroot, d'.submodules, hset.again, rfl⟩

variable {a a' : Assembly} {name : String} {o : Overrides}

/-- What settings never change: all that an assembly has beside the Python modules of its parts and
of the assemblies it depends on, and the record that it keeps under its own name. -/
def beside (a : Assembly) : Assembly × Option DependencyTargets :=
  ({ a with targets := {}, submodules := .empty, closure := .empty }, a.closure.find? a.name)

theorem applyTo_eq_ok (h : applyTo a name o = .ok a') :
    ∃ d d', targetsOf a name = .ok d ∧ targetsOf a' name = .ok d' ∧
      setModules name o d = .ok d' ∧ (∀ other ≠ name, targetsOf a' other = targetsOf a other) ∧
      beside a' = beside a := by
  rw [applyTo] at h
  split at h
  · rename_i hname
    simp only [Outcome.bind_eq_ok, Outcome.pure_eq_ok] at h
    obtain ⟨d', hset, rfl⟩ := h
    refine ⟨_, d', by rw [targetsOf, if_pos hname], by rw [targetsOf, if_pos hname], hset, ?_, rfl⟩
    intro other hne
    have hother : other ≠ a.name := hname ▸ hne
    rw [targetsOf, targetsOf, if_neg hother, if_neg hother]
  · rename_i hname
    split at h
    · rename_i d hfind
      simp only [Outcome.bind_eq_ok, Outcome.pure_eq_ok] at h
      obtain ⟨d', hset, rfl⟩ := h
      refine ⟨d, d', by rw [targetsOf, if_neg hname, hfind], ?_, hset, fun other hne => ?_, ?_⟩
      · rw [targetsOf, if_neg hname, SortedMap.find?_insert, if_pos rfl]
      · rw [targetsOf, targetsOf]
        split
        · rfl
        · rw [SortedMap.find?_insert, if_neg hne]
      · rw [beside, beside, SortedMap.find?_insert, if_neg (Ne.symm hname)]
    · cases h

theorem applyTo_of_fixed {d : DependencyTargets} (htargets : targetsOf a name = .ok d)
    (hset : setModules name o d = .ok d) : applyTo a name o = .ok a := by
  rw [targetsOf] at htargets
  rw [applyTo]
  split at htargets
  · rename_i hname
    obtain rfl := Except.ok.inj htargets
    rw [if_pos hname, hset]
    rfl
  · rename_i hname
    rw [if_neg hname]
    cases hfind : a.closure.find? name with
    | none =>
      rw [hfind] at htargets
      cases htargets
    | some found =>
      rw [hfind] at htargets
      obtain rfl := Except.ok.inj htargets
      simp only [Outcome.bind_eq_ok, Outcome.pure_eq_ok]
      exact ⟨found, hset, by rw [SortedMap.insert_of_find? hfind]⟩

theorem apply_eq_ok {s : Settings} (h : s.apply a = .ok a') :
    beside a' = beside a ∧
      (∀ name, s.modules.find? name = none → targetsOf a' name = targetsOf a name) ∧
      ∀ name o, s.modules.find? name = some o → ∃ d d', targetsOf a name = .ok d ∧
        targetsOf a' name = .ok d' ∧ RecordSet name o d d' := by
  have hother : ∀ (b : Assembly) (entry : String × Overrides) (b' : Assembly),
      applyTo b entry.1 entry.2 = .ok b' →
        ∀ key ≠ entry.1, targetsOf b' key = targetsOf b key := by
    intro b entry b' hstep
    obtain ⟨-, -, -, -, -, hother, -⟩ := applyTo_eq_ok hstep
    exact hother
  have hbeside : ∀ (b : Assembly) (entry : String × Overrides) (b' : Assembly),
      applyTo b entry.1 entry.2 = .ok b' → beside b' = beside b := by
    intro b entry b' hstep
    obtain ⟨-, -, -, -, -, -, hbeside⟩ := applyTo_eq_ok hstep
    exact hbeside
  obtain ⟨hsame, hsteps⟩ := Outcome.foldlM_keyed hother s.modules.distinct h
  refine ⟨Outcome.foldlM_keeps hbeside h,
    fun name hnone => hsame name (SortedMap.not_mem_keys_of_find? hnone), fun name o hfind => ?_⟩
  obtain ⟨b, b', hstep, hbefore, hbehind⟩ :=
    hsteps (name, o) (SortedMap.find?_eq_some_iff.mp hfind)
  obtain ⟨d, d', hd, hd', hset, -⟩ := applyTo_eq_ok hstep
  exact ⟨d, d', hbefore.symm.trans hd, hbehind.symm.trans hd', .of_eq_ok hset⟩

theorem apply_again {s : Settings} (h : s.apply a = .ok a') : s.apply a' = .ok a' := by
  obtain ⟨-, -, hnamed⟩ := apply_eq_ok h
  apply Outcome.foldlM_of_fixed
  rintro ⟨name, o⟩ hin
  obtain ⟨d, d', -, hd', hset⟩ := hnamed name o (SortedMap.find?_eq_some_iff.mpr hin)
  exact applyTo_of_fixed hd' hset.again

theorem eq_of_beside (h : beside a' = beside a) :
    a' = { a with targets := a'.targets, submodules := a'.submodules, closure := a'.closure } ∧
      a'.closure.find? a.name = a.closure.find? a.name := by
  obtain ⟨hrest, hown⟩ := Prod.mk.inj h
  cases a
  cases a'
  simp only [Assembly.mk.injEq] at hrest hown ⊢
  obtain ⟨rfl, hrest⟩ := hrest
  exact ⟨⟨rfl, hrest⟩, hown⟩

/-- What overrides do to the record of an assembly, and what they leave as it was. -/
structure Overridden (o : Overrides) (d d' : DependencyTargets) : Prop where
  module : ∀ module, o.python = some module → d'.targets.python.map (·.module) = some module
  module_kept : o.python = none → d'.targets = d.targets
  distribution : d'.targets.python.bind (·.distribution) = d.targets.python.bind (·.distribution)
  submodule : ∀ fqn package, o.submodules.find? fqn = some package →
    ∃ submodule, d'.submodules.find? fqn = some submodule ∧
      submodule.targets.python.map (·.module) = some package ∧
      submodule.readme = (d.submodules.find? fqn).bind (·.readme) ∧
      submodule.targets.python.bind (·.distribution) =
        (d.submodules.find? fqn).bind fun old => old.targets.python.bind (·.distribution)
  submodule_kept : ∀ fqn, o.submodules.find? fqn = none →
    d'.submodules.find? fqn = d.submodules.find? fqn

theorem RecordSet.overridden {d d' : DependencyTargets} (h : RecordSet name o d d') :
    Overridden o d d' := by
  obtain ⟨htargets, root, -, hset⟩ := h
  refine ⟨fun module hmodule => ?_, fun hnone => ?_, ?_, fun fqn package hfind => ?_,
    hset.find?_other⟩
  · rw [htargets, retargeted, hmodule]
    exact Targets.module_withModule d.targets module
  · rw [htargets, retargeted, hnone]
    rfl
  · rw [htargets, retargeted]
    cases o.python with
    | none => rfl
    | some module => exact Targets.distribution_withModule d.targets module
  · refine ⟨_, hset.find?_named fqn package hfind, Targets.module_withModule _ package, ?_, ?_⟩
    · cases d.submodules.find? fqn <;> rfl
    · rw [moved, Targets.distribution_withModule]
      cases d.submodules.find? fqn <;> rfl

theorem RecordSet.locate {d d' : DependencyTargets} (h : RecordSet name o d d')
    (hname : Undotted name) (htargets : targetsOf a name = .ok d') {fqn package : String}
    (hfind : o.submodules.find? fqn = some package) :
    Package.locate a fqn = .ok { assembly := name, package, tail := [] } := by
  obtain ⟨-, root, hroot, hset⟩ := h
  have hown := hset.own fqn package hfind
  have hhead : head fqn = name := by
    obtain ⟨rest, rfl⟩ := isBelow_iff.mp hown
    rw [head_append, head_of_undotted hname]
  obtain ⟨python, hpython, hmodule⟩ := Option.map_eq_some_iff.mp
    (Targets.module_withModule (((d.submodules.find? fqn).getD {}).targets) package)
  have hlies : Lies name root d'.submodules fqn [package] [] := by
    have hnested := hset.nested fqn package hfind
    rw [← hmodule] at hnested ⊢
    exact .configured (ne_of_isBelow hown) (hset.find?_named fqn package hfind) hpython hnested
  refine locate_eq_ok_iff.mpr ⟨d', root, [package], [], ?_⟩
  rw [hhead, join_singleton]
  exact ⟨htargets, hroot, hlies, rfl⟩

/-- Settings that can be applied to an assembly make the changes that they name and no others, and
they make them once: applied again, they change nothing. A submodule that they map to a package,
of an assembly without dots in its name, is that package. -/
theorem overrides_take_effect {s : Settings} (h : s.apply a = .ok a') :
    s.apply a' = .ok a' ∧
    a' = { a with targets := a'.targets, submodules := a'.submodules, closure := a'.closure } ∧
    a'.closure.find? a.name = a.closure.find? a.name ∧
    (∀ name, s.modules.find? name = none → targetsOf a' name = targetsOf a name) ∧
    (∀ name o, s.modules.find? name = some o → ∃ d d', targetsOf a name = .ok d ∧
      targetsOf a' name = .ok d' ∧ Overridden o d d') ∧
    ∀ name o, s.modules.find? name = some o → Undotted name →
      ∀ fqn package, o.submodules.find? fqn = some package →
        locate a' fqn = .ok { assembly := name, package, tail := [] } := by
  obtain ⟨hbeside, hother, hnamed⟩ := apply_eq_ok h
  obtain ⟨hrest, hown⟩ := eq_of_beside hbeside
  refine ⟨apply_again h, hrest, hown, hother, fun name o hfind => ?_,
    fun name o hfind hname fqn package hpackage => ?_⟩
  · obtain ⟨d, d', hd, hd', hset⟩ := hnamed name o hfind
    exact ⟨d, d', hd, hd', hset.overridden⟩
  · obtain ⟨d, d', -, hd', hset⟩ := hnamed name o hfind
    exact hset.locate hname hd' hpackage

def library : Assembly :=
  ((Assembly.ofModule "Acme" "1.0.0" "acme").withSubmodule "Acme.core" none).withDependency
    "Base" "^1.0.0" "base_lib"

def libraryOverrides : Overrides :=
  { python := some "acme_lib"
    submodules := (SortedMap.empty.insert "Acme.core" "acme_lib.kernel").insert "Acme.widgets"
      "acme_lib.ui.widgets" }

def librarySettings : Settings :=
  { modules := (SortedMap.empty.insert "Base" { python := some "base2" }).insert "Acme"
      libraryOverrides }

theorem overrides_take_effect_library :
    ∃ a', librarySettings.apply library = .ok a' ∧ librarySettings.apply a' = .ok a' ∧
      a'.dependencies = library.dependencies ∧
      (∃ d d', targetsOf library "Acme" = .ok d ∧ targetsOf a' "Acme" = .ok d' ∧
        Overridden libraryOverrides d d') ∧
      locate a' "Acme.widgets" =
        .ok { assembly := "Acme", package := "acme_lib.ui.widgets", tail := [] } := by
  have hsome : (librarySettings.apply library).toOption.isSome = true := by decide +kernel
  have hfind : librarySettings.modules.find? "Acme" = some libraryOverrides := by
    rw [librarySettings, SortedMap.find?_insert, if_pos rfl]
  have hpackage : libraryOverrides.submodules.find? "Acme.widgets" = some "acme_lib.ui.widgets" := by
    rw [libraryOverrides, SortedMap.find?_insert, if_pos rfl]
  obtain ⟨a', happly⟩ : ∃ a', librarySettings.apply library = .ok a' := ⟨_, Outcome.eq_ok_get hsome⟩
  obtain ⟨hagain, hrest, -, -, hnamed, hlocate⟩ := overrides_take_effect happly
  exact ⟨a', happly, hagain, by rw [hrest], hnamed "Acme" _ hfind,
    hlocate "Acme" _ hfind (by decide) "Acme.widgets" _ hpackage⟩

end Settings

end Bindery
