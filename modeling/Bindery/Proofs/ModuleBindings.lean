import Bindery.Proofs.BaseOrder
import Bindery.Proofs.PackageLinks
import Mathlib.Data.List.Dedup

/-!
# Names that a module binds

A module binds a name for every type inside it and, by an import, one for every child module. Types
that share a name are a fault unless all but one are deprecated, so no two types that are written
share one. No such rule covers child modules. The names are distinct exactly when no type is called
like a child and no two children are called alike. Any other clash passes without a fault: what is
imported last takes the name over, and the list of exports mentions it once.
-/

namespace Bindery

open Api Dotted

namespace Model

theorem Faithful.members_of_mem_modules {m : Model} (hm : m.Faithful) {place : Declaration}
    (hplace : place ∈ m.modules) :
    place.members = (typesIn m.toCatalog place.fqn).map fun entry => .type (nestedType entry) := by
  obtain ⟨⟨k, hk⟩, hkind⟩ := mem_modules_iff.mp hplace
  obtain ⟨bare, hdeclares, rfl, rfl⟩ := hm.lookup k place hk
  rcases hdeclares.spec with ⟨-, hempty, -⟩ | ⟨htype, -⟩
  · rw [Declaration.holding, hempty, List.nil_append]
  · exact absurd hkind htype

end Model

namespace Binding

theorem mem_sortNames {names : List String} {name : String} :
    name ∈ sortNames names ↔ name ∈ names := by
  rw [sortNames, ← SortedMap.contains_iff, SortedMap.contains, SortedMap.find?_ofList,
    lookup_isSome_iff_mem_keys, List.map_reverse, List.mem_reverse, List.map_map]
  simp

theorem length_sortNames_eq_iff {names : List String} :
    (sortNames names).length = names.length ↔ names.Nodup := by
  have hperm : (sortNames names).Perm names.dedup := by
    refine (List.perm_ext_iff_of_nodup (SortedMap.distinct _) names.nodup_dedup).mpr ?_
    exact fun name => mem_sortNames.trans List.mem_dedup.symm
  rw [hperm.length_eq, ← List.dedup_eq_self]
  exact ⟨names.dedup_sublist.eq_of_length, fun h => congrArg List.length h⟩

def bindings (members : List Member) (children : List Child) : List String :=
  members.map Member.pythonName ++ children.map (·.name)

theorem length_exports_eq_iff {members : List Member} {children : List Child} :
    (sortNames (exportNames members children)).length = (bindings members children).length ↔
      (bindings members children).Nodup := by
  have hquote : Function.Injective fun name : String => "\"" ++ name ++ "\"" := by
    intro name other h
    simpa using h
  rw [← List.nodup_map_iff hquote, ← length_sortNames_eq_iff, List.length_map]
  rfl

variable {m : Model} {place : Declaration}

theorem exportScript_infix {checks : Bool} {script : Script}
    (h : moduleScript m checks place = .ok script) :
    ∃ members, Members.arrange m place.name place.members = .ok members ∧
      exportScript (exportNames members (childModules m place)) <:+: script := by
  rw [moduleScript] at h
  split at h
  · simp only [Outcome.bind_eq_ok, Outcome.pure_eq_ok] at h
    obtain ⟨imports, -, members, hmembers, types, -, rfl⟩ := h
    refine ⟨members, hmembers, ?_⟩
    rw [List.append_assoc _ (childScript _)]
    exact List.infix_append _ _ _
  · cases h

theorem nodup_map_name_childModules :
    ((childModules m place).map (·.name)).Nodup ↔
      (m.children place).Pairwise fun child other => last child.name ≠ last other.name := by
  have hperm : ((childModules m place).map (·.name)).Perm
      ((m.children place).map fun child => last child.name) := by
    rw [childModules, List.map_map]
    exact (List.mergeSort_perm _ _).map _
  rw [hperm.nodup_iff, List.Nodup, List.pairwise_map]

/-- The types and the children of a module are called differently, and so are the children. -/
def Unshared (m : Model) (place : Declaration) : Prop :=
  (∀ entry ∈ Model.typesIn m.toCatalog place.fqn, ∀ child ∈ m.children place,
    Identifier.escape entry.name ≠ last child.name) ∧
  (m.children place).Pairwise fun child other => last child.name ≠ last other.name

theorem nodup_bindings_iff {members : List Member} (hm : m.Faithful) (hplace : place ∈ m.modules)
    (h : Members.arrange m place.name place.members = .ok members) :
    (bindings members (childModules m place)).Nodup ↔ Unshared m place := by
  have hnames := Members.map_pythonName_arrange h
  have hmembers : (members.map Member.pythonName).Nodup :=
    hnames.nodup_iff.mpr (Members.nodup_eraseDups _)
  have hmem : ∀ name, name ∈ members.map Member.pythonName ↔
      ∃ entry ∈ Model.typesIn m.toCatalog place.fqn, Identifier.escape entry.name = name := by
    intro name
    rw [hnames.mem_iff, Members.names, List.mem_eraseDups, hm.members_of_mem_modules hplace,
      List.map_map, List.mem_map]
    rfl
  have hchildren : ∀ name, name ∈ (childModules m place).map (·.name) ↔
      ∃ child ∈ m.children place, last child.name = name := by
    intro name
    simp only [childModules, List.map_map, List.mem_map, List.mem_mergeSort]
    rfl
  rw [bindings, List.nodup_append, nodup_map_name_childModules, Unshared]
  constructor
  · rintro ⟨-, hpairwise, hapart⟩
    refine ⟨fun entry hentry child hchild => ?_, hpairwise⟩
    exact hapart _ ((hmem _).mpr ⟨entry, hentry, rfl⟩) _ ((hchildren _).mpr ⟨child, hchild, rfl⟩)
  · rintro ⟨hapart, hpairwise⟩
    refine ⟨hmembers, hpairwise, fun name hname other hother => ?_⟩
    obtain ⟨entry, hentry, rfl⟩ := (hmem name).mp hname
    obtain ⟨child, hchild, rfl⟩ := (hchildren other).mp hother
    exact hapart entry hentry child hchild

theorem last_name_of_child {child : Declaration} (hm : m.Faithful) (hplace : place ∈ m.modules)
    (hchild : child ∈ m.children place) (hown : head child.fqn = m.assembly.name)
    (hne : child.fqn ≠ m.assembly.name) :
    ∃ submodule, m.assembly.submodules.find? child.fqn = some submodule ∧
      last child.name = match submodule.targets.python with
        | none => Identifier.snake (Identifier.escape (last child.fqn))
        | some python => last python.module := by
  obtain ⟨hmodule, hparent, -⟩ := mem_children_iff.mp hchild
  have hkey : child.fqn ∈ m.assembly.submodules.keys :=
    (hm.of_mem_modules hmodule).1.resolve_left hne
  obtain ⟨submodule, hfind⟩ := Option.isSome_iff_exists.mp (SortedMap.contains_iff.mpr hkey)
  refine ⟨submodule, hfind, ?_⟩
  split
  · rename_i hpython
    rw [name_of_plain hm hmodule hown hne hfind hplace hparent hpython]
    exact last_child _
      (Identifier.undotted_snake (Identifier.undotted_escape (undotted_last child.fqn)))
  · rename_i python hpython
    rw [(name_of_configured hm hmodule hown hne hfind hpython).1]

/-- The names that a module binds for its types and its children are distinct, and all of them
appear in the list of exports, exactly when no type is called like a child and no two children are
called alike. The types alone never share a name. -/
theorem bindings_distinct_iff_unshared {a : Assembly} {dependencies : List Assembly}
    (hbuild : Model.build a dependencies = .ok m) (hplace : place ∈ m.modules) {checks : Bool}
    {script : Script} (hscript : moduleScript m checks place = .ok script) :
    ∃ members, Members.arrange m place.name place.members = .ok members ∧
      exportScript (exportNames members (childModules m place)) <:+: script ∧
      (members.map Member.pythonName).Nodup ∧
      ((bindings members (childModules m place)).Nodup ↔ Unshared m place) ∧
      ((sortNames (exportNames members (childModules m place))).length =
        (bindings members (childModules m place)).length ↔ Unshared m place) ∧
      ∀ child ∈ m.children place, head child.fqn = m.assembly.name →
        child.fqn ≠ m.assembly.name →
        ∃ submodule, m.assembly.submodules.find? child.fqn = some submodule ∧
          last child.name = match submodule.targets.python with
            | none => Identifier.snake (Identifier.escape (last child.fqn))
            | some python => last python.module := by
  have hm := Model.faithful_of_build hbuild
  obtain ⟨members, hmembers, hexports⟩ := exportScript_infix hscript
  have hiff := nodup_bindings_iff hm hplace hmembers
  refine ⟨members, hmembers, hexports, ?_, hiff, length_exports_eq_iff.trans hiff, ?_⟩
  · exact (Members.map_pythonName_arrange hmembers).nodup_iff.mpr (Members.nodup_eraseDups _)
  · exact fun child hchild hown hne => last_name_of_child hm hplace hchild hown hne

def classBeside (type module : String) : Assembly :=
  ((Assembly.ofModule "Acme" "1.0.0" "acme").withType (.class (.ofFqn type))).withSubmodule module
    none

def nameView : Model × Declaration × Script → List String × List String
  | (m, place, _) =>
    ((Model.typesIn m.toCatalog place.fqn).map fun entry => Identifier.escape entry.name,
      (m.children place).map fun child => last child.name)

theorem nameView_apart :
    (rendered (classBeside "Acme.Core" "Acme.core") "Acme").toOption.map nameView =
      some (["Core"], ["core"]) := by
  decide +kernel

theorem bindings_distinct_iff_unshared_apart :
    ∃ m place script members, Model.build (classBeside "Acme.Core" "Acme.core") [] = .ok m ∧
      place ∈ m.modules ∧ moduleScript m true place = .ok script ∧
      Members.arrange m place.name place.members = .ok members ∧
      (m.children place).map (fun child => last child.name) = ["core"] ∧
      (bindings members (childModules m place)).Nodup := by
  obtain ⟨⟨m, place, script⟩, hrendered, hview⟩ := Outcome.exists_eq_ok_of_map nameView_apart
  obtain ⟨hbuild, hplace, hscript⟩ := rendered_eq_ok hrendered
  obtain ⟨htypes, hchildren⟩ := Prod.mk.inj hview
  obtain ⟨members, hmembers, -, -, hiff, -⟩ :=
    bindings_distinct_iff_unshared hbuild hplace hscript
  refine ⟨m, place, script, members, hbuild, hplace, hscript, hmembers, hchildren, hiff.mpr ?_⟩
  constructor
  · intro entry hentry child hchild
    have hentry' := htypes ▸ List.mem_map_of_mem hentry
    have hchild' := hchildren ▸ List.mem_map_of_mem hchild
    rw [List.mem_singleton.mp hentry', List.mem_singleton.mp hchild']
    decide
  · have hnodup : ((m.children place).map fun child => last child.name).Nodup := by
      rw [hchildren]
      exact List.nodup_singleton _
    exact List.pairwise_map.mp hnodup

theorem nameView_shared :
    (rendered (classBeside "Acme.core" "Acme.Core") "Acme").toOption.map nameView =
      some (["core"], ["core"]) := by
  decide +kernel

theorem child_rebinds_class :
    ∃ m place script members, Model.build (classBeside "Acme.core" "Acme.Core") [] = .ok m ∧
      place ∈ m.modules ∧ moduleScript m true place = .ok script ∧
      Members.arrange m place.name place.members = .ok members ∧
      ¬ (bindings members (childModules m place)).Nodup ∧
      (sortNames (exportNames members (childModules m place))).length ≠
        (bindings members (childModules m place)).length := by
  obtain ⟨⟨m, place, script⟩, hrendered, hview⟩ := Outcome.exists_eq_ok_of_map nameView_shared
  obtain ⟨hbuild, hplace, hscript⟩ := rendered_eq_ok hrendered
  obtain ⟨htypes, hchildren⟩ := Prod.mk.inj hview
  obtain ⟨members, hmembers, -⟩ := exportScript_infix hscript
  have hshared : ¬ Unshared m place := by
    rintro ⟨hapart, -⟩
    obtain ⟨entry, htypes, hentry⟩ := List.map_eq_singleton_iff.mp htypes
    obtain ⟨child, hchildren, hchild⟩ := List.map_eq_singleton_iff.mp hchildren
    exact hapart entry (htypes ▸ List.mem_cons_self) child (hchildren ▸ List.mem_cons_self)
      (hentry.trans hchild.symm)
  have hiff := nodup_bindings_iff (Model.faithful_of_build hbuild) hplace hmembers
  exact ⟨m, place, script, members, hbuild, hplace, hscript, hmembers,
    fun h => hshared (hiff.mp h), fun h => hshared (hiff.mp (length_exports_eq_iff.mp h))⟩

end Binding

end Bindery
