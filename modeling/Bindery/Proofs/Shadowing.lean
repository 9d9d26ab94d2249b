import Bindery.Proofs.Model
import Mathlib.Data.List.Dedup

/-!
# Declarations that share a name

A model is built from the declarations of its assembly, its submodules and its types. They are
collected under their names before they are registered, so the table of a model never meets a
name twice: of several declarations with one name the last is kept, and no fault is raised.
All of them are kept exactly if their names are distinct.
-/

namespace Bindery

open Api

namespace Outcome

universe u

variable {α β : Type u}

def CollisionFree (x : Outcome α) : Prop := ∀ fqn, x ≠ .error (.symbolCollision fqn)

theorem collisionFree_ok (a : α) : CollisionFree (.ok a : Outcome α) :=
  fun _ h => nomatch h

theorem CollisionFree.bind {x : Outcome α} {f : α → Outcome β} (hx : CollisionFree x)
    (hf : ∀ a, CollisionFree (f a)) : CollisionFree (x >>= f) := by
  cases x with
  | error fault =>
    intro fqn h
    have hfault : fault = .symbolCollision fqn := Except.error.inj h
    exact hx fqn (by rw [hfault])
  | ok a => exact hf a

theorem CollisionFree.mapM {f : α → Outcome β} (hf : ∀ a, CollisionFree (f a)) (xs : List α) :
    CollisionFree (xs.mapM f) := by
  induction xs with
  | nil => exact collisionFree_ok []
  | cons x xs ih =>
    rw [List.mapM_cons]
    exact (hf x).bind fun y => ih.bind fun ys => collisionFree_ok (y :: ys)

theorem CollisionFree.foldlM {f : β → α → Outcome β} (hf : ∀ b a, CollisionFree (f b a))
    (xs : List α) (start : β) : CollisionFree (xs.foldlM f start) := by
  induction xs generalizing start with
  | nil => exact collisionFree_ok start
  | cons x xs ih =>
    rw [List.foldlM_cons]
    exact (hf start x).bind fun next => ih next

end Outcome

open Outcome (CollisionFree collisionFree_ok)

theorem Package.collisionFree_walk (assembly root : String) (submodules : SortedMap Submodule)
    (segments package tail : List String) :
    CollisionFree (walk assembly root submodules segments package tail) := by
  induction segments generalizing package tail with
  | nil => exact collisionFree_ok _
  | cons segment outer ih =>
    intro fqn h
    simp only [walk] at h
    split at h
    · cases h
    · split at h
      · exact ih package (segment :: tail) fqn h
      · split at h
        · split at h <;> cases h
        · exact ih _ tail fqn h

theorem Package.collisionFree_locate (root : Assembly) (name : String) :
    CollisionFree (locate root name) := by
  have htargets : ∀ assembly, CollisionFree (targetsOf root assembly) := by
    intro assembly fqn h
    simp only [targetsOf] at h
    split at h
    · cases h
    · split at h <;> cases h
  have hmodule : ∀ assembly targets, CollisionFree (moduleOf assembly targets) := by
    intro assembly targets fqn h
    simp only [moduleOf] at h
    split at h <;> cases h
  exact (htargets _).bind fun targets => (hmodule _ targets).bind fun module =>
    (collisionFree_walk _ module _ _ _ _).bind fun _ => collisionFree_ok _

namespace Model

variable (c : Catalog)

theorem collisionFree_entry (name : String) : CollisionFree (c.entry name) := by
  intro fqn h
  simp only [Catalog.entry] at h
  split at h <;> cases h

theorem collisionFree_moduleDeclarations : CollisionFree (moduleDeclarations c) := by
  have hlocate := Package.collisionFree_locate c.assembly
  have hroot : CollisionFree (rootDeclaration c) := (hlocate _).bind fun _ => collisionFree_ok _
  have hsubmodule : ∀ entry, CollisionFree (submoduleDeclaration c entry) := fun entry =>
    (hlocate entry.1).bind fun _ => collisionFree_ok _
  exact hroot.bind fun root =>
    (CollisionFree.mapM hsubmodule _).bind fun submodules => collisionFree_ok (root :: submodules)

theorem collisionFree_liftedStruct (parameters : List Parameter) :
    CollisionFree (c.liftedStruct parameters) := by
  rw [Catalog.liftedStruct]
  split
  · exact collisionFree_ok none
  · split
    · exact collisionFree_ok none
    · split
      · exact collisionFree_ok none
      · exact (collisionFree_entry c _).bind fun _ => collisionFree_ok _

theorem collisionFree_methodMember (parent : String) (kind : MethodKind) (isProtected : Bool)
    (method : Method) : CollisionFree (methodMember c parent kind isProtected method) :=
  (collisionFree_liftedStruct c _).bind fun _ => collisionFree_ok _

theorem collisionFree_abstractBases (type : ClassType) : CollisionFree (abstractBases c type) := by
  rw [abstractBases]
  split
  · exact collisionFree_ok []
  · refine (collisionFree_entry c _).bind fun entry => ?_
    split
    · exact collisionFree_ok _
    · exact fun _ h => nomatch h

theorem collisionFree_classContent (type : ClassType) : CollisionFree (classContent c type) := by
  have hinitializer : ∀ i, CollisionFree (initializerMember c type.fqn i) := fun i =>
    (collisionFree_liftedStruct c _).bind fun _ => collisionFree_ok _
  have hmethod : ∀ method, CollisionFree (classMethod c type.fqn method) := by
    intro method
    rw [classMethod]
    split
    · exact collisionFree_methodMember c _ _ _ _
    · split <;> exact collisionFree_methodMember c _ _ _ _
  refine (CollisionFree.mapM hinitializer _).bind fun initializers => ?_
  refine (CollisionFree.mapM hmethod _).bind fun methods => ?_
  split
  · exact (collisionFree_abstractBases c type).bind fun _ => collisionFree_ok _
  · exact collisionFree_ok _

theorem collisionFree_typeDeclaration (entry : TypeEntry) :
    CollisionFree (typeDeclaration c entry) := by
  refine CollisionFree.bind ?_ fun _ => collisionFree_ok _
  cases entry with
  | «class» type => exact collisionFree_classContent c type
  | interface type =>
    rw [content]
    split
    · exact collisionFree_ok _
    · have hmethod : ∀ method, CollisionFree (interfaceMethod c type.fqn method) := fun method =>
        (collisionFree_methodMember c _ _ _ _).bind fun _ => collisionFree_ok _
      exact (CollisionFree.mapM hmethod _).bind fun _ => collisionFree_ok _
  | enum type => exact collisionFree_ok _

theorem collisionFree_attach (declarations : OrderedMap Declaration) (entry : TypeEntry) :
    CollisionFree (attach declarations entry) := by
  intro fqn h
  simp only [attach] at h
  split at h
  · cases h
  · split at h <;> cases h

def declaredNames (a : Assembly) : List String :=
  a.name :: a.submodules.keys ++ a.types.values.map TypeEntry.fqn

theorem length_declaredNames (a : Assembly) :
    (declaredNames a).length = 1 + a.submodules.size + a.types.size := by
  simp [declaredNames, SortedMap.keys, SortedMap.size, OrderedMap.values, OrderedMap.size]
  omega

variable {c}

theorem map_fqn_ownDeclarations {ds : List Declaration} (h : ownDeclarations c = .ok ds) :
    ds.map (·.fqn) = declaredNames c.assembly := by
  simp only [ownDeclarations, moduleDeclarations, Outcome.bind_eq_ok, Outcome.pure_eq_ok] at h
  obtain ⟨_, ⟨root, hroot, submodules, hsubmodules, rfl⟩, types, htypes, rfl⟩ := h
  have hrootFqn : root.fqn = c.assembly.name := by
    simp only [rootDeclaration, Outcome.bind_eq_ok, Outcome.pure_eq_ok] at hroot
    obtain ⟨_, _, rfl⟩ := hroot
    rfl
  have hsubmoduleFqn : ∀ entry d, submoduleDeclaration c entry = .ok d → d.fqn = entry.1 := by
    intro entry d hd
    simp only [submoduleDeclaration, Outcome.bind_eq_ok, Outcome.pure_eq_ok] at hd
    obtain ⟨_, _, rfl⟩ := hd
    rfl
  have hsubmoduleNames := Outcome.map_eq_map_of_mapM hsubmoduleFqn hsubmodules
  have htypeNames := Outcome.map_eq_map_of_mapM (fun _ _ => fqn_of_typeDeclaration) htypes
  rw [List.map_append, List.map_cons, hrootFqn, hsubmoduleNames, htypeNames]
  rfl

theorem collisionFree_build (a : Assembly) (dependencies : List Assembly) :
    CollisionFree (build a dependencies) := by
  rw [build_eq]
  have hown : CollisionFree (ownDeclarations (catalog a dependencies)) :=
    (collisionFree_moduleDeclarations _).bind fun _ =>
      (CollisionFree.mapM (collisionFree_typeDeclaration _) _).bind fun _ => collisionFree_ok _
  exact hown.bind fun _ =>
    (CollisionFree.foldlM collisionFree_attach _ _).bind fun _ => collisionFree_ok _

theorem lookup_of_build {a : Assembly} {dependencies : List Assembly} {m : Model}
    (h : build a dependencies = .ok m) :
    ∃ ds, ownDeclarations m.toCatalog = .ok ds ∧
      ∀ k, m.symbols.lookup k = (ds.reverse.find? fun d => d.fqn = k).map fun d =>
        d.holding (typesIn m.toCatalog k) := by
  simp only [build_eq, Outcome.bind_eq_ok, Outcome.pure_eq_ok] at h
  obtain ⟨ds, hds, declarations, hattach, rfl⟩ := h
  refine ⟨ds, hds, fun k => ?_⟩
  show declarations.find? k = _
  rw [(foldlM_attach_eq_ok hattach).2, find?_foldl_declare, OrderedMap.find?_empty, Option.or_none]
  rfl

theorem symbols_size {a : Assembly} {dependencies : List Assembly} {m : Model}
    (h : build a dependencies = .ok m) :
    m.symbols.size = (declaredNames m.assembly).dedup.length := by
  obtain ⟨ds, hds, hlookup⟩ := lookup_of_build h
  have hnames := map_fqn_ownDeclarations hds
  have hmem : ∀ k, k ∈ m.symbols.entries.keys ↔ k ∈ (declaredNames m.assembly).dedup := by
    intro k
    have hfound : m.symbols.lookup k = m.symbols.entries.find? k := rfl
    rw [← OrderedMap.contains_iff, OrderedMap.contains, ← hfound, hlookup, Option.isSome_map,
      List.find?_isSome, List.mem_dedup, ← hnames, List.mem_map]
    simp
  have hperm : m.symbols.entries.keys.Perm (declaredNames m.assembly).dedup :=
    (List.perm_ext_iff_of_nodup m.symbols.entries.distinct (List.nodup_dedup _)).mpr hmem
  rw [← hperm.length_eq, OrderedMap.keys, List.length_map]
  rfl

/-- Building never reports a collision. The last declaration of every name is kept, so all
declarations are kept exactly if their names are distinct. -/
theorem build_keeps_last (a : Assembly) (dependencies : List Assembly) :
    (∀ fqn, build a dependencies ≠ .error (.symbolCollision fqn)) ∧
    ∀ m, build a dependencies = .ok m →
      ∃ ds, ownDeclarations m.toCatalog = .ok ds ∧ ds.map (·.fqn) = declaredNames m.assembly ∧
        (∀ k, m.symbols.lookup k = (ds.reverse.find? fun d => d.fqn = k).map fun d =>
          d.holding (typesIn m.toCatalog k)) ∧
        m.symbols.size = (declaredNames m.assembly).dedup.length ∧
        (m.symbols.size = 1 + m.assembly.submodules.size + m.assembly.types.size ↔
          (declaredNames m.assembly).Nodup) ∧
        ((declaredNames m.assembly).Nodup → ∀ d ∈ ds,
          m.symbols.lookup d.fqn = some (d.holding (typesIn m.toCatalog d.fqn))) := by
  refine ⟨collisionFree_build a dependencies, fun m h => ?_⟩
  obtain ⟨ds, hds, hlookup⟩ := lookup_of_build h
  have hnames := map_fqn_ownDeclarations hds
  have hsize := symbols_size h
  have hall : m.symbols.size = 1 + m.assembly.submodules.size + m.assembly.types.size ↔
      (declaredNames m.assembly).Nodup := by
    rw [hsize, ← length_declaredNames, (List.dedup_sublist _).length_eq, List.dedup_eq_self]
  refine ⟨ds, hds, hnames, hlookup, hsize, hall, fun hdistinct d hd => ?_⟩
  rw [hlookup, find?_reverse_of_distinct (hnames ▸ hdistinct) hd, Option.map_some]

def census (m : Model) : ℕ × ℕ × Bool × ℕ :=
  (m.assembly.submodules.size, m.assembly.types.size, decide (declaredNames m.assembly).Nodup,
    m.symbols.size)

def widgetInSubmodule : Assembly :=
  ((Assembly.ofModule "Acme" "1.0.0" "acme").withSubmodule "Acme.core" none).withType
    (.class (.ofFqn "Acme.core.Widget"))

theorem census_widgetInSubmodule :
    (build widgetInSubmodule []).toOption.map census = some (1, 1, true, 3) := by
  decide +kernel

theorem build_keeps_last_distinct :
    ∃ m, build widgetInSubmodule [] = .ok m ∧ (declaredNames m.assembly).Nodup ∧
      m.symbols.size = 1 + m.assembly.submodules.size + m.assembly.types.size ∧
      ∃ ds, ownDeclarations m.toCatalog = .ok ds ∧ ds.length = 3 ∧ ∀ d ∈ ds,
        m.symbols.lookup d.fqn = some (d.holding (typesIn m.toCatalog d.fqn)) := by
  obtain ⟨m, hbuild, hcensus⟩ := Outcome.exists_eq_ok_of_map census_widgetInSubmodule
  obtain ⟨hsubmodules, htypes, hdistinct, -⟩ : m.assembly.submodules.size = 1 ∧
      m.assembly.types.size = 1 ∧ (declaredNames m.assembly).Nodup ∧ m.symbols.size = 3 := by
    simpa [census] using hcensus
  obtain ⟨ds, hds, hnames, -, -, hall, howned⟩ :=
    (build_keeps_last widgetInSubmodule []).2 m hbuild
  have hlength : ds.length = 3 := by
    rw [← List.length_map (·.fqn), hnames, length_declaredNames, hsubmodules, htypes]
  exact ⟨m, hbuild, hdistinct, hall.mpr hdistinct, ds, hds, hlength, howned hdistinct⟩

def namesakes : Assembly :=
  { Assembly.ofModule "Acme" "1.0.0" "acme" with
    types := .ofList [
      ("Acme.First", .class { ClassType.ofFqn "Acme.Widget" with name := "First" }),
      ("Acme.Second", .class { ClassType.ofFqn "Acme.Widget" with name := "Second" })] }

theorem census_namesakes :
    (build namesakes []).toOption.map census = some (0, 2, false, 2) := by
  decide +kernel

theorem namesakes_shadowed :
    ∃ m, build namesakes [] = .ok m ∧ ¬ (declaredNames m.assembly).Nodup ∧
      1 + m.assembly.submodules.size + m.assembly.types.size = 3 ∧ m.symbols.size = 2 := by
  obtain ⟨m, hbuild, hcensus⟩ := Outcome.exists_eq_ok_of_map census_namesakes
  obtain ⟨hsubmodules, htypes, hdistinct, hsize⟩ : m.assembly.submodules.size = 0 ∧
      m.assembly.types.size = 2 ∧ ¬ (declaredNames m.assembly).Nodup ∧ m.symbols.size = 2 := by
    simpa [census] using hcensus
  exact ⟨m, hbuild, hdistinct, by rw [hsubmodules, htypes], hsize⟩

end Model

end Bindery
