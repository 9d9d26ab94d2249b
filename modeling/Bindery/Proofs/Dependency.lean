import Bindery.Order.Dependency
import Bindery.Proofs.Dotted
import Bindery.Proofs.Outcome

/-!
# Theory of sibling dependencies

A climb meets the parents of a base one after the other and stops at the first one that lies
directly below the level it is looking for. The siblings of a declaration are what the climbs
from its bases find.
-/

namespace Bindery

open Dotted

theorem climb_zero (level name : String) :
    climb level 0 name =
      if parent name = level then .sibling name else if parent name = "" then .outside else .lost :=
  rfl

theorem climb_succ (level name : String) (fuel : ℕ) :
    climb level (fuel + 1) name =
      if parent name = level then .sibling name
      else if parent name = "" then .outside else climb level fuel (parent name) :=
  rfl

theorem climb_eq_sibling {level name sibling : String} {fuel : ℕ}
    (h : climb level fuel name = .sibling sibling) :
    ∃ n, parent^[n] name = sibling ∧ parent^[n + 1] name = level ∧
      ∀ i < n, parent^[i + 1] name ≠ level := by
  induction fuel generalizing name with
  | zero =>
    rw [climb_zero] at h
    split at h
    · exact ⟨0, Climb.sibling.inj h, ‹_›, by simp⟩
    · split at h <;> cases h
  | succ fuel ih =>
    rw [climb_succ] at h
    split at h
    · exact ⟨0, Climb.sibling.inj h, ‹_›, by simp⟩
    · rename_i hlevel
      split at h
      · cases h
      · obtain ⟨n, hsibling, hparent, hfirst⟩ := ih h
        refine ⟨n + 1, hsibling, hparent, fun i hi => ?_⟩
        cases i with
        | zero => exact hlevel
        | succ i => exact hfirst i (by omega)

theorem mem_ancestors_parent {level name : String} (h : level ∈ ancestors name)
    (hne : parent name ≠ level) : level ∈ ancestors (parent name) := by
  obtain ⟨n, hn⟩ := mem_ancestors_iff.mp h
  cases n with
  | zero => exact absurd hn hne
  | succ n => exact mem_ancestors_iff.mpr ⟨n, hn⟩

theorem parent_ne_empty {level name : String} (h : level ∈ ancestors name)
    (hne : parent name ≠ level) : parent name ≠ "" := by
  intro hempty
  obtain ⟨n, hn⟩ := mem_ancestors_iff.mp (mem_ancestors_parent h hne)
  rw [hempty, iterate_parent_empty] at hn
  exact hne (hempty.trans hn)

theorem climb_ne_outside {level name : String} {fuel : ℕ} (h : level ∈ ancestors name) :
    climb level fuel name ≠ .outside := by
  induction fuel generalizing name with
  | zero =>
    rw [climb_zero]
    split
    · simp
    · rw [if_neg (parent_ne_empty h ‹_›)]
      simp
  | succ fuel ih =>
    rw [climb_succ]
    split
    · simp
    · rw [if_neg (parent_ne_empty h ‹_›)]
      exact ih (mem_ancestors_parent h ‹_›)

namespace Model

variable {m : Model} {d : Declaration} {module base : String} {found found' : List Dependency}

def Climbs (m : Model) (module base : String) : Prop :=
  m.symbols.contains base = true ∧ m.isInModule base module = .ok true

def climbFrom (d : Declaration) (base : String) : Climb :=
  climb (parent d.fqn) ((segments base).length - 1) base

inductive Adds (m : Model) (d : Declaration) (module base : String) :
    List Dependency → List Dependency → Prop
  | skipped {found : List Dependency} (h : ¬ m.Climbs module base) :
      Adds m d module base found found
  | outside {found : List Dependency} (hclimb : climbFrom d base = .outside) :
      Adds m d module base found found
  | known {found : List Dependency} {dependency : Dependency} (hin : dependency ∈ found)
      (hclimb : climbFrom d base = .sibling dependency.fqn) : Adds m d module base found found
  | added {found : List Dependency} {dependency : Dependency} {sibling : Declaration}
      (hclimb : climbFrom d base = .sibling dependency.fqn)
      (hsibling : m.declaration dependency.fqn = .ok sibling)
      (hkind : dependency.isModule = sibling.isModule) (hclimbs : m.Climbs module base)
      (hnew : dependency.fqn ∉ found.map Dependency.fqn) :
      Adds m d module base found (found ++ [dependency])

theorem addSibling_eq_ok (h : m.addSibling d module found base = .ok found') :
    Adds m d module base found found' := by
  rw [addSibling] at h
  split at h
  · rename_i habsent
    obtain rfl := Except.ok.inj h
    exact .skipped fun hclimbs => by simp [hclimbs.1] at habsent
  · rename_i hdeclared
    obtain ⟨inside, hinside, h⟩ := Outcome.bind_eq_ok.mp h
    split at h
    · rename_i hout
      obtain rfl := Outcome.pure_eq_ok.mp h
      refine .skipped fun hclimbs => ?_
      rw [hclimbs.2] at hinside
      obtain rfl := Except.ok.inj hinside
      simp at hout
    · rename_i hin
      obtain rfl : inside = true := by simpa using hin
      have hclimbs : m.Climbs module base := ⟨by simpa using hdeclared, hinside⟩
      split at h
      · rename_i hclimb
        obtain rfl := Outcome.pure_eq_ok.mp h
        exact .outside hclimb
      · cases h
      · rename_i fqn hclimb
        split at h
        · rename_i hknown
          obtain rfl := Outcome.pure_eq_ok.mp h
          obtain ⟨dependency, hin, hfqn⟩ := List.any_eq_true.mp hknown
          obtain rfl := of_decide_eq_true hfqn
          exact .known hin hclimb
        · rename_i hunknown
          have hnew : fqn ∉ found.map Dependency.fqn := by simpa using hunknown
          obtain ⟨sibling, hsibling, h⟩ := Outcome.bind_eq_ok.mp h
          obtain rfl := Outcome.pure_eq_ok.mp h
          by_cases hmodule : sibling.isModule = true
          · rw [if_pos hmodule]
            exact .added hclimb hsibling hmodule.symm hclimbs hnew
          · rw [if_neg hmodule]
            exact .added hclimb hsibling (Bool.eq_false_iff.mpr hmodule).symm hclimbs hnew

def Kinded (m : Model) (found : List Dependency) : Prop :=
  ∀ dependency ∈ found, ∃ sibling, m.declaration dependency.fqn = .ok sibling ∧
    dependency.isModule = sibling.isModule

theorem Adds.subset (h : Adds m d module base found found') : found ⊆ found' := by
  cases h with
  | skipped => exact List.Subset.refl _
  | outside => exact List.Subset.refl _
  | known => exact List.Subset.refl _
  | added => exact List.subset_append_left _ _

theorem Adds.kinded (h : Adds m d module base found found') (hfound : m.Kinded found) :
    m.Kinded found' := by
  cases h with
  | skipped => exact hfound
  | outside => exact hfound
  | known => exact hfound
  | added hclimb hsibling hkind =>
    intro dependency hin
    rcases List.mem_append.mp hin with hin | hin
    · exact hfound dependency hin
    · obtain rfl := List.mem_singleton.mp hin
      exact ⟨_, hsibling, hkind⟩

theorem Adds.of_climbs (h : Adds m d module base found found') (hclimbs : m.Climbs module base)
    (hbelow : parent d.fqn ∈ ancestors base) :
    ∃ dependency ∈ found', climbFrom d base = .sibling dependency.fqn := by
  cases h with
  | skipped hnot => exact absurd hclimbs hnot
  | outside hclimb => exact absurd hclimb (climb_ne_outside hbelow)
  | known hin hclimb => exact ⟨_, hin, hclimb⟩
  | added hclimb => exact ⟨_, List.mem_append_right _ List.mem_cons_self, hclimb⟩

theorem foldlM_addSibling {bases : List String}
    (h : bases.foldlM (m.addSibling d module) found = .ok found') (hfound : m.Kinded found) :
    found ⊆ found' ∧ m.Kinded found' ∧
      ∀ base ∈ bases, m.Climbs module base → parent d.fqn ∈ ancestors base →
        ∃ dependency ∈ found', climbFrom d base = .sibling dependency.fqn := by
  induction bases generalizing found with
  | nil =>
    obtain rfl := Outcome.pure_eq_ok.mp h
    exact ⟨List.Subset.refl _, hfound, by simp⟩
  | cons first bases ih =>
    rw [List.foldlM_cons] at h
    obtain ⟨middle, hfirst, hrest⟩ := Outcome.bind_eq_ok.mp h
    have hadds := addSibling_eq_ok hfirst
    obtain ⟨hsubset, hkinded, hbases⟩ := ih hrest (hadds.kinded hfound)
    refine ⟨List.Subset.trans hadds.subset hsubset, hkinded, fun base hbase hclimbs hbelow => ?_⟩
    rcases List.mem_cons.mp hbase with rfl | hbase
    · obtain ⟨dependency, hin, hclimb⟩ := hadds.of_climbs hclimbs hbelow
      exact ⟨dependency, hsubset hin, hclimb⟩
    · exact hbases base hbase hclimbs hbelow

theorem exists_isInModule {siblings : List Dependency} (h : m.siblings d module = .ok siblings)
    (hbase : base ∈ d.bases) (hknown : m.symbols.contains base = true) :
    ∃ inside, m.isInModule base module = .ok inside := by
  obtain ⟨found, found', hstep⟩ := Outcome.exists_step_of_foldlM h hbase
  rw [addSibling, hknown] at hstep
  obtain ⟨inside, hinside, -⟩ := Outcome.bind_eq_ok.mp hstep
  exact ⟨inside, hinside⟩

/-- A declaration depends on the first name on the way up from a base that lies on its own
level, unless that is a module. -/
theorem type_mem_siblings {siblings : List Dependency} (h : m.siblings d module = .ok siblings)
    (hbase : base ∈ d.bases) (hclimbs : m.Climbs module base)
    (hbelow : parent d.fqn ∈ ancestors base) :
    ∃ n, parent^[n + 1] base = parent d.fqn ∧ (∀ i < n, parent^[i + 1] base ≠ parent d.fqn) ∧
      ∀ sibling, m.declaration (parent^[n] base) = .ok sibling → sibling.isModule = false →
        .type (parent^[n] base) ∈ siblings := by
  have hnone : m.Kinded [] := by simp [Kinded]
  obtain ⟨-, hkinded, hbases⟩ := foldlM_addSibling h hnone
  obtain ⟨dependency, hin, hclimb⟩ := hbases base hbase hclimbs hbelow
  obtain ⟨n, hsibling, hlevel, hfirst⟩ := climb_eq_sibling hclimb
  refine ⟨n, hlevel, hfirst, fun sibling hdeclaration hkind => ?_⟩
  obtain ⟨sibling', hdeclaration', hkind'⟩ := hkinded dependency hin
  rw [hsibling] at hdeclaration
  obtain rfl := Except.ok.inj (hdeclaration.symm.trans hdeclaration')
  rw [hsibling]
  cases dependency with
  | type fqn => exact hin
  | module fqn => exact absurd (hkind'.trans hkind) (by simp [Dependency.isModule])

end Model

end Bindery
