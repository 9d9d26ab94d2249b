import Bindery.Model.Build
import Bindery.Proofs.Dependency
import Bindery.Proofs.PackageDescent

/-!
# Exact siblings

Climbing from a base, a declaration that does not stand at the top finds the one name on the way
whose parent is its own parent, or none. The climb meets no name twice and never more names than the
base has segments, so it is never lost. The siblings of a declaration are therefore exactly the
names on its own level around the bases that lie in its module, in the order in which the bases
lead to them.
-/

namespace Bindery

namespace Dotted

def Encloses (outer name : String) : Prop := outer = name ∨ isBelow outer name = true

theorem isBelow_child_iff {outer inner last : String} (hlast : Undotted last) :
    isBelow outer (inner ++ "." ++ last) = true ↔ Encloses outer inner := by
  rw [isBelow_iff, Encloses, isBelow_iff]
  constructor
  · intro ⟨rest, hrest⟩
    by_cases hundotted : Undotted rest
    · exact .inl (child_eq_child hlast hundotted hrest).1.symm
    · obtain ⟨middle, last', hlast', rfl⟩ := exists_child hundotted
      have hassoc : outer ++ "." ++ (middle ++ "." ++ last') =
          outer ++ "." ++ middle ++ "." ++ last' := by
        simp only [String.append_assoc]
      exact .inr ⟨middle, (child_eq_child hlast hlast' (hrest.trans hassoc)).1⟩
  · rintro (rfl | ⟨rest, rfl⟩)
    · exact ⟨last, rfl⟩
    · exact ⟨rest ++ "." ++ last, by simp only [String.append_assoc]⟩

theorem encloses_child_iff {outer inner last : String} (hlast : Undotted last) :
    Encloses outer (inner ++ "." ++ last) ↔ outer = inner ++ "." ++ last ∨ Encloses outer inner :=
  or_congr_right (isBelow_child_iff hlast)

theorem encloses_of_undotted {outer name : String} (h : Undotted name) :
    Encloses outer name ↔ outer = name := by
  refine or_iff_left fun hbelow => ?_
  obtain ⟨rest, rfl⟩ := isBelow_iff.mp hbelow
  exact not_undotted_child outer rest h

theorem Encloses.length_le {outer name : String} (h : Encloses outer name) :
    outer.toList.length ≤ name.toList.length := by
  rcases h with rfl | hbelow
  · exact le_rfl
  · obtain ⟨rest, rfl⟩ := isBelow_iff.mp hbelow
    exact (length_lt_child outer rest).le

theorem length_segments (name : String) : (segments name).length = depth name + 1 := by
  induction name using inductionOn with
  | single name h =>
    rw [segments_of_undotted h, depth, List.count_eq_zero.mpr h]
    rfl
  | child outer last hlast ih =>
    rw [segments_child outer hlast, List.length_append, ih, depth_child outer hlast]
    rfl

def wayUp (name : String) : List String := name :: (ancestors name).takeWhile (· ≠ "")

theorem wayUp_of_undotted {name : String} (h : Undotted name) : wayUp name = [name] := by
  rw [wayUp, ancestors_of_undotted h]
  rfl

theorem wayUp_child (outer : String) {last : String} (hlast : Undotted last) :
    wayUp (outer ++ "." ++ last) =
      (outer ++ "." ++ last) :: if outer = "" then [] else wayUp outer := by
  rw [wayUp, ancestors_child outer hlast, List.takeWhile_cons, wayUp]
  by_cases hempty : outer = ""
  · simp [hempty]
  · simp [hempty]

theorem length_le_of_mem_wayUp {name met : String} (h : met ∈ wayUp name) :
    met.toList.length ≤ name.toList.length := by
  induction name using inductionOn with
  | single name hundotted =>
    rw [wayUp_of_undotted hundotted, List.mem_singleton] at h
    rw [h]
  | child outer last hlast ih =>
    rw [wayUp_child outer hlast] at h
    have hlt := length_lt_child outer last
    rcases List.mem_cons.mp h with rfl | h
    · exact le_rfl
    · split at h
      · cases h
      · have hle := ih h
        omega

theorem wayUp_bounded (name : String) :
    (wayUp name).Nodup ∧ (wayUp name).length ≤ (segments name).length := by
  induction name using inductionOn with
  | single name hundotted => simp [wayUp_of_undotted hundotted, segments_of_undotted hundotted]
  | child outer last hlast ih =>
    rw [wayUp_child outer hlast, segments_child outer hlast, List.length_append]
    split
    · simp
    · refine ⟨List.nodup_cons.mpr ⟨fun hin => ?_, ih.1⟩, ?_⟩
      · have hle := length_le_of_mem_wayUp hin
        have hlt := length_lt_child outer last
        omega
      · simpa using ih.2

end Dotted

open Dotted

theorem climb_of_undotted {name : String} (h : Undotted name) (level : String) (fuel : ℕ) :
    climb level fuel name = if "" = level then .sibling name else .outside := by
  have hparent := parent_of_undotted h
  cases fuel with
  | zero => rw [climb_zero, hparent, if_pos rfl]
  | succ fuel => rw [climb_succ, hparent, if_pos rfl]

theorem climb_eq_find? {level name : String} {fuel : ℕ} (hfuel : depth name ≤ fuel) :
    climb level fuel name =
      ((wayUp name).find? fun met => parent met = level).elim .outside .sibling := by
  induction name using Dotted.inductionOn generalizing fuel with
  | single name hundotted =>
    rw [climb_of_undotted hundotted, wayUp_of_undotted hundotted, List.find?_singleton,
      parent_of_undotted hundotted]
    by_cases htop : "" = level
    · simp [htop]
    · simp [htop]
  | child outer last hlast ih =>
    rw [depth_child outer hlast] at hfuel
    obtain ⟨steps, rfl⟩ : ∃ steps, fuel = steps + 1 := ⟨fuel - 1, by omega⟩
    rw [climb_succ, wayUp_child outer hlast, List.find?_cons, parent_child outer hlast]
    by_cases hhere : outer = level
    · simp [hhere]
    · rw [if_neg hhere, decide_eq_false hhere]
      by_cases hempty : outer = ""
      · simp [hempty]
      · rw [if_neg hempty, if_neg hempty]
        exact ih (by omega)

theorem climb_eq_sibling_iff {level name sibling : String} {fuel : ℕ} (hlevel : level ≠ "")
    (hfuel : depth name ≤ fuel) :
    climb level fuel name = .sibling sibling ↔
      Encloses sibling name ∧ parent sibling = level := by
  -- The climb takes one segment off in each step, and so does the induction.
  induction name using Dotted.inductionOn generalizing fuel with
  | single name hundotted =>
    rw [climb_of_undotted hundotted, if_neg hlevel.symm, encloses_of_undotted hundotted]
    constructor
    · intro h
      cases h
    · rintro ⟨rfl, hparent⟩
      exact absurd ((parent_of_undotted hundotted).symm.trans hparent).symm hlevel
  | child outer last hlast ih =>
    rw [depth_child outer hlast] at hfuel
    obtain ⟨steps, rfl⟩ : ∃ steps, fuel = steps + 1 := ⟨fuel - 1, by omega⟩
    have hparent := parent_child outer hlast
    rw [climb_succ, hparent, encloses_child_iff hlast]
    by_cases hhere : outer = level
    · rw [if_pos hhere, Climb.sibling.injEq]
      refine ⟨fun heq => heq ▸ ⟨.inl rfl, hparent.trans hhere⟩, ?_⟩
      rintro ⟨rfl | hencloses, hlevel'⟩
      · rfl
      · -- a name around `outer` is no longer than it, so `outer` is not its parent
        have hne : sibling ≠ "" := by
          rintro rfl
          exact hlevel hlevel'.symm
        have hlt := length_parent_lt hne
        have hle := hencloses.length_le
        rw [hlevel', ← hhere] at hlt
        omega
    · rw [if_neg hhere]
      have hskip : (sibling = outer ++ "." ++ last ∨ Encloses sibling outer) ∧
          parent sibling = level ↔ Encloses sibling outer ∧ parent sibling = level := by
        refine and_congr_left fun hlevel' => or_iff_right ?_
        rintro rfl
        exact hhere (hparent.symm.trans hlevel')
      rw [hskip]
      by_cases hempty : outer = ""
      · have hundotted : Undotted outer := by simp [hempty, Undotted]
        rw [if_pos hempty, encloses_of_undotted hundotted]
        constructor
        · intro h
          cases h
        · rintro ⟨rfl, hlevel'⟩
          exact absurd ((parent_of_undotted hundotted).symm.trans hlevel').symm hlevel
      · rw [if_neg hempty]
        exact ih (by omega)

namespace Model

open Api

variable {m : Model} {d : Declaration} {module base : String}

theorem depth_le_steps (base : String) : depth base ≤ (segments base).length - 1 := by
  rw [length_segments]
  omega

theorem climbFrom_eq_find? (d : Declaration) (base : String) :
    climbFrom d base =
      ((wayUp base).find? fun met => parent met = parent d.fqn).elim .outside .sibling :=
  climb_eq_find? (depth_le_steps base)

theorem climbFrom_ne_lost : climbFrom d base ≠ .lost := by
  rw [climbFrom_eq_find?]
  cases (wayUp base).find? fun met => parent met = parent d.fqn with
  | none => simp
  | some met => simp

theorem climbFrom_eq_sibling_iff {sibling : String} (hlevel : parent d.fqn ≠ "") :
    climbFrom d base = .sibling sibling ↔
      Encloses sibling base ∧ parent sibling = parent d.fqn :=
  climb_eq_sibling_iff hlevel (depth_le_steps base)

/-- A declared base in the module leads `d` to a name around the base on the level of `d`. -/
def Yields (m : Model) (d : Declaration) (module base sibling : String) : Prop :=
  m.Climbs module base ∧ Encloses sibling base ∧ parent sibling = parent d.fqn

theorem yields_iff {sibling : String} (hlevel : parent d.fqn ≠ "") :
    m.Yields d module base sibling ↔
      m.Climbs module base ∧ climbFrom d base = .sibling sibling := by
  rw [Yields, climbFrom_eq_sibling_iff hlevel]

def YieldsBefore (m : Model) (d : Declaration) (module : String) (bases : List String)
    (earlier later : String) : Prop :=
  ∃ first rest, bases = first ++ rest ∧ (∃ base ∈ first, m.Yields d module base earlier) ∧
    ∀ base ∈ first, ¬ m.Yields d module base later

/-- The dependencies that the bases yield, each once and in the order of the bases. -/
structure Exact (m : Model) (d : Declaration) (module : String) (bases : List String)
    (found : List Dependency) : Prop where
  nodup : (found.map Dependency.fqn).Nodup
  mem_iff : ∀ fqn, fqn ∈ found.map Dependency.fqn ↔ ∃ base ∈ bases, m.Yields d module base fqn
  ordered : (found.map Dependency.fqn).Pairwise (m.YieldsBefore d module bases)
  kinded : m.Kinded found

theorem YieldsBefore.append {bases more : List String} {earlier later : String}
    (h : m.YieldsBefore d module bases earlier later) :
    m.YieldsBefore d module (bases ++ more) earlier later := by
  obtain ⟨first, rest, rfl, hearlier, hlater⟩ := h
  exact ⟨first, rest ++ more, List.append_assoc _ _ _, hearlier, hlater⟩

theorem Exact.skip {bases : List String} {found : List Dependency}
    (h : m.Exact d module bases found)
    (hknown : ∀ fqn, m.Yields d module base fqn → fqn ∈ found.map Dependency.fqn) :
    m.Exact d module (bases ++ [base]) found where
  nodup := h.nodup
  mem_iff fqn := by
    rw [h.mem_iff]
    constructor
    · rintro ⟨other, hother, hyields⟩
      exact ⟨other, List.mem_append_left _ hother, hyields⟩
    · rintro ⟨other, hother, hyields⟩
      rcases List.mem_append.mp hother with hother | hother
      · exact ⟨other, hother, hyields⟩
      · obtain rfl := List.mem_singleton.mp hother
        exact (h.mem_iff fqn).mp (hknown fqn hyields)
  ordered := h.ordered.imp fun hbefore => hbefore.append
  kinded := h.kinded

theorem Exact.add {bases : List String} {found : List Dependency} {dependency : Dependency}
    (h : m.Exact d module bases found) (hkinded : m.Kinded (found ++ [dependency]))
    (hnew : dependency.fqn ∉ found.map Dependency.fqn)
    (honly : ∀ fqn, m.Yields d module base fqn ↔ fqn = dependency.fqn) :
    m.Exact d module (bases ++ [base]) (found ++ [dependency]) where
  nodup := by
    rw [List.map_append, List.map_singleton]
    exact List.nodup_append.mpr ⟨h.nodup, List.nodup_singleton _, fun fqn hin other hother heq =>
      hnew (List.mem_singleton.mp hother ▸ heq ▸ hin)⟩
  mem_iff fqn := by
    rw [List.map_append, List.mem_append, h.mem_iff, List.map_singleton, List.mem_singleton,
      ← honly]
    simp only [List.mem_append, List.mem_singleton]
    constructor
    · rintro (⟨other, hother, hyields⟩ | hyields)
      · exact ⟨other, .inl hother, hyields⟩
      · exact ⟨base, .inr rfl, hyields⟩
    · rintro ⟨other, hother | rfl, hyields⟩
      · exact .inl ⟨other, hother, hyields⟩
      · exact .inr hyields
  ordered := by
    rw [List.map_append, List.map_singleton, List.pairwise_append]
    refine ⟨h.ordered.imp fun hbefore => hbefore.append, List.pairwise_singleton _ _, ?_⟩
    intro earlier hearlier later hlater
    obtain rfl := List.mem_singleton.mp hlater
    refine ⟨bases, [base], rfl, (h.mem_iff earlier).mp hearlier, fun other hother hyields => ?_⟩
    exact hnew ((h.mem_iff _).mpr ⟨other, hother, hyields⟩)
  kinded := hkinded

theorem Exact.step {bases : List String} {found found' : List Dependency}
    (hlevel : parent d.fqn ≠ "") (h : m.Exact d module bases found)
    (hstep : m.addSibling d module found base = .ok found') :
    m.Exact d module (bases ++ [base]) found' := by
  have hkinded := (addSibling_eq_ok hstep).kinded h.kinded
  cases addSibling_eq_ok hstep with
  | skipped hnot => exact h.skip fun fqn hyields => absurd hyields.1 hnot
  | outside hclimb =>
    refine h.skip fun fqn hyields => ?_
    have hsibling := ((yields_iff hlevel).mp hyields).2
    rw [hclimb] at hsibling
    cases hsibling
  | @known dependency hin hclimb =>
    refine h.skip fun fqn hyields => ?_
    have hsibling := ((yields_iff hlevel).mp hyields).2
    obtain rfl := Climb.sibling.inj (hclimb.symm.trans hsibling)
    exact List.mem_map_of_mem hin
  | @added dependency _ hclimb _ _ hclimbs hnew =>
    refine h.add hkinded hnew fun fqn => ?_
    rw [yields_iff hlevel, hclimb, Climb.sibling.injEq]
    exact ⟨fun hyields => hyields.2.symm, fun heq => ⟨hclimbs, heq.symm⟩⟩

theorem Exact.run {before bases : List String} {found found' : List Dependency}
    (hlevel : parent d.fqn ≠ "") (h : m.Exact d module before found)
    (hrun : bases.foldlM (m.addSibling d module) found = .ok found') :
    m.Exact d module (before ++ bases) found' := by
  induction bases generalizing before found with
  | nil =>
    obtain rfl := Outcome.pure_eq_ok.mp hrun
    rwa [List.append_nil]
  | cons base bases ih =>
    rw [List.foldlM_cons] at hrun
    obtain ⟨middle, hfirst, hrest⟩ := Outcome.bind_eq_ok.mp hrun
    have hnext := ih (h.step hlevel hfirst) hrest
    rwa [List.append_assoc, List.singleton_append] at hnext

theorem declaration_fault {fqn : String} {fault : Fault} (h : m.declaration fqn = .error fault) :
    fault = .unknownType fqn := by
  rw [declaration] at h
  split at h
  · cases h
  · exact (Except.error.inj h).symm

theorem addSibling_fault {found : List Dependency} {fault : Fault}
    (h : m.addSibling d module found base = .error fault) :
    (∃ cause, fault = .config cause) ∨ ∃ fqn, fault = .unknownType fqn := by
  rw [addSibling] at h
  split at h
  · cases h
  · rcases Outcome.bind_eq_error.mp h with hmodule | ⟨inside, -, h⟩
    · rcases Outcome.bind_eq_error.mp hmodule with hname | ⟨name, -, hpure⟩
      · exact .inl (Package.pythonName_fault hname)
      · cases hpure
    · split at h
      · cases h
      · split at h
        · cases h
        · rename_i hlost
          exact absurd hlost climbFrom_ne_lost
        · split at h
          · cases h
          · rcases Outcome.bind_eq_error.mp h with hdeclaration | ⟨sibling, -, hpure⟩
            · exact .inr ⟨_, declaration_fault hdeclaration⟩
            · cases hpure

/-- The siblings of a declaration below the top are exactly the names on its level around the bases
that lie in the module, in the order of these bases, and no search for them gets lost. -/
theorem siblings_exact (m : Model) {d : Declaration} (hlevel : parent d.fqn ≠ "")
    (module : String) :
    (∀ base, climbFrom d base =
        ((wayUp base).find? fun met => parent met = parent d.fqn).elim .outside .sibling ∧
      (wayUp base).Nodup ∧ (wayUp base).length ≤ (segments base).length) ∧
    (∀ cause, m.siblings d module ≠ .error (.internal cause)) ∧
    ∀ found, m.siblings d module = .ok found → m.Exact d module d.bases found := by
  refine ⟨fun base => ⟨climbFrom_eq_find? d base, wayUp_bounded base⟩, fun cause h => ?_,
    fun found h => ?_⟩
  · obtain ⟨base, -, found, hstep⟩ := Outcome.exists_fault_of_foldlM h
    rcases addSibling_fault hstep with ⟨_, hfault⟩ | ⟨_, hfault⟩
    · cases hfault
    · cases hfault
  · have hnone : m.Exact d module [] [] := ⟨by simp, by simp, by simp, by simp [Kinded]⟩
    exact hnone.run hlevel h

def derivedAssembly : Assembly :=
  let acme := (Assembly.ofModule "Acme" "1.0.0" "acme").withSubmodule "Acme.core" none
  let bases := [.ofFqn "Acme.core.Engine", .ofFqn "Acme.Outer", .ofFqn "Acme.Outer.Inner"]
  let derived : ClassType := { ClassType.ofFqn "Acme.Derived" with
    base := some "Acme.core.Engine", interfaces := ["Acme.Outer.Inner", "Acme.Outer"] }
  (bases ++ [derived]).foldl (fun a type => a.withType (.class type)) acme

def withSiblings (a : Assembly) (fqn module : String) :
    Outcome (Model × Declaration × List Dependency) := do
  let m ← build a []
  let d ← m.declaration fqn
  return (m, d, ← m.siblings d module)

theorem withSiblings_derived :
    ((withSiblings derivedAssembly "Acme.Derived" "acme").toOption.map fun (_, d, found) =>
      (d.bases, parent d.fqn, found)) =
      some (["Acme.core.Engine", "Acme.Outer.Inner", "Acme.Outer"], "Acme",
        [.module "Acme.core", .type "Acme.Outer"]) := by
  decide +kernel

theorem siblings_exact_derived :
    ∃ m d, build derivedAssembly [] = .ok m ∧ m.declaration "Acme.Derived" = .ok d ∧
      parent d.fqn ≠ "" ∧ m.siblings d "acme" = .ok [.module "Acme.core", .type "Acme.Outer"] ∧
      m.Exact d "acme" ["Acme.core.Engine", "Acme.Outer.Inner", "Acme.Outer"]
        [.module "Acme.core", .type "Acme.Outer"] := by
  obtain ⟨⟨m, d, found⟩, hrun, hview⟩ := Outcome.exists_eq_ok_of_map withSiblings_derived
  simp only [Prod.mk.injEq] at hview
  obtain ⟨hbases, hparent, rfl⟩ := hview
  simp only [withSiblings, Outcome.bind_eq_ok, Outcome.pure_eq_ok, Prod.mk.injEq] at hrun
  obtain ⟨m, hbuild, d, hd, _, hsiblings, rfl, rfl, rfl⟩ := hrun
  have hlevel : parent d.fqn ≠ "" := by simp [hparent]
  obtain ⟨-, -, hexact⟩ := siblings_exact m hlevel "acme"
  exact ⟨m, d, hbuild, hd, hlevel, hsiblings, hbases ▸ hexact _ hsiblings⟩

end Model

end Bindery
