import Bindery.Proofs.PackageDescent
import Bindery.Proofs.Reference

/-!
# Cuts in paths

A reference shows what is left of the path of a type behind its package, behind the module that is
being written, or behind the module that owns the type. The part in front is counted and not
compared: where it is no outer part of the path, the rest is a piece of a name, or there is none.
`Model.cuts` lists the cuts that a reference makes. They are behind outer parts of the path as long
as no name from the type up to its owner is a submodule and the type is not the assembly itself.
-/

namespace Bindery

open Api Dotted

theorem Text.dropBytes?_behind_end (text : List Char) :
    Text.dropBytes? ((String.ofList text).utf8ByteSize + 1) text = none := by
  induction text with
  | nil => rfl
  | cons c text ih =>
    have hrest : c.utf8Size + (String.ofList text).utf8ByteSize + 1 - c.utf8Size =
        (String.ofList text).utf8ByteSize + 1 := by
      omega
    rw [utf8ByteSize_cons, Text.dropBytes?, if_pos (by omega), hrest, ih]

theorem pathBehind_self (fqn path : String) :
    pathBehind fqn path true path = .error (.brokenName fqn) := by
  have hdrop := Text.dropBytes?_behind_end path.toList
  rw [String.ofList_toList] at hdrop
  simp [pathBehind, hdrop]

theorem pathBehind_fault {fqn start path : String} {skipDot : Bool} {fault : Fault}
    (h : pathBehind fqn start skipDot path = .error fault) : fault = .brokenName fqn := by
  rw [pathBehind] at h
  split at h
  · cases h
  · exact (Except.error.inj h).symm

structure Cut where
  start : String
  skipDot : Bool
  deriving DecidableEq

namespace Cut

variable {cut : Cut} {path : String}

def make (cut : Cut) (fqn path : String) : Outcome String :=
  pathBehind fqn cut.start cut.skipDot path

/-- A cut behind an outer part of the path: a dot follows, or the path ends and no dot is
skipped. -/
def Genuine (cut : Cut) (path : String) : Prop :=
  isBelow cut.start path = true ∨ (cut.skipDot = false ∧ path = cut.start)

instance (cut : Cut) (path : String) : Decidable (cut.Genuine path) :=
  inferInstanceAs (Decidable (_ ∨ _))

theorem Genuine.exists_rest (h : cut.Genuine path) (fqn : String) :
    ∃ rest, cut.make fqn path = .ok rest := by
  obtain ⟨start, skipDot⟩ := cut
  rcases h with hbelow | ⟨hskip, hpath⟩
  · obtain ⟨rest, rfl⟩ := isBelow_iff.mp hbelow
    cases skipDot with
    | true => exact ⟨rest, pathBehind_child fqn start rest⟩
    | false =>
      refine ⟨"." ++ rest, ?_⟩
      rw [make, String.append_assoc]
      exact pathBehind_append fqn start ("." ++ rest)
  · simp only at hskip hpath
    subst hskip hpath
    refine ⟨"", ?_⟩
    have hwhole := pathBehind_append fqn path ""
    rwa [String.append_empty] at hwhole

def makeAll (fqn path : String) : List Cut → Outcome Unit
  | [] => .ok ()
  | cut :: cuts => do
    let _ ← cut.make fqn path
    makeAll fqn path cuts

theorem makeAll_eq_ok_iff {fqn : String} {cuts : List Cut} :
    makeAll fqn path cuts = .ok () ↔ ∀ cut ∈ cuts, ∃ rest, cut.make fqn path = .ok rest := by
  induction cuts with
  | nil => simp [makeAll]
  | cons cut cuts ih =>
    rw [makeAll, Outcome.bind_eq_ok, List.forall_mem_cons, ← ih]
    constructor
    · rintro ⟨rest, hrest, hcuts⟩
      exact ⟨⟨rest, hrest⟩, hcuts⟩
    · rintro ⟨⟨rest, hrest⟩, hcuts⟩
      exact ⟨rest, hrest, hcuts⟩

theorem makeAll_fault {fqn : String} {cuts : List Cut} {fault : Fault}
    (h : makeAll fqn path cuts = .error fault) : fault = .brokenName fqn := by
  induction cuts with
  | nil => cases h
  | cons cut cuts ih =>
    rw [makeAll, Outcome.bind_eq_error] at h
    rcases h with hmake | ⟨rest, -, hcuts⟩
    · exact pathBehind_fault hmake
    · exact ih hcuts

end Cut

namespace Model

variable {m : Model} {scope : Scope} {fqn : String}

/-- The cuts in the path of a type of the module that is being written. Inside another type, a
mention that is evaluated at once cuts off the package as well. -/
def ownCuts (scope : Scope) (around : List Package.PythonName) (target : Package.PythonName)
    (owner : String) : List Cut :=
  if !scope.annotation && around.any fun outer => isBelow outer.path target.path then
    [⟨owner, true⟩, ⟨target.package, true⟩]
  else [⟨owner, true⟩]

def cuts (m : Model) (scope : Scope) (fqn : String) :
    Outcome (Package.PythonName × List Cut) := do
  let target ← m.pythonName fqn
  let _ ← m.entry fqn
  if target.assembly ≠ m.assembly.name then return (target, [⟨target.package, false⟩])
  else
    let home ← m.pythonName scope.module
    let owner ← m.pythonName (m.owner fqn)
    if owner.path = home.path then
      let around ← scope.enclosing.reverse.mapM m.pythonName
      return (target, ownCuts scope around target owner.path)
    else return (target, [⟨owner.path, true⟩])

section Branches

variable {isStruct : Bool} {target : Package.PythonName} {module owner : String}

theorem resolveForeign_map :
    (Catalog.resolveForeign scope isStruct target fqn).map (fun _ => ()) =
      Cut.makeAll fqn target.path [⟨target.package, false⟩] := by
  rw [Catalog.resolveForeign, Cut.makeAll, Cut.make]
  cases pathBehind fqn target.package false target.path with
  | error fault => rfl
  | ok rest => rfl

theorem resolveAcross_map :
    (Catalog.resolveAcross scope isStruct target module owner fqn).map (fun _ => ()) =
      Cut.makeAll fqn target.path [⟨owner, true⟩] := by
  rw [Catalog.resolveAcross, Cut.makeAll, Cut.make]
  cases pathBehind fqn owner true target.path with
  | error fault => rfl
  | ok rest => rfl

theorem resolveLocal_map :
    (Catalog.resolveLocal m.toCatalog scope isStruct target module fqn).map (fun _ => ()) =
      scope.enclosing.reverse.mapM m.pythonName >>= fun around =>
        Cut.makeAll fqn target.path (ownCuts scope around target module) := by
  rw [Catalog.resolveLocal]
  cases scope.enclosing.reverse.mapM m.pythonName with
  | error fault => rfl
  | ok around =>
    simp only [Outcome.ok_bind, ownCuts]
    generalize around.any (fun outer => isBelow outer.path target.path) = isInside
    by_cases hruntime : (!scope.annotation && isInside) = true
    · obtain ⟨hsite, hinside⟩ : scope.annotation = false ∧ isInside = true := by
        simpa using hruntime
      rw [if_pos hruntime, Cut.makeAll, Cut.makeAll, Cut.make, Cut.make, hsite, hinside]
      cases pathBehind fqn module true target.path with
      | error fault => rfl
      | ok below =>
        cases pathBehind fqn target.package true target.path with
        | error fault => rfl
        | ok display => rfl
    · rw [if_neg hruntime, Cut.makeAll, Cut.make]
      cases pathBehind fqn module true target.path with
      | error fault => rfl
      | ok below =>
        simp only [Outcome.ok_bind, if_neg hruntime]
        split
        · rfl
        · rfl

end Branches

theorem resolve_map_eq (m : Model) (scope : Scope) (fqn : String) :
    (m.resolve scope fqn).map (fun _ => ()) =
      m.cuts scope fqn >>= fun found => Cut.makeAll fqn found.1.path found.2 := by
  rw [Catalog.resolve, cuts]
  cases m.pythonName fqn with
  | error fault => rfl
  | ok target =>
    cases m.entry fqn with
    | error fault => rfl
    | ok entry =>
      simp only [Outcome.ok_bind]
      by_cases hforeign : target.assembly ≠ m.assembly.name
      · rw [if_pos hforeign, if_pos hforeign, resolveForeign_map]
        rfl
      · rw [if_neg hforeign, if_neg hforeign]
        cases m.pythonName scope.module with
        | error fault => rfl
        | ok home =>
          cases m.pythonName (m.owner fqn) with
          | error fault => rfl
          | ok owner =>
            simp only [Outcome.ok_bind]
            by_cases hsame : owner.path = home.path
            · rw [if_pos hsame, if_pos hsame, ← hsame, resolveLocal_map]
              cases scope.enclosing.reverse.mapM m.pythonName with
              | error fault => rfl
              | ok around => rfl
            · rw [if_neg hsame, if_neg hsame, resolveAcross_map]
              rfl

theorem cuts_eq_ok {target : Package.PythonName} {cuts : List Cut}
    (h : m.cuts scope fqn = .ok (target, cuts)) :
    m.pythonName fqn = .ok target ∧
      ((target.assembly ≠ m.assembly.name ∧ cuts = [⟨target.package, false⟩]) ∨
        (target.assembly = m.assembly.name ∧ ∃ owner, m.pythonName (m.owner fqn) = .ok owner ∧
          ⟨owner.path, true⟩ ∈ cuts ∧
          ∀ cut ∈ cuts, cut = ⟨owner.path, true⟩ ∨ cut = ⟨target.package, true⟩)) := by
  simp only [Model.cuts, Outcome.bind_eq_ok] at h
  obtain ⟨name, hname, entry, -, h⟩ := h
  by_cases hforeign : name.assembly ≠ m.assembly.name
  · rw [if_pos hforeign] at h
    obtain ⟨rfl, rfl⟩ := Prod.mk.inj (Outcome.pure_eq_ok.mp h)
    exact ⟨hname, .inl ⟨hforeign, rfl⟩⟩
  · rw [if_neg hforeign] at h
    simp only [Outcome.bind_eq_ok] at h
    obtain ⟨home, -, owner, howner, h⟩ := h
    rw [not_not] at hforeign
    split at h
    · obtain ⟨around, -, h⟩ := Outcome.bind_eq_ok.mp h
      obtain ⟨rfl, rfl⟩ := Prod.mk.inj (Outcome.pure_eq_ok.mp h)
      refine ⟨hname, .inr ⟨hforeign, owner, howner, ?_⟩⟩
      rw [ownCuts]
      split
      · simp
      · simp
    · obtain ⟨rfl, rfl⟩ := Prod.mk.inj (Outcome.pure_eq_ok.mp h)
      exact ⟨hname, .inr ⟨hforeign, owner, howner, by simp⟩⟩

theorem entry_fault {fault : Fault} (h : m.entry fqn = .error fault) : fault = .unknownType fqn := by
  rw [Catalog.entry] at h
  split at h
  · cases h
  · exact (Except.error.inj h).symm

theorem cuts_fault {fault : Fault} (h : m.cuts scope fqn = .error fault) :
    (∃ cause, fault = .config cause) ∨ fault = .unknownType fqn := by
  rw [Model.cuts, Outcome.bind_eq_error] at h
  rcases h with htarget | ⟨target, -, h⟩
  · exact .inl (Package.pythonName_fault htarget)
  rcases Outcome.bind_eq_error.mp h with hentry | ⟨entry, -, h⟩
  · exact .inr (entry_fault hentry)
  split at h
  · cases h
  rcases Outcome.bind_eq_error.mp h with hhome | ⟨home, -, h⟩
  · exact .inl (Package.pythonName_fault hhome)
  rcases Outcome.bind_eq_error.mp h with howner | ⟨owner, -, h⟩
  · exact .inl (Package.pythonName_fault howner)
  split at h
  · rcases Outcome.bind_eq_error.mp h with haround | ⟨around, -, hpure⟩
    · obtain ⟨outer, -, houter⟩ := Outcome.exists_fault_of_mapM haround
      exact .inl (Package.pythonName_fault houter)
    · cases hpure
  · cases h

theorem resolve_ok_iff {target : Package.PythonName} {cuts : List Cut}
    (h : m.cuts scope fqn = .ok (target, cuts)) :
    (∃ r, m.resolve scope fqn = .ok r) ↔
      ∀ cut ∈ cuts, ∃ rest, cut.make fqn target.path = .ok rest := by
  rw [Outcome.exists_eq_ok_iff_map, resolve_map_eq, h, Outcome.ok_bind, Cut.makeAll_eq_ok_iff]

theorem resolve_fault {target : Package.PythonName} {cuts : List Cut} {fault : Fault}
    (h : m.cuts scope fqn = .ok (target, cuts)) (hfault : m.resolve scope fqn = .error fault) :
    fault = .brokenName fqn := by
  rw [← Outcome.map_eq_error_iff (f := fun _ => ()), resolve_map_eq, h, Outcome.ok_bind] at hfault
  exact Cut.makeAll_fault hfault

theorem resolve_broken_iff {name : String} :
    m.resolve scope fqn = .error (.brokenName name) ↔
      name = fqn ∧ ∃ target cuts, m.cuts scope fqn = .ok (target, cuts) ∧
        ¬ ∀ cut ∈ cuts, ∃ rest, cut.make fqn target.path = .ok rest := by
  constructor
  · intro hbroken
    cases hcuts : m.cuts scope fqn with
    | error fault =>
      have hfault : m.resolve scope fqn = .error fault := by
        rw [← Outcome.map_eq_error_iff (f := fun _ => ()), resolve_map_eq, hcuts,
          Outcome.error_bind]
      obtain rfl := Except.error.inj (hbroken.symm.trans hfault)
      rcases cuts_fault hcuts with ⟨cause, hcause⟩ | hunknown
      · cases hcause
      · cases hunknown
    | ok found =>
      obtain ⟨target, cuts⟩ := found
      refine ⟨Fault.brokenName.inj (resolve_fault hcuts hbroken), target, cuts, rfl, ?_⟩
      rw [← resolve_ok_iff hcuts, hbroken]
      simp
  · rintro ⟨rfl, target, cuts, hcuts, hnot⟩
    rw [← resolve_ok_iff hcuts] at hnot
    cases hresolve : m.resolve scope name with
    | ok r => exact absurd ⟨r, hresolve⟩ hnot
    | error fault => rw [resolve_fault hcuts hresolve]

def nesting (m : Model) (fqn : String) : List String :=
  fqn :: (ancestors fqn).takeWhile fun outer => outer ≠ m.owner fqn

/-- A type that is not the assembly and that no submodule separates from its owner. -/
def Nested (m : Model) (fqn : String) : Prop :=
  fqn ≠ m.assembly.name ∧
    ∀ name ∈ m.nesting fqn, m.assembly.submodules.contains name = false

instance (m : Model) (fqn : String) : Decidable (m.Nested fqn) :=
  inferInstanceAs (Decidable (_ ∧ _))

theorem owner_of_undotted (h : Undotted fqn) : m.owner fqn = m.assembly.name := by
  simp [Catalog.owner, ancestors_of_undotted h]

theorem owner_child {outer last : String} (hlast : Undotted last)
    (hhead : head outer = m.assembly.name) :
    m.owner (outer ++ "." ++ last) = outer ∨
      (m.owner (outer ++ "." ++ last) = m.owner outer ∧ outer ≠ m.assembly.name) := by
  by_cases hempty : outer = ""
  · subst hempty
    have hname : m.assembly.name = "" := hhead.symm.trans (by decide)
    refine .inl ?_
    simp only [Catalog.owner, ancestors_child "" hlast]
    simp [hname]
  · cases htype : m.assembly.types.contains outer with
    | false => exact .inl (owner_child_of_module hlast hempty htype)
    | true =>
      rw [owner_child_of_type hlast hempty htype]
      by_cases hname : outer = m.assembly.name
      · have hundotted : Undotted outer := by
          rw [hname, ← hhead]
          exact undotted_head outer
        exact .inl ((owner_of_undotted hundotted).trans hname.symm)
      · exact .inr ⟨rfl, hname⟩

theorem mem_nesting (m : Model) (fqn : String) : fqn ∈ m.nesting fqn := by
  rw [nesting]
  exact List.mem_cons_self

theorem nesting_child {outer last : String} (hlast : Undotted last)
    (hne : m.owner (outer ++ "." ++ last) ≠ outer)
    (howner : m.owner (outer ++ "." ++ last) = m.owner outer) :
    m.nesting (outer ++ "." ++ last) = (outer ++ "." ++ last) :: m.nesting outer := by
  rw [nesting, ancestors_child outer hlast, List.takeWhile_cons, if_pos (by simpa using hne.symm),
    howner]
  rfl

theorem lies_nested (hhead : head fqn = m.assembly.name) (hnested : m.Nested fqn) {root : String}
    {package tail : List String}
    (hlies : Package.Lies m.assembly.name root m.assembly.submodules fqn package tail) :
    ∃ above inner, inner ≠ [] ∧ tail = above ++ inner ∧
      head (m.owner fqn) = m.assembly.name ∧
      Package.Lies m.assembly.name root m.assembly.submodules (m.owner fqn) package above := by
  -- The induction follows the owner outwards: it is the name around, or the owner of that name.
  induction fqn using Dotted.inductionOn generalizing tail with
  | single fqn hundotted => exact absurd ((head_of_undotted hundotted).symm.trans hhead) hnested.1
  | child outer last hlast ih =>
    rw [head_append] at hhead
    have hplain : m.assembly.submodules.find? (outer ++ "." ++ last) = none := by
      simpa [SortedMap.contains] using hnested.2 _ (mem_nesting m _)
    obtain ⟨above, houter, rfl⟩ := (Package.lies_inner hlast hnested.1 hplain).mp hlies
    by_cases hdirect : m.owner (outer ++ "." ++ last) = outer
    · refine ⟨above, [last], by simp, rfl, ?_, ?_⟩
      · rw [hdirect]
        exact hhead
      · rw [hdirect]
        exact houter
    · obtain ⟨howner, hne⟩ := (owner_child hlast hhead).resolve_left hdirect
      have hinner : m.Nested outer := by
        refine ⟨hne, fun name hin => hnested.2 name ?_⟩
        rw [nesting_child hlast hdirect howner]
        exact List.mem_cons_of_mem _ hin
      obtain ⟨above', inner, -, rfl, hownerHead, hownerLies⟩ := ih hhead hinner houter
      refine ⟨above', inner ++ [last], by simp, by simp, ?_, ?_⟩
      · rw [howner]
        exact hownerHead
      · rw [howner]
        exact hownerLies

theorem isBelow_of_nested (hhead : head fqn = m.assembly.name) (hnested : m.Nested fqn)
    {target : Package.PythonName} (htarget : m.pythonName fqn = .ok target) :
    isBelow target.package target.path = true ∧
      ∃ owner, m.pythonName (m.owner fqn) = .ok owner ∧
        isBelow owner.path target.path = true := by
  obtain ⟨root, package, tail, hroot, hlies, rfl⟩ :=
    (Package.pythonName_own_eq_ok_iff hhead).mp htarget
  obtain ⟨above, inner, hne, rfl, hownerHead, hownerLies⟩ := lies_nested hhead hnested hlies
  have hinner : inner.map Identifier.escape ≠ [] := by simpa using hne
  refine ⟨isBelow_iff.mpr ⟨join ((above ++ inner).map Identifier.escape), ?_⟩, _,
    (Package.pythonName_own_eq_ok_iff hownerHead).mpr ⟨root, package, above, hroot, hownerLies, rfl⟩,
    isBelow_iff.mpr ⟨join (inner.map Identifier.escape), ?_⟩⟩
  · have hpath := join_append (List.cons_ne_nil (join package) [])
      (show (above ++ inner).map Identifier.escape ≠ [] by simp [hne])
    rwa [join_singleton] at hpath
  · rw [List.map_append, ← List.cons_append]
    exact join_append (List.cons_ne_nil _ _) hinner

theorem isBelow_package_or {target : Package.PythonName} (h : m.pythonName fqn = .ok target) :
    isBelow target.package target.path = true ∨ target.path = target.package := by
  obtain ⟨-, rest, hrest, hpath⟩ := Package.path_eq_package_append h
  rcases hrest with rfl | ⟨names, rfl⟩
  · exact .inr (hpath.trans String.append_empty)
  · exact .inl (isBelow_iff.mpr ⟨names, hpath.trans String.append_assoc.symm⟩)

theorem genuine_iff_isBelow {start path : String} :
    Cut.Genuine ⟨start, true⟩ path ↔ isBelow start path = true := by
  simp [Cut.Genuine]

theorem genuine_iff {target : Package.PythonName} {cuts : List Cut}
    (h : m.cuts scope fqn = .ok (target, cuts)) :
    (∀ cut ∈ cuts, cut.Genuine target.path) ↔
      head fqn ≠ m.assembly.name ∨
        ((∃ owner, m.pythonName (m.owner fqn) = .ok owner ∧
            isBelow owner.path target.path = true) ∧
          (target.path = target.package → ⟨target.package, true⟩ ∉ cuts)) := by
  obtain ⟨htarget, hcases⟩ := cuts_eq_ok h
  have hassembly : target.assembly = head fqn := (Package.path_eq_package_append htarget).1
  have hbelow := isBelow_package_or htarget
  rw [hassembly] at hcases
  rcases hcases with ⟨hforeign, rfl⟩ | ⟨hlocal, owner, howner, hfirst, hcuts⟩
  · simpa [hforeign, Cut.Genuine] using hbelow
  · constructor
    · intro hall
      refine .inr ⟨⟨owner, howner, genuine_iff_isBelow.mp (hall _ hfirst)⟩, fun heq hin => ?_⟩
      exact ne_of_isBelow (genuine_iff_isBelow.mp (hall _ hin)) heq
    · intro hcond cut hcut
      obtain ⟨⟨_, howner', hinside⟩, hnot⟩ := hcond.resolve_left (not_not_intro hlocal)
      obtain rfl := Except.ok.inj (howner.symm.trans howner')
      rcases hcuts cut hcut with rfl | rfl
      · exact genuine_iff_isBelow.mpr hinside
      · exact genuine_iff_isBelow.mpr (hbelow.resolve_right fun heq => hnot heq hcut)

theorem resolve_assembly_breaks {target : Package.PythonName} {cuts : List Cut}
    (h : m.cuts scope fqn = .ok (target, cuts)) (hundotted : Undotted fqn)
    (hfqn : fqn = m.assembly.name) : m.resolve scope fqn = .error (.brokenName fqn) := by
  obtain ⟨htarget, hcases⟩ := cuts_eq_ok h
  have hassembly : target.assembly = m.assembly.name := by
    rw [(Package.path_eq_package_append htarget).1, head_of_undotted hundotted, hfqn]
  rcases hcases with ⟨hforeign, -⟩ | ⟨-, owner, howner, hfirst, -⟩
  · exact absurd hassembly hforeign
  · rw [owner_of_undotted hundotted, ← hfqn] at howner
    obtain rfl := Except.ok.inj (howner.symm.trans htarget)
    refine resolve_broken_iff.mpr ⟨rfl, owner, cuts, h, fun hall => ?_⟩
    obtain ⟨rest, hrest⟩ := hall _ hfirst
    exact absurd (hrest.symm.trans (pathBehind_self fqn owner.path)) (by simp)

/-- References break exactly over cuts that leave nothing, and never over genuine ones. All cuts are
genuine for types of other assemblies and for types that no submodule separates from their owner. -/
theorem resolve_cuts_genuine (m : Model) (scope : Scope) (fqn : String) :
    (∀ name, m.resolve scope fqn = .error (.brokenName name) ↔
      name = fqn ∧ ∃ target cuts, m.cuts scope fqn = .ok (target, cuts) ∧
        ¬ ∀ cut ∈ cuts, ∃ rest, cut.make fqn target.path = .ok rest) ∧
    ∀ target cuts, m.cuts scope fqn = .ok (target, cuts) →
      ((∀ cut ∈ cuts, cut.Genuine target.path) → ∃ r, m.resolve scope fqn = .ok r) ∧
      ((∀ cut ∈ cuts, cut.Genuine target.path) ↔
        head fqn ≠ m.assembly.name ∨
          ((∃ owner, m.pythonName (m.owner fqn) = .ok owner ∧
              isBelow owner.path target.path = true) ∧
            (target.path = target.package → ⟨target.package, true⟩ ∉ cuts))) ∧
      (head fqn ≠ m.assembly.name ∨ m.Nested fqn → ∀ cut ∈ cuts, cut.Genuine target.path) ∧
      (Undotted fqn → fqn = m.assembly.name →
        m.resolve scope fqn = .error (.brokenName fqn)) := by
  refine ⟨fun name => resolve_broken_iff, fun target cuts hcuts => ⟨fun hall => ?_,
    genuine_iff hcuts, fun hcond => (genuine_iff hcuts).mpr ?_, resolve_assembly_breaks hcuts⟩⟩
  · exact (resolve_ok_iff hcuts).mpr fun cut hcut => (hall cut hcut).exists_rest fqn
  · rcases hcond with hforeign | hnested
    · exact .inl hforeign
    · by_cases hhead : head fqn = m.assembly.name
      · obtain ⟨hpackage, howner⟩ := isBelow_of_nested hhead hnested (cuts_eq_ok hcuts).1
        exact .inr ⟨howner, fun heq => absurd heq (ne_of_isBelow hpackage)⟩
      · exact .inl hhead

theorem resolve_cuts_genuine_part :
    let inside : Scope :=
      { module := "Acme.core", enclosing := ["Acme.core.Engine"], annotation := false }
    let part : Package.PythonName :=
      { assembly := "Acme", package := "acme.core", path := "acme.core.Engine.Part" }
    let cuts : List Cut := [⟨"acme.core", true⟩, ⟨"acme.core", true⟩]
    build engineAssembly [] = .ok engineModel ∧ engineModel.Nested "Acme.core.Engine.Part" ∧
      engineModel.cuts inside "Acme.core.Engine.Part" = .ok (part, cuts) ∧
      (∀ cut ∈ cuts, cut.Genuine part.path) ∧
      ∃ r, engineModel.resolve inside "Acme.core.Engine.Part" = .ok r := by
  intro inside part cuts
  have hcuts : engineModel.cuts inside "Acme.core.Engine.Part" = .ok (part, cuts) :=
    Outcome.eq_ok_of_toOption (by decide +kernel)
  have hnested : engineModel.Nested "Acme.core.Engine.Part" := by decide +kernel
  obtain ⟨-, hresolve⟩ := resolve_cuts_genuine engineModel inside "Acme.core.Engine.Part"
  obtain ⟨hmade, -, hgenuine, -⟩ := hresolve part cuts hcuts
  have hall : ∀ cut ∈ cuts, cut.Genuine part.path := hgenuine (.inr hnested)
  exact ⟨Outcome.eq_ok_get engineAssembly_builds, hnested, hcuts, hall, hmade hall⟩

def namesakeSubmodule (owner own : String) : Assembly :=
  (((Assembly.ofModule "Acme" "1.0.0" "acme").withSubmodule "Acme.core" (some owner)).withSubmodule
    "Acme.core.Part" (some own)).withType (.class (.ofFqn "Acme.core.Part"))

def cutView (a : Assembly) (fqn : String) :
    Option (List String × Option (Package.PythonName × List Cut)) :=
  (build a []).toOption.map fun m =>
    (m.modules.map (·.fqn), (m.cuts { module := a.name } fqn).toOption)

theorem cutView_namesakeSubmodule :
    cutView (namesakeSubmodule "acme.core_library" "acme.part") "Acme.core.Part" =
      some (["Acme", "Acme.core"],
        some ({ assembly := "Acme", package := "acme.part", path := "acme.part" },
          [⟨"acme.core_library", true⟩])) := by
  decide +kernel

theorem reference_breaks :
    ∃ m, build (namesakeSubmodule "acme.core_library" "acme.part") [] = .ok m ∧
      "Acme" ∈ m.modules.map (·.fqn) ∧
      m.resolve { module := "Acme" } "Acme.core.Part" = .error (.brokenName "Acme.core.Part") := by
  obtain ⟨m, hbuild, hview⟩ := Outcome.exists_eq_ok_of_map cutView_namesakeSubmodule
  obtain ⟨hmodules, hcuts⟩ := Prod.mk.inj hview
  refine ⟨m, hbuild, by rw [hmodules]; simp, resolve_broken_iff.mpr
    ⟨rfl, _, _, Outcome.eq_ok_of_toOption hcuts, fun hall => ?_⟩⟩
  obtain ⟨rest, hrest⟩ := hall _ List.mem_cons_self
  have hnone : (Cut.make ⟨"acme.core_library", true⟩ "Acme.core.Part" "acme.part").toOption =
      none := by
    decide +kernel
  rw [hrest] at hnone
  cases hnone

end Model

end Bindery
