import Bindery.Proofs.ImportPath
import Bindery.Proofs.Imports
import Bindery.Proofs.Model
import Bindery.Proofs.Package
import Bindery.Reference.Resolve

/-!
# What references denote

A reference is right when the text that it displays, read in the module where it stands and
with the import that it needs, means the Python name of the type. The owner of a type, its
package and its path are found by three walks over the same name; they agree because the names
of a well-formed assembly fit together.
-/

namespace Bindery

open Api Dotted

theorem Text.utf8ByteSize_cons (c : Char) (text : List Char) :
    (String.ofList (c :: text)).utf8ByteSize = c.utf8Size + (String.ofList text).utf8ByteSize := by
  have hsplit : String.ofList (c :: text) = String.singleton c ++ String.ofList text := by
    apply String.toList_inj.mp
    simp
  rw [hsplit, String.utf8ByteSize_append, String.utf8ByteSize_singleton]

theorem Text.dropBytes?_append (start rest : List Char) :
    Text.dropBytes? (String.ofList start).utf8ByteSize (start ++ rest) = some rest := by
  induction start with
  | nil => simp [Text.dropBytes?]
  | cons c start ih =>
    have hpos := c.utf8Size_pos
    have hsize : (String.ofList (c :: start)).utf8ByteSize =
        (String.ofList start).utf8ByteSize + (c.utf8Size - 1) + 1 := by
      rw [utf8ByteSize_cons]
      omega
    have hrest : (String.ofList start).utf8ByteSize + (c.utf8Size - 1) + 1 - c.utf8Size =
        (String.ofList start).utf8ByteSize := by
      omega
    rw [hsize, List.cons_append, Text.dropBytes?, if_pos (by omega), hrest, ih]

theorem pathBehind_append (fqn start rest : String) :
    pathBehind fqn start false (start ++ rest) = .ok rest := by
  have hdrop := Text.dropBytes?_append start.toList rest.toList
  simp only [String.ofList_toList] at hdrop
  simp [pathBehind, hdrop]

theorem pathBehind_child (fqn start rest : String) :
    pathBehind fqn start true (start ++ "." ++ rest) = .ok rest := by
  have hdrop := Text.dropBytes?_append (start ++ ".").toList rest.toList
  have hsize : (start ++ ".").utf8ByteSize = start.utf8ByteSize + 1 := String.utf8ByteSize_append
  simp only [String.ofList_toList, hsize, ← String.toList_append] at hdrop
  simp only [pathBehind, if_true, hdrop, String.ofList_toList]

/-- A display shows a bare name as it is or quoted, and in a union where the parameter of a
struct is annotated. -/
def Scope.Shows (scope : Scope) (isStruct : Bool) (display bare : String) : Prop :=
  display = scope.wrapStruct isStruct bare ∨ display = scope.wrapStruct isStruct (Text.quote bare)

def IsAccess (rest : String) : Prop := rest = "" ∨ ∃ names, rest = "." ++ names

/-- The Python path that a name means in the module `home` behind an import. -/
inductive Denotes (home : String) : Option Import → String → String → Prop
  | inside {name : String} : Denotes home none name (home ++ "." ++ name)
  | across {source outermost handle rest : String} (houtermost : Undotted outermost)
      (hrest : IsAccess rest) :
      Denotes home (some { source, item := outermost ++ " as " ++ handle }) (handle ++ rest)
        (ImportPath.absolute home source ++ "." ++ outermost ++ rest)
  | foreign {package handle rest : String} (hrest : IsAccess rest) :
      Denotes home (some { source := package ++ " as " ++ handle, item := "" }) (handle ++ rest)
        (package ++ rest)

def Reference.Reads (r : Reference) (scope : Scope) (isStruct : Bool) (home path : String) : Prop :=
  ∃ bare, scope.Shows isStruct r.display bare ∧ Denotes home r.needed? bare path

theorem join_cons_eq_access (more : List String) :
    ∃ rest, IsAccess rest ∧ ∀ first, join (first :: more) = first ++ rest := by
  cases more with
  | nil => exact ⟨"", .inl rfl, fun first => by simp [join_singleton]⟩
  | cons second more =>
    refine ⟨"." ++ join (second :: more), .inr ⟨_, rfl⟩, fun first => ?_⟩
    have happend := join_append (List.cons_ne_nil first []) (List.cons_ne_nil second more)
    rwa [join_singleton, String.append_assoc] at happend

theorem eq_head_append_access (name : String) :
    ∃ rest, IsAccess rest ∧ name = head name ++ rest ∧
      ∀ first, join (first :: (segments name).tail) = first ++ rest := by
  obtain ⟨rest, hrest, hjoin⟩ := join_cons_eq_access (segments name).tail
  refine ⟨rest, hrest, ?_, hjoin⟩
  rw [← hjoin, head]
  cases hs : segments name with
  | nil => exact absurd hs (segments_ne_nil name)
  | cons first more => rw [List.headD_cons, List.tail_cons, ← hs, join_segments]

theorem Package.path_eq_package_append {a : Assembly} {fqn : String} {name : PythonName}
    (h : pythonName a fqn = .ok name) :
    name.assembly = head fqn ∧ ∃ rest, IsAccess rest ∧ name.path = name.package ++ rest := by
  obtain ⟨_, _, package, tail, _, _, _, rfl⟩ := pythonName_eq_ok_iff.mp h
  obtain ⟨rest, hrest, hjoin⟩ := join_cons_eq_access (tail.map Identifier.escape)
  exact ⟨rfl, rest, hrest, hjoin (join package)⟩

namespace Catalog

variable {scope : Scope} {isStruct : Bool} {target : Package.PythonName} {fqn : String}
  {r : Reference}

theorem resolveForeign_reads (home : String) {rest : String} (hrest : IsAccess rest)
    (hpath : target.path = target.package ++ rest)
    (h : resolveForeign scope isStruct target fqn = .ok r) :
    r.Reads scope isStruct home target.path := by
  simp only [resolveForeign, hpath, pathBehind_append, Outcome.bind_eq_ok, Outcome.pure_eq_ok] at h
  obtain ⟨_, hbelow, rfl⟩ := h
  obtain rfl := Except.ok.inj hbelow
  exact ⟨_, .inl rfl, hpath ▸ .foreign hrest⟩

theorem resolveLocal_reads {c : Catalog} {module below : String}
    (hpackage : target.package = module) (hpath : target.path = module ++ "." ++ below)
    (h : resolveLocal c scope isStruct target module fqn = .ok r) :
    r.Reads scope isStruct module target.path := by
  simp only [resolveLocal, hpackage, hpath, pathBehind_child, Outcome.bind_eq_ok] at h
  obtain ⟨around, -, _, hbelow, h⟩ := h
  obtain rfl := Except.ok.inj hbelow
  rw [hpath]
  split at h
  · obtain rfl := Outcome.pure_eq_ok.mp h
    exact ⟨below, .inr rfl, .inside⟩
  · split at h
    · rename_i hruntime
      obtain ⟨_, hdisplay, h⟩ := Outcome.bind_eq_ok.mp h
      obtain rfl := Except.ok.inj hdisplay
      obtain rfl := Outcome.pure_eq_ok.mp h
      refine ⟨below, .inl ?_, .inside⟩
      simp_all [Scope.wrapStruct]
    · obtain rfl := Outcome.pure_eq_ok.mp h
      exact ⟨below, .inl rfl, .inside⟩

theorem resolveAcross_reads {module owner below : String}
    (hmodule : Proper module) (howner : Proper owner)
    (hpath : target.path = owner ++ "." ++ below)
    (h : resolveAcross scope isStruct target module owner fqn = .ok r) :
    r.Reads scope isStruct module target.path := by
  simp only [resolveAcross, hpath, pathBehind_child, Outcome.bind_eq_ok, Outcome.pure_eq_ok] at h
  obtain ⟨_, hbelow, rfl⟩ := h
  obtain rfl := Except.ok.inj hbelow
  obtain ⟨rest, hrest, hname, hjoin⟩ := eq_head_append_access below
  have hwhole : target.path =
      ImportPath.absolute module (ImportPath.relative module owner) ++ "." ++ head below ++
        rest := by
    rw [ImportPath.absolute_relative hmodule howner, String.append_assoc, ← hname, hpath]
  refine ⟨_, .inl rfl, ?_⟩
  rw [hjoin, hwhole]
  exact .across (undotted_head below) hrest

end Catalog

namespace Model

variable {m : Model}

theorem owner_child_of_type {outer last : String} (hlast : Undotted last) (hne : outer ≠ "")
    (htype : m.assembly.types.contains outer = true) :
    m.owner (outer ++ "." ++ last) = m.owner outer := by
  simp [Catalog.owner, ancestors_child outer hlast, hne, htype]

theorem owner_child_of_module {outer last : String} (hlast : Undotted last) (hne : outer ≠ "")
    (htype : m.assembly.types.contains outer = false) :
    m.owner (outer ++ "." ++ last) = outer := by
  simp only [Catalog.owner, ancestors_child outer hlast, htype, List.find?_cons, Bool.not_false,
    Bool.or_true]

theorem lies_owner (hm : m.Faithful) (hwf : m.assembly.WellFormed) {fqn : String}
    (hfqn : fqn ∈ m.assembly.types.keys) {root : String} {package tail : List String}
    (hlies : Package.Lies m.assembly.name root m.assembly.submodules fqn package tail) :
    tail ≠ [] ∧ (m.owner fqn = m.assembly.name ∨ m.owner fqn ∈ m.assembly.submodules.keys) ∧
      head (m.owner fqn) = m.assembly.name ∧
      Package.Lies m.assembly.name root m.assembly.submodules (m.owner fqn) package [] := by
  induction fqn using Dotted.inductionOn generalizing tail with
  | single fqn hundotted =>
    obtain ⟨outer, last, -, rfl⟩ := hwf.exists_child hfqn
    exact absurd hundotted (not_undotted_child outer last)
  | child outer last hlast ih =>
    have hne : outer ++ "." ++ last ≠ m.assembly.name := fun heq =>
      not_undotted_child outer last (heq ▸ hwf.name_undotted)
    obtain ⟨above, houter, rfl⟩ :=
      (Package.lies_inner hlast hne (hwf.find?_submodule hfqn)).mp hlies
    refine ⟨by simp, ?_⟩
    -- The climb to the owner goes on as long as it meets types.
    by_cases htype : outer ∈ m.assembly.types.keys
    · rw [owner_child_of_type hlast (hwf.ne_empty_of_type htype)
        (OrderedMap.contains_iff.mpr htype)]
      exact (ih htype houter).2
    · have hmodule : outer = m.assembly.name ∨ outer ∈ m.assembly.submodules.keys := by
        obtain ⟨entry, hentry, hentryFqn⟩ := hwf.exists_type hfqn
        have hparent := hm.parent_cases hentry
        rw [hentryFqn, parent_child outer hlast] at hparent
        rcases hparent with hname | hsubmodule | ⟨type, htypeIn, htypeFqn⟩
        · exact .inl hname
        · exact .inr hsubmodule
        · exact absurd (htypeFqn ▸ hwf.fqn_mem_keys htypeIn) htype
      have hnonempty : outer ≠ "" := (hwf.proper_of_module hmodule).ne_empty
      have hhead : head outer = m.assembly.name := by
        rw [← head_append outer last, hwf.head_of_type hfqn]
      have habove : above = [] :=
        houter.tail_eq_nil (hmodule.imp_right SortedMap.contains_iff.mpr)
          fun _ _ hl hkey => hwf.closed_parent hl hkey
      have hnot : m.assembly.types.contains outer = false := by
        rwa [← Bool.not_eq_true, OrderedMap.contains_iff]
      rw [owner_child_of_module hlast hnonempty hnot]
      exact ⟨hmodule, hhead, habove ▸ houter⟩

theorem exists_pythonName (hm : m.Faithful) {module : Declaration} (h : module ∈ m.modules) :
    ∃ home, m.pythonName module.fqn = .ok home ∧ home.package = module.name := by
  obtain ⟨-, location, hlocation, hname⟩ := hm.of_mem_modules h
  exact ⟨_, Outcome.bind_eq_ok.mpr ⟨location, hlocation, rfl⟩, hname.symm⟩

theorem path_of_owner (hm : m.Faithful) (hwf : m.assembly.WellFormed) {fqn : String}
    (hfqn : fqn ∈ m.assembly.types.keys) {target owner : Package.PythonName}
    (htarget : m.pythonName fqn = .ok target) (howner : m.pythonName (m.owner fqn) = .ok owner) :
    Proper owner.path ∧ owner.package = owner.path ∧ target.package = owner.path ∧
      ∃ below, target.path = owner.path ++ "." ++ below := by
  obtain ⟨root, package, tail, hroot, hlies, rfl⟩ :=
    (Package.pythonName_own_eq_ok_iff (hwf.head_of_type hfqn)).mp htarget
  obtain ⟨htail, hmodule, hhead, hownerLies⟩ := lies_owner hm hwf hfqn hlies
  have hsame : m.pythonName (m.owner fqn) = .ok
      { assembly := m.assembly.name, package := join package, path := join package } := by
    refine (Package.pythonName_own_eq_ok_iff hhead).mpr ⟨root, package, [], hroot, hownerLies, ?_⟩
    rw [List.map_nil, join_singleton]
  obtain rfl := Except.ok.inj (howner.symm.trans hsame)
  refine ⟨Package.proper_path hwf.modules_proper (hwf.proper_of_module hmodule) howner, rfl, rfl,
    join (tail.map Identifier.escape), ?_⟩
  have hbelow : tail.map Identifier.escape ≠ [] := by simpa using htail
  have hpath := join_append (List.cons_ne_nil (join package) []) hbelow
  rwa [join_singleton] at hpath

/-- Every reference reads as the path of the type that it mentions. -/
theorem resolve_denotes {a : Assembly} {dependencies : List Assembly}
    (hbuild : build a dependencies = .ok m) (hwf : m.assembly.WellFormed) {module : Declaration}
    (hmodule : module ∈ m.modules) {scope : Scope} (hscope : scope.module = module.fqn)
    {fqn : String} (hfqn : fqn ∈ m.assembly.types.keys ∨ head fqn ≠ m.assembly.name)
    {r : Reference} (hr : m.resolve scope fqn = .ok r) :
    ∃ home target, m.pythonName module.fqn = .ok home ∧ m.pythonName fqn = .ok target ∧
      r.Reads scope (m.isStruct fqn) home.path target.path := by
  have hm := faithful_of_build hbuild
  obtain ⟨home, hhome, -⟩ := exists_pythonName hm hmodule
  simp only [Catalog.resolve, Outcome.bind_eq_ok] at hr
  obtain ⟨target, htarget, entry, hentry, hr⟩ := hr
  refine ⟨home, target, hhome, htarget, ?_⟩
  rw [Catalog.isStruct_of_entry hentry]
  obtain ⟨hassembly, rest, hrest, hpath⟩ := Package.path_eq_package_append htarget
  rw [hassembly] at hr
  split at hr
  · exact Catalog.resolveForeign_reads home.path hrest hpath hr
  · rename_i hlocal
    have htype := hfqn.resolve_right hlocal
    simp only [Outcome.bind_eq_ok, hscope, hhome] at hr
    obtain ⟨_, hhome', owner, howner, hr⟩ := hr
    obtain rfl := Except.ok.inj hhome'
    obtain ⟨hproper, -, hpackage, below, hbelow⟩ := path_of_owner hm hwf htype htarget howner
    split at hr
    · rename_i hsame
      exact Catalog.resolveLocal_reads (hpackage.trans hsame) (hsame ▸ hbelow) hr
    · have hhomeProper := Package.proper_path hwf.modules_proper
        (hwf.proper_of_module (hm.of_mem_modules hmodule).1) hhome
      exact Catalog.resolveAcross_reads hhomeProper hproper hbelow hr

def engineAssembly : Assembly :=
  (((Assembly.ofModule "Acme" "1.0.0" "acme").withSubmodule "Acme.core" none).withType
    (.class (.ofFqn "Acme.core.Engine"))).withType (.class (.ofFqn "Acme.core.Engine.Part"))

theorem engineAssembly_builds : (build engineAssembly []).toOption.isSome = true := by
  decide +kernel

def engineModel : Model := (build engineAssembly []).toOption.get engineAssembly_builds

theorem resolve_denotes_part :
    let part : Reference := {
      display := "_Engine_bde0cbf0.Part"
      needed? := some { source := ".core", item := "Engine as _Engine_bde0cbf0" } }
    build engineAssembly [] = .ok engineModel ∧ engineModel.assembly.WellFormed ∧
      engineModel.resolve { module := "Acme" } "Acme.core.Engine.Part" = .ok part ∧
      ∃ module ∈ engineModel.modules, module.fqn = "Acme" ∧
        ∃ home target, engineModel.pythonName module.fqn = .ok home ∧
          engineModel.pythonName "Acme.core.Engine.Part" = .ok target ∧
          part.Reads { module := "Acme" } (engineModel.isStruct "Acme.core.Engine.Part")
            home.path target.path := by
  intro part
  have hbuild : build engineAssembly [] = .ok engineModel :=
    Outcome.eq_ok_get engineAssembly_builds
  have hwf : engineModel.assembly.WellFormed := by decide +kernel
  have hpart : engineModel.resolve { module := "Acme" } "Acme.core.Engine.Part" = .ok part :=
    Outcome.eq_ok_of_toOption (by decide +kernel)
  have hroot : engineModel.modules.any (·.fqn = "Acme") = true := by decide +kernel
  obtain ⟨module, hmodule, hname⟩ := List.any_eq_true.mp hroot
  have hfqn : module.fqn = "Acme" := of_decide_eq_true hname
  have htype : "Acme.core.Engine.Part" ∈ engineModel.assembly.types.keys := by decide +kernel
  exact ⟨hbuild, hwf, hpart, module, hmodule, hfqn,
    resolve_denotes hbuild hwf hmodule hfqn.symm (.inl htype) hpart⟩

end Model

end Bindery
