import Bindery.Proofs.Model

/-!
# The order of dependencies

A model takes from its dependencies what they say about assemblies and the types that they
declare. The first word about an assembly counts, and the last type of a name. Dependencies that
agree wherever they speak of the same assembly, and that share no type, leave neither rule a choice.
So such dependencies may come in any order: the model is the same, or the fault is.
-/

namespace Bindery

open Api

namespace SortedMap

universe u

variable {V : Type u}

def insertAllNew (map : SortedMap V) (entries : List (String × V)) : SortedMap V :=
  entries.foldl (fun map entry => map.insertNew entry.1 entry.2) map

theorem insertAllNew_cons (map : SortedMap V) (entry : String × V)
    (entries : List (String × V)) :
    map.insertAllNew (entry :: entries) =
      (map.insertNew entry.1 entry.2).insertAllNew entries :=
  rfl

theorem insertAllNew_append (map : SortedMap V) (entries entries' : List (String × V)) :
    map.insertAllNew (entries ++ entries') = (map.insertAllNew entries).insertAllNew entries' :=
  List.foldl_append

theorem find?_insertAllNew (map : SortedMap V) (entries : List (String × V))
    (key : String) :
    (map.insertAllNew entries).find? key = (map.find? key).or (entries.lookup key) := by
  induction entries generalizing map with
  | nil => simp [insertAllNew]
  | cons entry entries ih =>
    obtain ⟨name, value⟩ := entry
    rw [insertAllNew_cons, ih, find?_insertNew, Option.or_assoc, List.lookup_cons]
    by_cases hkey : key = name
    · simp [hkey]
    · simp [hkey, beq_false_of_ne hkey]

end SortedMap

namespace Catalog

variable {c c' : Catalog}

theorem liftedStruct_congr (h : c.entry = c'.entry) : c.liftedStruct = c'.liftedStruct := by
  funext parameters
  simp only [liftedStruct, h]

end Catalog

namespace Model

section Congruence

variable {c c' : Catalog} (h : c.entry = c'.entry)

include h

theorem methodMember_congr : methodMember c = methodMember c' := by
  funext parent kind isProtected method
  simp only [methodMember, Catalog.liftedStruct_congr h]

theorem classContent_congr : classContent c = classContent c' := by
  have hinitializer : initializerMember c = initializerMember c' := by
    funext parent initializer
    simp only [initializerMember, Catalog.liftedStruct_congr h]
  have hmethod : classMethod c = classMethod c' := by
    funext parent method
    simp only [classMethod, methodMember_congr h]
  have hbases : abstractBases c = abstractBases c' := by
    funext type
    simp only [abstractBases, h]
  funext type
  simp only [classContent, hinitializer, hmethod, hbases]

theorem interfaceContent_congr : interfaceContent c = interfaceContent c' := by
  have hmethod : interfaceMethod c = interfaceMethod c' := by
    funext parent method
    simp only [interfaceMethod, methodMember_congr h]
  funext type
  simp only [interfaceContent, hmethod]

theorem typeDeclaration_congr : typeDeclaration c = typeDeclaration c' := by
  have hcontent : content c = content c' := by
    funext entry
    cases entry with
    | «class» type => simp only [content, classContent_congr h]
    | interface type => simp only [content, interfaceContent_congr h]
    | enum type => rfl
  funext entry
  simp only [typeDeclaration, hcontent]

end Congruence

theorem ownDeclarations_congr {c c' : Catalog} (hassembly : c.assembly = c'.assembly)
    (hentry : c.entry = c'.entry) : ownDeclarations c = ownDeclarations c' := by
  have hmodules : moduleDeclarations c = moduleDeclarations c' := by
    obtain ⟨assembly, dependencies⟩ := c
    obtain ⟨assembly', dependencies'⟩ := c'
    obtain rfl : assembly = assembly' := hassembly
    rfl
  simp only [ownDeclarations, hmodules, typeDeclaration_congr hentry, hassembly]

def symbolsOf (c : Catalog) : Outcome (SymbolTable Declaration) := do
  let ds ← ownDeclarations c
  let declarations ← c.assembly.types.values.foldlM attach (ds.foldl declare .empty)
  return { entries := declarations }

theorem build_eq_symbolsOf (a : Assembly) (dependencies : List Assembly) :
    build a dependencies = (do
      let symbols ← symbolsOf (catalog a dependencies)
      return { catalog a dependencies with symbols }) := by
  simp only [build_eq, symbolsOf, bind_assoc, pure_bind]

theorem symbolsOf_congr {c c' : Catalog} (hassembly : c.assembly = c'.assembly)
    (hentry : c.entry = c'.entry) : symbolsOf c = symbolsOf c' := by
  simp only [symbolsOf, ownDeclarations_congr hassembly hentry, hassembly]

/-- What a dependency says about assemblies: about itself and about those that it knows. It is not
asked about the assembly that depends on it. -/
def contributions (a dependency : Assembly) : List (String × DependencyTargets) :=
  (dependency.name, { targets := dependency.targets, submodules := dependency.submodules }) ::
    dependency.closure.entries.filter fun entry => entry.1 ≠ a.name

theorem addTargets_eq (a dependency : Assembly) :
    addTargets a dependency =
      { a with closure := a.closure.insertAllNew (contributions a dependency) } := by
  have hfilter : ∀ (entries : List (String × DependencyTargets)) (closure : SortedMap _),
      entries.foldl (fun closure entry =>
        if entry.1 = a.name then closure else closure.insertNew entry.1 entry.2) closure =
      closure.insertAllNew (entries.filter fun entry => entry.1 ≠ a.name) := by
    intro entries closure
    rw [SortedMap.insertAllNew, List.foldl_filter]
    congr 1
    funext closure entry
    by_cases hname : entry.1 = a.name
    · simp [hname]
    · simp [hname]
  rw [contributions, SortedMap.insertAllNew_cons, ← hfilter]
  rfl

theorem foldl_addTargets (a : Assembly) (ds : List Assembly) :
    ds.foldl addTargets a =
      { a with closure := a.closure.insertAllNew (ds.flatMap (contributions a)) } := by
  have hfold : ∀ closure : SortedMap DependencyTargets,
      ds.foldl addTargets { a with closure } =
        { a with closure := closure.insertAllNew (ds.flatMap (contributions a)) } := by
    induction ds with
    | nil => exact fun closure => rfl
    | cons d ds ih =>
      intro closure
      have hsame : contributions { a with closure } d = contributions a d := rfl
      rw [List.foldl_cons, addTargets_eq, hsame, ih, List.flatMap_cons,
        SortedMap.insertAllNew_append]
  exact hfold a.closure

theorem dependencies_catalog (a : Assembly) (ds : List Assembly) :
    (catalog a ds).dependencies = OrderedMap.empty.insertAll (ds.flatMap (·.types.entries)) := by
  have hfold : ∀ types : OrderedMap TypeEntry,
      ds.foldl (fun types d => types.insertAll d.types.entries) types =
        types.insertAll (ds.flatMap (·.types.entries)) := by
    induction ds with
    | nil => exact fun types => rfl
    | cons d ds ih =>
      intro types
      rw [List.foldl_cons, ih, List.flatMap_cons, OrderedMap.insertAll, OrderedMap.insertAll,
        OrderedMap.insertAll, List.foldl_append]
  exact hfold .empty

/-- Dependencies that declare no type twice and agree on all assemblies that `a` does not know by
itself. -/
structure Consistent (a : Assembly) (ds : List Assembly) : Prop where
  disjoint : ds.Pairwise fun d e => ∀ fqn ∈ d.types.keys, fqn ∉ e.types.keys
  agree : ∀ entry ∈ ds.flatMap (contributions a), ∀ other ∈ ds.flatMap (contributions a),
    a.closure.contains entry.1 = false → entry.1 = other.1 → entry.2 = other.2

variable {a : Assembly} {ds ds' : List Assembly}

theorem assembly_catalog_of_perm (h : Consistent a ds) (hperm : ds.Perm ds') :
    (catalog a ds).assembly = (catalog a ds').assembly := by
  have hclosure : (ds.foldl addTargets a).closure = (ds'.foldl addTargets a).closure := by
    apply SortedMap.ext_of_find?
    intro name
    rw [foldl_addTargets, foldl_addTargets, SortedMap.find?_insertAllNew,
      SortedMap.find?_insertAllNew]
    cases hknown : a.closure.find? name with
    | some targets => rfl
    | none =>
      have hnew : a.closure.contains name = false := by simp [SortedMap.contains, hknown]
      rw [Option.none_or, Option.none_or]
      apply lookup_eq_of_perm (hperm.flatMap_right _)
      intro targets targets' hin hin'
      exact h.agree _ hin _ hin' hnew rfl
  have hsame : ds.foldl addTargets a = ds'.foldl addTargets a := by
    rw [foldl_addTargets, foldl_addTargets] at hclosure ⊢
    exact congrArg (fun closure => { a with closure }) hclosure
  simp only [catalog, hsame]

theorem Consistent.distinct (h : Consistent a ds) :
    ((ds.flatMap (·.types.entries)).map Prod.fst).Nodup := by
  rw [List.map_flatMap, List.nodup_flatMap]
  exact ⟨fun d _ => d.types.distinct, h.disjoint⟩

theorem entry_catalog_of_perm (h : Consistent a ds) (hperm : ds.Perm ds') :
    (catalog a ds).entry = (catalog a ds').entry := by
  have hdependencies : ∀ fqn, (catalog a ds).dependencies.find? fqn =
      (catalog a ds').dependencies.find? fqn := by
    intro fqn
    rw [dependencies_catalog, dependencies_catalog, OrderedMap.find?_insertAll,
      OrderedMap.find?_insertAll]
    congr 1
    have hentries := hperm.flatMap_right (·.types.entries)
    apply lookup_eq_of_perm
      ((List.reverse_perm _).trans (hentries.trans (List.reverse_perm _).symm))
    intro entry entry' hin hin'
    have hfound := (lookup_eq_some_iff_mem h.distinct).mpr (List.mem_reverse.mp hin)
    have hfound' := (lookup_eq_some_iff_mem h.distinct).mpr (List.mem_reverse.mp hin')
    exact Option.some.inj (hfound.symm.trans hfound')
  funext fqn
  simp only [Catalog.entry, Catalog.entry?, types_catalog, hdependencies]

theorem build_of_perm (h : Consistent a ds) (hperm : ds.Perm ds') :
    (∃ fault, build a ds = .error fault ∧ build a ds' = .error fault) ∨
      ∃ m m', build a ds = .ok m ∧ build a ds' = .ok m' ∧ m.assembly = m'.assembly ∧
        m.symbols = m'.symbols ∧ ∀ fqn, m.entry fqn = m'.entry fqn := by
  have hassembly := assembly_catalog_of_perm h hperm
  have hentry := entry_catalog_of_perm h hperm
  rw [build_eq_symbolsOf, build_eq_symbolsOf, ← symbolsOf_congr hassembly hentry]
  cases symbolsOf (catalog a ds) with
  | error fault => exact .inl ⟨fault, rfl, rfl⟩
  | ok symbols => exact .inr ⟨_, _, rfl, rfl, hassembly, rfl, congrFun hentry⟩

def propsLibrary : Assembly :=
  let a := (Assembly.ofModule "Base" "1.0.0" "base_lib").withSubmodule "Base.forms" none
  ((a.withType (.interface { InterfaceType.ofFqn "Base.forms.Props" with isData := true }))
    |>.withDependency "Util" "^1.0.0" "util_lib").withDependency "Acme" "^1.0.0" "old_acme"

def toolLibrary : Assembly :=
  (Assembly.ofModule "Util" "1.0.0" "util_lib").withType (.class (.ofFqn "Util.Tool"))

def propsUser : Assembly :=
  let configure : Method :=
    { name := "configure", parameters := [{ name := "props", type := .named "Base.forms.Props" }] }
  (Assembly.ofModule "Acme" "1.0.0" "acme").withType
    (.class { ClassType.ofFqn "Acme.Widget" with methods := [configure] })

theorem consistent_libraries : Consistent propsUser [propsLibrary, toolLibrary] := by
  constructor
  · decide +kernel
  · decide +kernel

theorem survey_propsUser :
    (build propsUser [propsLibrary, toolLibrary]).toOption.map (fun m =>
      (m.symbols.size, m.assembly.closure.keys)) = some (2, ["Base", "Util"]) := by
  decide +kernel

theorem build_of_perm_swapped :
    ∃ m m', build propsUser [propsLibrary, toolLibrary] = .ok m ∧
      build propsUser [toolLibrary, propsLibrary] = .ok m' ∧
      m.assembly.closure.keys = ["Base", "Util"] ∧ m.symbols.size = 2 ∧
      m.assembly = m'.assembly ∧ m.symbols = m'.symbols ∧ ∀ fqn, m.entry fqn = m'.entry fqn := by
  obtain ⟨found, hfound, hsurvey⟩ := Outcome.exists_eq_ok_of_map survey_propsUser
  obtain ⟨hsize, hkeys⟩ := Prod.mk.inj hsurvey
  rcases build_of_perm consistent_libraries (.swap _ _ _) with
    ⟨fault, hfault, -⟩ | ⟨m, m', hm, hm', hsame⟩
  · rw [hfound] at hfault
    cases hfault
  · obtain rfl := Except.ok.inj (hfound.symm.trans hm)
    exact ⟨found, m', hm, hm', hkeys, hsize, hsame⟩

end Model

end Bindery
