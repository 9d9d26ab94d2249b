import Bindery.Proofs.Collection
import Bindery.Proofs.Outcome
import Bindery.Reference.Projection

/-!
# Theory of imports

Imports are sets: adding and merging are unions. The imports of a type are those that the
references to the names in it need, and what a reference needs is decided by the module it stands
in alone.
-/

namespace Bindery

namespace Imports

variable {imports other : Imports} {i j : Import} {xs ys : List Import}

theorem contains_empty (i : Import) : empty.contains i = false := rfl

theorem itemsOf_add (imports : Imports) (i : Import) (source : String) :
    (imports.add i).itemsOf source =
      if source = i.source then (imports.itemsOf i.source).insert i.item ()
      else imports.itemsOf source := by
  rw [itemsOf, add, SortedMap.find?_insert]
  by_cases h : source = i.source
  · rw [if_pos h, if_pos h, Option.getD_some]
  · rw [if_neg h, if_neg h, itemsOf]

theorem contains_add : (imports.add i).contains j = true ↔ j = i ∨ imports.contains j = true := by
  rw [contains, itemsOf_add]
  by_cases hsource : j.source = i.source
  · rw [if_pos hsource, SortedMap.contains, SortedMap.find?_insert]
    by_cases hitem : j.item = i.item
    · have hsame : j = i := by
        cases i
        cases j
        simp_all
      simp [hsame]
    · have hne : j ≠ i := fun h => hitem (congrArg Import.item h)
      rw [if_neg hitem, contains, hsource]
      simp [hne, SortedMap.contains]
  · have hne : j ≠ i := fun h => hsource (congrArg Import.source h)
    rw [if_neg hsource]
    simp [hne, contains]

theorem contains_addAll {list : List Import} :
    (imports.addAll list).contains j = true ↔ j ∈ list ∨ imports.contains j = true := by
  induction list generalizing imports with
  | nil => simp [addAll]
  | cons i list ih =>
    have hstep : imports.addAll (i :: list) = (imports.add i).addAll list := rfl
    rw [hstep, ih, contains_add, List.mem_cons]
    tauto

theorem mem_toList : i ∈ imports.toList ↔ imports.contains i = true := by
  simp only [toList, groups, List.mem_flatMap, List.mem_map]
  constructor
  · rintro ⟨_, ⟨⟨source, items⟩, hentry, rfl⟩, item, hitem, rfl⟩
    have hitems : imports.itemsOf source = items := by
      rw [itemsOf, SortedMap.find?_eq_some_iff.mpr hentry, Option.getD_some]
    rw [contains, hitems]
    exact SortedMap.contains_iff.mpr hitem
  · intro h
    cases hfound : imports.sources.find? i.source with
    | none =>
      rw [contains, itemsOf, hfound] at h
      cases h
    | some items =>
      rw [contains, itemsOf, hfound, Option.getD_some, SortedMap.contains_iff] at h
      exact ⟨_, ⟨_, SortedMap.find?_eq_some_iff.mp hfound, rfl⟩, i.item, h, rfl⟩

theorem contains_ofList {list : List Import} : (ofList list).contains j = true ↔ j ∈ list := by
  rw [ofList, contains_addAll, contains_empty]
  simp

theorem contains_merge :
    (imports.merge other).contains i = true ↔
      imports.contains i = true ∨ other.contains i = true := by
  rw [merge, contains_addAll, mem_toList]
  exact or_comm

theorem mergeAll_eq_ofList (sets : List Imports) :
    mergeAll sets = ofList (sets.flatMap toList) := by
  rw [ofList, addAll, List.foldl_flatMap]
  rfl

theorem contains_mergeAll {sets : List Imports} :
    (mergeAll sets).contains i = true ↔ ∃ set ∈ sets, set.contains i = true := by
  rw [mergeAll_eq_ofList, contains_ofList, List.mem_flatMap]
  simp only [mem_toList]

theorem contains_source_addAll {source : String} {list : List Import} :
    (imports.addAll list).sources.contains source = true ↔
      (∃ i ∈ list, i.source = source) ∨ imports.sources.contains source = true := by
  induction list generalizing imports with
  | nil => simp [addAll]
  | cons i list ih =>
    have hstep : imports.addAll (i :: list) = (imports.add i).addAll list := rfl
    have hadd : (imports.add i).sources.contains source = true ↔
        i.source = source ∨ imports.sources.contains source = true := by
      rw [add, SortedMap.contains, SortedMap.find?_insert]
      by_cases hsource : source = i.source
      · simp [hsource]
      · simp [hsource, Ne.symm hsource, SortedMap.contains]
    rw [hstep, ih, hadd]
    simp [or_assoc, or_left_comm]

theorem itemsOf_ofList_congr (h : ∀ i, i ∈ xs ↔ i ∈ ys) (source : String) :
    (ofList xs).itemsOf source = (ofList ys).itemsOf source := by
  apply SortedMap.ext_of_find?
  intro item
  have hitem : (ofList xs).contains ⟨source, item⟩ = (ofList ys).contains ⟨source, item⟩ := by
    rw [Bool.eq_iff_iff, contains_ofList, contains_ofList]
    exact h ⟨source, item⟩
  simp only [contains, SortedMap.contains] at hitem
  -- An item is there or not: its value says nothing more.
  cases hx : ((ofList xs).itemsOf source).find? item with
  | none => cases hy : ((ofList ys).itemsOf source).find? item <;> simp_all
  | some _ => cases hy : ((ofList ys).itemsOf source).find? item <;> simp_all

theorem find?_sources (imports : Imports) (source : String) :
    imports.sources.find? source =
      if imports.sources.contains source then some (imports.itemsOf source) else none := by
  rw [SortedMap.contains, itemsOf]
  cases imports.sources.find? source with
  | none => rfl
  | some items => rfl

theorem ofList_congr (h : ∀ i, i ∈ xs ↔ i ∈ ys) : ofList xs = ofList ys := by
  have hsources : (ofList xs).sources = (ofList ys).sources := by
    apply SortedMap.ext_of_find?
    intro source
    have hsource : (ofList xs).sources.contains source = (ofList ys).sources.contains source := by
      rw [Bool.eq_iff_iff, ofList, ofList, contains_source_addAll, contains_source_addAll]
      simp only [h]
    rw [find?_sources, find?_sources, hsource, itemsOf_ofList_congr h]
  exact congrArg Imports.mk hsources

def Included (imports other : Imports) : Prop :=
  ∀ i, imports.contains i = true → other.contains i = true

theorem Included.left_of_merge {both : Imports} (h : (imports.merge other).Included both) :
    imports.Included both :=
  fun i hi => h i (contains_merge.mpr (.inl hi))

theorem Included.right_of_merge {both : Imports} (h : (imports.merge other).Included both) :
    other.Included both :=
  fun i hi => h i (contains_merge.mpr (.inr hi))

theorem Included.of_mergeAll {sets : List Imports} {all : Imports}
    (h : (mergeAll sets).Included all) (hin : imports ∈ sets) : imports.Included all :=
  fun i hi => h i (contains_mergeAll.mpr ⟨imports, hin, hi⟩)

end Imports

namespace TypeExpr

theorem mentions_asOptional (type : TypeExpr) : type.asOptional.mentions = type.mentions := by
  cases type <;> rfl

theorem mentions_required (type : TypeExpr) : type.required.mentions = type.mentions := by
  cases type <;> rfl

theorem mentions_ofValue (ref : Api.TypeRef) (isOptional : Bool) :
    (ofValue ref isOptional).mentions = (ofRef ref).mentions := by
  cases isOptional
  · rfl
  · exact mentions_asOptional _

end TypeExpr

namespace Catalog

variable {c : Catalog} {scope scope' : Scope} {fqn : String} {type : TypeExpr}

theorem needed?_of_resolveLocal {isStruct : Bool} {target : Package.PythonName} {module : String}
    {r : Reference} (h : resolveLocal c scope isStruct target module fqn = .ok r) :
    r.needed? = none := by
  simp only [resolveLocal, Outcome.bind_eq_ok] at h
  obtain ⟨around, -, below, -, h⟩ := h
  split at h
  · rw [← Outcome.pure_eq_ok.mp h]
  · split at h
    · obtain ⟨_, -, h⟩ := Outcome.bind_eq_ok.mp h
      rw [← Outcome.pure_eq_ok.mp h]
    · rw [← Outcome.pure_eq_ok.mp h]

theorem isStruct_of_entry {entry : Api.TypeEntry} (h : c.entry fqn = .ok entry) :
    c.isStruct fqn = entry.isStruct := by
  rw [Catalog.entry] at h
  split at h
  · rename_i found hfound
    obtain rfl := Except.ok.inj h
    simp [isStruct, hfound]
  · exact absurd h (by simp)

/-- The ways in which a name is resolved: as a name of another assembly, as one of the module that
mentions it, or as one of another module of the assembly. -/
inductive Resolves (c : Catalog) (scope : Scope) (fqn : String) (r : Reference) : Prop where
  | foreign {target : Package.PythonName} (htarget : c.pythonName fqn = .ok target)
      (hforeign : target.assembly ≠ c.assembly.name)
      (h : resolveForeign scope (c.isStruct fqn) target fqn = .ok r)
  | inside {target home owner : Package.PythonName} (htarget : c.pythonName fqn = .ok target)
      (hown : target.assembly = c.assembly.name) (hhome : c.pythonName scope.module = .ok home)
      (howner : c.pythonName (c.owner fqn) = .ok owner) (hsame : owner.path = home.path)
      (h : resolveLocal c scope (c.isStruct fqn) target home.path fqn = .ok r)
  | across {target home owner : Package.PythonName} (htarget : c.pythonName fqn = .ok target)
      (hown : target.assembly = c.assembly.name) (hhome : c.pythonName scope.module = .ok home)
      (howner : c.pythonName (c.owner fqn) = .ok owner) (hother : owner.path ≠ home.path)
      (h : resolveAcross scope (c.isStruct fqn) target home.path owner.path fqn = .ok r)

theorem resolves_of_resolve {r : Reference} (h : c.resolve scope fqn = .ok r) :
    c.Resolves scope fqn r := by
  simp only [resolve, Outcome.bind_eq_ok] at h
  obtain ⟨target, htarget, entry, hentry, h⟩ := h
  rw [← isStruct_of_entry hentry] at h
  by_cases hown : target.assembly = c.assembly.name
  · rw [if_neg (not_not_intro hown)] at h
    simp only [Outcome.bind_eq_ok] at h
    obtain ⟨home, hhome, owner, howner, h⟩ := h
    by_cases hsame : owner.path = home.path
    · rw [if_pos hsame] at h
      exact .inside htarget hown hhome howner hsame h
    · rw [if_neg hsame] at h
      exact .across htarget hown hhome howner hsame h
  · rw [if_pos hown] at h
    exact .foreign htarget hown h

theorem needed?_eq_of_module {r r' : Reference} (hmodule : scope.module = scope'.module)
    (h : c.resolve scope fqn = .ok r) (h' : c.resolve scope' fqn = .ok r') :
    r.needed? = r'.needed? := by
  simp only [resolve, Outcome.bind_eq_ok] at h h'
  obtain ⟨target, htarget, entry, hentry, h⟩ := h
  obtain ⟨_, htarget', _, hentry', h'⟩ := h'
  obtain rfl := Except.ok.inj (htarget.symm.trans htarget')
  obtain rfl := Except.ok.inj (hentry.symm.trans hentry')
  by_cases hforeign : target.assembly ≠ c.assembly.name
  · rw [if_pos hforeign] at h h'
    simp only [resolveForeign, Outcome.bind_eq_ok, Outcome.pure_eq_ok] at h h'
    obtain ⟨_, -, rfl⟩ := h
    obtain ⟨_, -, rfl⟩ := h'
    rfl
  · rw [if_neg hforeign] at h h'
    simp only [Outcome.bind_eq_ok] at h h'
    obtain ⟨home, hhome, owner, howner, h⟩ := h
    obtain ⟨_, hhome', _, howner', h'⟩ := h'
    obtain rfl := Except.ok.inj (hhome.symm.trans (hmodule ▸ hhome'))
    obtain rfl := Except.ok.inj (howner.symm.trans howner')
    by_cases hsame : owner.path = home.path
    · rw [if_pos hsame] at h h'
      rw [needed?_of_resolveLocal h, needed?_of_resolveLocal h']
    · rw [if_neg hsame] at h h'
      simp only [resolveAcross, Outcome.bind_eq_ok, Outcome.pure_eq_ok] at h h'
      obtain ⟨below, hbelow, rfl⟩ := h
      obtain ⟨_, hbelow', rfl⟩ := h'
      obtain rfl := Except.ok.inj (hbelow.symm.trans hbelow')
      rfl

/-- All names resolve, and the imports are the union of what their references need. -/
def Unites (c : Catalog) (scope : Scope) (names : List String) (imports : Imports) : Prop :=
  ∃ references, names.mapM (c.resolve scope) = .ok references ∧
    imports = .ofList (references.filterMap Reference.needed?)

theorem Unites.nil : Unites c scope [] .empty := ⟨[], rfl, rfl⟩

theorem Unites.append {names names' : List String} {first : Imports} {rest : List Imports}
    (h : Unites c scope names first) (h' : Unites c scope names' (.mergeAll rest)) :
    Unites c scope (names ++ names') (.mergeAll (first :: rest)) := by
  obtain ⟨references, hreferences, rfl⟩ := h
  obtain ⟨references', hreferences', hrest⟩ := h'
  refine ⟨references ++ references', ?_, ?_⟩
  · rw [List.mapM_append, hreferences, hreferences']
    rfl
  · rw [Imports.mergeAll_eq_ofList]
    apply Imports.ofList_congr
    intro i
    have hcontains : i ∈ rest.flatMap Imports.toList ↔
        i ∈ references'.filterMap Reference.needed? := by
      rw [← Imports.contains_ofList, ← Imports.mergeAll_eq_ofList, hrest, Imports.contains_ofList]
    rw [List.flatMap_cons, List.filterMap_append, List.mem_append, List.mem_append,
      Imports.mem_toList, Imports.contains_ofList, hcontains]

mutual

theorem unites_of_project (scope : Scope) : ∀ (type : TypeExpr) (p : Projection),
    c.project scope type = .ok p → Unites c scope type.mentions p.imports
  | .void, p, h => by
    rw [project] at h
    obtain rfl := Except.ok.inj h
    exact .nil
  | .primitive _, p, h => by
    rw [project] at h
    obtain rfl := Except.ok.inj h
    exact .nil
  | .collection kind element, p, h => by
    simp only [project, Outcome.bind_eq_ok, Outcome.pure_eq_ok] at h
    obtain ⟨inner, hinner, rfl⟩ := h
    exact unites_of_project scope element inner hinner
  | .union options, p, h => by
    simp only [project, Outcome.bind_eq_ok, Outcome.pure_eq_ok] at h
    obtain ⟨parts, hparts, rfl⟩ := h
    exact unites_of_projectAll scope options parts hparts
  | .optional inner, p, h => by
    simp only [project, Outcome.bind_eq_ok] at h
    obtain ⟨plain, hplain, h⟩ := h
    have hinner := unites_of_project { scope with optionalShown := true } inner plain hplain
    split at h
    · obtain rfl := Outcome.pure_eq_ok.mp h
      exact hinner
    · obtain rfl := Outcome.pure_eq_ok.mp h
      exact hinner
  | .named fqn, p, h => by
    simp only [project, Outcome.bind_eq_ok, Outcome.pure_eq_ok] at h
    obtain ⟨r, hr, rfl⟩ := h
    refine ⟨[r], ?_, ?_⟩
    · rw [TypeExpr.mentions, List.mapM_cons, hr]
      rfl
    · cases hneeded : r.needed? with
      | none => simp [hneeded]
      | some i => simp [hneeded]

theorem unites_of_projectAll (scope : Scope) : ∀ (types : List TypeExpr) (ps : List Projection),
    c.projectAll scope types = .ok ps →
      Unites c scope (TypeExpr.mentionsOf types) (.mergeAll (ps.map (·.imports)))
  | [], ps, h => by
    rw [projectAll] at h
    obtain rfl := Except.ok.inj h
    exact .nil
  | type :: types, ps, h => by
    simp only [projectAll, Outcome.bind_eq_ok, Outcome.pure_eq_ok] at h
    obtain ⟨first, hfirst, rest, hrest, rfl⟩ := h
    exact (unites_of_project scope type first hfirst).append
      (unites_of_projectAll scope types rest hrest)

end

structure Gathers (c : Catalog) (scope : Scope) (names : List String) (imports : Imports) :
    Prop where
  resolves : ∀ fqn ∈ names, ∃ r, c.resolve scope fqn = .ok r
  needed : ∀ i, imports.contains i = true ↔
    ∃ fqn ∈ names, ∃ r, c.resolve scope fqn = .ok r ∧ r.needed? = some i

theorem Unites.gathers {names : List String} {imports : Imports}
    (h : Unites c scope names imports) : Gathers c scope names imports := by
  obtain ⟨references, hreferences, rfl⟩ := h
  constructor
  · intro fqn hfqn
    obtain ⟨r, -, hr⟩ := Outcome.exists_mem_mapM hreferences hfqn
    exact ⟨r, hr⟩
  · intro i
    rw [Imports.contains_ofList, List.mem_filterMap]
    constructor
    · rintro ⟨r, hin, hneeded⟩
      obtain ⟨fqn, hfqn, hr⟩ := Outcome.exists_mem_of_mapM hreferences hin
      exact ⟨fqn, hfqn, r, hr, hneeded⟩
    · rintro ⟨fqn, hfqn, r, hr, hneeded⟩
      obtain ⟨r', hin, hr'⟩ := Outcome.exists_mem_mapM hreferences hfqn
      exact ⟨r', hin, Except.ok.inj (hr.symm.trans hr') ▸ hneeded⟩

theorem gathers_of_project (scope : Scope) (type : TypeExpr) (p : Projection)
    (h : c.project scope type = .ok p) : Gathers c scope type.mentions p.imports :=
  (unites_of_project scope type p h).gathers

theorem gathers_of_importsOf {imports : Imports} (h : c.importsOf scope type = .ok imports) :
    Gathers c scope type.mentions imports := by
  simp only [importsOf, Outcome.bind_eq_ok, Outcome.pure_eq_ok] at h
  obtain ⟨p, hp, rfl⟩ := h
  exact gathers_of_project scope type p hp

/-- The imports hold what a name needs wherever a module mentions it. -/
def Covers (c : Catalog) (module : String) (imports : Imports) (fqn : String) : Prop :=
  ∀ scope r i, scope.module = module → c.resolve scope fqn = .ok r → r.needed? = some i →
    imports.contains i = true

theorem covers_of_importsOf {found imports : Imports} (h : c.importsOf scope type = .ok found)
    (hsub : found.Included imports) :
    ∀ fqn ∈ type.mentions, Covers c scope.module imports fqn := by
  intro fqn hfqn scope' r' i hmodule hr' hi
  have hgathers := gathers_of_importsOf h
  obtain ⟨r, hr⟩ := hgathers.resolves fqn hfqn
  have hneeded : r.needed? = some i := (needed?_eq_of_module hmodule.symm hr hr').trans hi
  exact hsub i ((hgathers.needed i).mpr ⟨fqn, hfqn, r, hr, hneeded⟩)

end Catalog

end Bindery
