import Bindery.Model.Build
import Bindery.Proofs.Collection
import Bindery.Proofs.Outcome

/-!
# Theory of built models

The declarations of a built model are those of the assembly, its submodules and its types, each
under its own name and together with the types that lie directly inside it.
-/

namespace Bindery

open Api

/-- Every type stands under its own name, and the name has a dot. -/
def Api.Assembly.Keyed (a : Assembly) : Prop :=
  ∀ entry ∈ a.types.entries, entry.2.fqn = entry.1 ∧ '.' ∈ entry.1.toList

instance (a : Assembly) : Decidable a.Keyed :=
  inferInstanceAs (Decidable (∀ entry ∈ a.types.entries, _))

namespace SymbolTable

variable {α : Type} [Symbol α]

theorem register_of_fresh {table : SymbolTable α} {symbol : α}
    (h : Symbol.fqn symbol ∉ table.entries.keys) :
    ∃ table', table.register symbol = .ok table' ∧
      table'.entries.entries = table.entries.entries ++ [(Symbol.fqn symbol, symbol)] := by
  have hcontains : table.contains (Symbol.fqn symbol) = false := by
    rw [← Bool.not_eq_true, contains, OrderedMap.contains_iff]
    exact h
  refine ⟨_, by rw [register, hcontains]; rfl, ?_⟩
  exact OrderedMap.put_of_not_mem h

theorem registerAll_of_fresh {table : SymbolTable α} {symbols : List α}
    (h : (table.entries.keys ++ symbols.map Symbol.fqn).Nodup) :
    ∃ table', table.registerAll symbols = .ok table' ∧
      table'.entries.entries =
        table.entries.entries ++ symbols.map fun symbol => (Symbol.fqn symbol, symbol) := by
  induction symbols generalizing table with
  | nil => exact ⟨table, rfl, by simp⟩
  | cons symbol symbols ih =>
    have hfresh : Symbol.fqn symbol ∉ table.entries.keys := by
      intro hin
      exact (List.nodup_append.mp h).2.2 _ hin _ (by simp) rfl
    obtain ⟨middle, hmiddle, hentries⟩ := register_of_fresh hfresh
    have hkeys : middle.entries.keys = table.entries.keys ++ [Symbol.fqn symbol] := by
      simp [OrderedMap.keys, hentries]
    have hnext : (middle.entries.keys ++ symbols.map Symbol.fqn).Nodup := by
      simpa [hkeys] using h
    obtain ⟨table', htable', hentries'⟩ := ih hnext
    refine ⟨table', ?_, by simp [hentries', hentries]⟩
    rw [registerAll, List.foldlM_cons]
    exact Outcome.bind_eq_ok.mpr ⟨middle, hmiddle, htable'⟩

theorem registerAll_values {map : OrderedMap α}
    (h : ∀ entry ∈ map.entries, Symbol.fqn entry.2 = entry.1) :
    empty.registerAll map.values = .ok { entries := map } := by
  have hentries : map.values.map (fun symbol => (Symbol.fqn symbol, symbol)) = map.entries := by
    rw [OrderedMap.values, List.map_map]
    refine (List.map_congr_left fun entry hin => ?_).trans map.entries.map_id
    exact Prod.ext (h entry hin) rfl
  have hnodup : ((empty : SymbolTable α).entries.keys ++ map.values.map Symbol.fqn).Nodup :=
    OrderedMap.nodup_map_values h
  obtain ⟨table, htable, hsame⟩ := registerAll_of_fresh hnodup
  have hmap : table.entries = map := OrderedMap.eq_of_entries (by rw [hsame, hentries]; rfl)
  rw [htable, ← hmap]

end SymbolTable

namespace Declaration

def holding (d : Declaration) (types : List TypeEntry) : Declaration :=
  { d with members := d.members ++ types.map fun entry => .type (Model.nestedType entry) }

theorem holding_nil (d : Declaration) : d.holding [] = d := by
  simp [holding]

theorem holding_cons (d : Declaration) (entry : TypeEntry) (types : List TypeEntry) :
    (d.holding [entry]).holding types = d.holding (entry :: types) := by
  simp [holding]

end Declaration

namespace Model

theorem find?_foldl_declare (ds : List Declaration) (declarations : OrderedMap Declaration)
    (k : String) :
    (ds.foldl declare declarations).find? k =
      (ds.reverse.find? fun d => d.fqn = k).or (declarations.find? k) := by
  induction ds generalizing declarations with
  | nil => simp
  | cons d ds ih =>
    rw [List.foldl_cons, ih, declare, OrderedMap.find?_insert, List.reverse_cons,
      List.find?_append, Option.or_assoc]
    by_cases hk : k = d.fqn
    · simp [hk]
    · simp [hk, Ne.symm hk]

theorem attach_eq_ok {declarations declarations' : OrderedMap Declaration} {entry : TypeEntry}
    (h : attach declarations entry = .ok declarations') :
    ∃ outer, declarations.find? (Dotted.parent entry.fqn) = some outer ∧
      ∀ k, declarations'.find? k =
        if k = Dotted.parent entry.fqn then some (outer.holding [entry])
        else declarations.find? k := by
  rw [attach] at h
  split at h
  · exact absurd h (by simp)
  · rename_i outer hfind
    refine ⟨outer, hfind, fun k => ?_⟩
    split at h
    · exact absurd h (by simp)
    · exact absurd h (by simp)
    · rw [← Except.ok.inj h]
      exact OrderedMap.find?_insert declarations _ k _

theorem foldlM_attach_eq_ok {types : List TypeEntry}
    {declarations declarations' : OrderedMap Declaration}
    (h : types.foldlM attach declarations = .ok declarations') :
    (∀ entry ∈ types, (declarations.find? (Dotted.parent entry.fqn)).isSome = true) ∧
      ∀ k, declarations'.find? k = (declarations.find? k).map fun d =>
        d.holding (types.filter fun entry => Dotted.parent entry.fqn = k) := by
  induction types generalizing declarations with
  | nil =>
    obtain rfl := Outcome.pure_eq_ok.mp h
    simp [Declaration.holding_nil]
  | cons entry types ih =>
    rw [List.foldlM_cons] at h
    obtain ⟨middle, hattach, hrest⟩ := Outcome.bind_eq_ok.mp h
    obtain ⟨outer, houter, hmiddle⟩ := attach_eq_ok hattach
    obtain ⟨hparents, hfind⟩ := ih hrest
    constructor
    · intro e he
      rcases List.mem_cons.mp he with rfl | he
      · simp [houter]
      · have hsome := hparents e he
        rw [hmiddle] at hsome
        split at hsome
        · rename_i hparent
          simp [hparent, houter]
        · exact hsome
    · intro k
      rw [hfind, hmiddle]
      by_cases hk : k = Dotted.parent entry.fqn
      · subst hk
        simp [houter, Declaration.holding_cons]
      · simp [hk, Ne.symm hk]

def ownDeclarations (c : Catalog) : Outcome (List Declaration) := do
  let modules ← moduleDeclarations c
  let types ← c.assembly.types.values.mapM (typeDeclaration c)
  return modules ++ types

theorem registerAll_attached {ds : List Declaration} {types : List TypeEntry}
    {declarations : OrderedMap Declaration}
    (h : types.foldlM attach (ds.foldl declare .empty) = .ok declarations) :
    SymbolTable.empty.registerAll declarations.values = .ok { entries := declarations } := by
  apply SymbolTable.registerAll_values
  intro entry hentry
  have hfound := OrderedMap.find?_eq_some_iff.mpr hentry
  rw [(foldlM_attach_eq_ok h).2, find?_foldl_declare, Option.map_eq_some_iff] at hfound
  obtain ⟨bare, hbare, heq⟩ := hfound
  rw [OrderedMap.find?_empty, Option.or_none] at hbare
  have hfqn : bare.fqn = entry.1 := by simpa using List.find?_some hbare
  rw [← heq]
  exact hfqn

/-- A model is built from its declarations and the types attached to them; nothing else can
fail. -/
theorem build_eq (a : Assembly) (dependencies : List Assembly) :
    build a dependencies = (do
      let c := catalog a dependencies
      let ds ← ownDeclarations c
      let declarations ← c.assembly.types.values.foldlM attach (ds.foldl declare .empty)
      return { c with symbols := { entries := declarations } }) := by
  simp only [build, ownDeclarations, bind_assoc, pure_bind]
  refine bind_congr fun modules => bind_congr fun types => ?_
  cases hattach : (catalog a dependencies).assembly.types.values.foldlM attach
      ((modules ++ types).foldl declare .empty) with
  | error fault => rfl
  | ok declarations =>
    let finish (table : Outcome (SymbolTable Declaration)) : Outcome Model :=
      table >>= fun symbols => pure { toCatalog := catalog a dependencies, symbols }
    exact congrArg finish (registerAll_attached hattach)

theorem types_catalog (a : Assembly) (dependencies : List Assembly) :
    (catalog a dependencies).assembly.types = a.types := by
  have hfold : ∀ b : Assembly, (dependencies.foldl addTargets b).types = b.types := by
    induction dependencies with
    | nil => exact fun b => rfl
    | cons dependency dependencies ih => exact fun b => ih (addTargets b dependency)
  exact hfold a

theorem types_of_build {a : Assembly} {dependencies : List Assembly} {m : Model}
    (h : build a dependencies = .ok m) : m.assembly.types = a.types := by
  simp only [build_eq, Outcome.bind_eq_ok, Outcome.pure_eq_ok] at h
  obtain ⟨_, -, _, -, rfl⟩ := h
  exact types_catalog a dependencies

inductive Declares (c : Catalog) : Declaration → Prop
  | root {d : Declaration} (h : rootDeclaration c = .ok d) : Declares c d
  | submodule {d : Declaration} {entry : String × Submodule}
      (hin : entry ∈ c.assembly.submodules.entries) (h : submoduleDeclaration c entry = .ok d) :
      Declares c d
  | type {d : Declaration} {entry : TypeEntry} (hin : entry ∈ c.assembly.types.values)
      (h : typeDeclaration c entry = .ok d) : Declares c d

theorem declares_of_moduleDeclarations {c : Catalog} {modules : List Declaration}
    (h : moduleDeclarations c = .ok modules) {d : Declaration} (hd : d ∈ modules) :
    Declares c d := by
  simp only [moduleDeclarations, Outcome.bind_eq_ok, Outcome.pure_eq_ok] at h
  obtain ⟨root, hroot, submodules, hsubmodules, rfl⟩ := h
  rcases List.mem_cons.mp hd with rfl | hd
  · exact .root hroot
  · obtain ⟨entry, hentry, hdeclares⟩ := Outcome.exists_mem_of_mapM hsubmodules hd
    exact .submodule hentry hdeclares

theorem fqn_of_typeDeclaration {c : Catalog} {entry : TypeEntry} {d : Declaration}
    (h : typeDeclaration c entry = .ok d) : d.fqn = entry.fqn := by
  simp only [typeDeclaration, Outcome.bind_eq_ok, Outcome.pure_eq_ok] at h
  obtain ⟨_, _, rfl⟩ := h
  rfl

theorem content_spec {c : Catalog} {entry : TypeEntry} {shape : Shape} {members : List Member}
    (h : content c entry = .ok (shape, members)) :
    shape.kind ≠ .module ∧ ∀ member ∈ members, member.nested? = none := by
  cases entry with
  | «class» type =>
    simp only [content, classContent, Outcome.bind_eq_ok] at h
    obtain ⟨_, _, _, _, h⟩ := h
    split at h
    all_goals
      simp only [Outcome.bind_eq_ok, Outcome.pure_eq_ok] at h
      obtain ⟨_, _, heq⟩ := h
      obtain ⟨rfl, rfl⟩ := Prod.mk.inj heq
      simp [or_imp, forall_and, Shape.kind, Member.nested?]
  | interface type =>
    rw [content] at h
    split at h
    · obtain ⟨rfl, rfl⟩ := Prod.mk.inj (Except.ok.inj h)
      simp [Shape.kind, Member.nested?]
    · simp only [interfaceContent, Outcome.bind_eq_ok, Outcome.pure_eq_ok] at h
      obtain ⟨_, _, heq⟩ := h
      obtain ⟨rfl, rfl⟩ := Prod.mk.inj heq
      simp [or_imp, forall_and, Shape.kind, Member.nested?]
  | enum type =>
    obtain ⟨rfl, rfl⟩ := Prod.mk.inj (Except.ok.inj h)
    simp [Shape.kind, Member.nested?]

theorem Declares.spec {c : Catalog} {d : Declaration} (h : Declares c d) :
    (d.shape.kind = .module ∧ d.members = [] ∧
      (d.fqn = c.assembly.name ∨ d.fqn ∈ c.assembly.submodules.keys) ∧
      ∃ location, c.locate d.fqn = .ok location ∧ d.name = location.package) ∨
    (d.shape.kind ≠ .module ∧ (∀ member ∈ d.members, member.nested? = none) ∧
      ∃ entry ∈ c.assembly.types.values, entry.fqn = d.fqn) := by
  cases h with
  | root h =>
    simp only [rootDeclaration, Outcome.bind_eq_ok, Outcome.pure_eq_ok] at h
    obtain ⟨location, hlocation, rfl⟩ := h
    exact .inl ⟨rfl, rfl, .inl rfl, location, hlocation, rfl⟩
  | submodule hin h =>
    simp only [submoduleDeclaration, Outcome.bind_eq_ok, Outcome.pure_eq_ok] at h
    obtain ⟨location, hlocation, rfl⟩ := h
    exact .inl ⟨rfl, rfl, .inr (List.mem_map_of_mem hin), location, hlocation, rfl⟩
  | @type entry hin h =>
    simp only [typeDeclaration, Outcome.bind_eq_ok, Outcome.pure_eq_ok] at h
    obtain ⟨⟨shape, members⟩, hcontent, rfl⟩ := h
    obtain ⟨hkind, hnested⟩ := content_spec hcontent
    exact .inr ⟨hkind, hnested, entry, hin, rfl⟩

theorem Declares.nested? {c : Catalog} {d : Declaration} (h : Declares c d) :
    ∀ member ∈ d.members, member.nested? = none := by
  rcases h.spec with ⟨-, hempty, -⟩ | ⟨-, hnested, -⟩
  · simp [hempty]
  · exact hnested

theorem Declares.of_module {c : Catalog} {d : Declaration} (h : Declares c d)
    (hkind : d.shape.kind = .module) :
    (d.fqn = c.assembly.name ∨ d.fqn ∈ c.assembly.submodules.keys) ∧
      ∃ location, c.locate d.fqn = .ok location ∧ d.name = location.package := by
  rcases h.spec with ⟨-, -, hmodule⟩ | ⟨htype, -⟩
  · exact hmodule
  · exact absurd hkind htype

theorem Declares.of_type {c : Catalog} {d : Declaration} (h : Declares c d)
    (hkind : d.shape.kind ≠ .module) : ∃ entry ∈ c.assembly.types.values, entry.fqn = d.fqn := by
  rcases h.spec with ⟨hmodule, -⟩ | ⟨-, -, hentry⟩
  · exact absurd hmodule hkind
  · exact hentry

theorem Declares.fqn_cases {c : Catalog} {d : Declaration} (h : Declares c d) :
    d.fqn = c.assembly.name ∨ d.fqn ∈ c.assembly.submodules.keys ∨
      ∃ entry ∈ c.assembly.types.values, entry.fqn = d.fqn := by
  by_cases hkind : d.shape.kind = .module
  · exact (h.of_module hkind).1.imp_right .inl
  · exact .inr (.inr (h.of_type hkind))

def typesIn (c : Catalog) (fqn : String) : List TypeEntry :=
  c.assembly.types.values.filter fun entry => Dotted.parent entry.fqn = fqn

/-- A model that holds what its catalog declares, each under its own name and together with the
types inside it. -/
structure Faithful (m : Model) : Prop where
  lookup : ∀ k d, m.symbols.lookup k = some d →
    ∃ bare, Declares m.toCatalog bare ∧ bare.fqn = k ∧ d = bare.holding (typesIn m.toCatalog k)
  declared : ∀ entry ∈ m.assembly.types.values, (m.symbols.lookup entry.fqn).isSome = true
  enclosed : ∀ entry ∈ m.assembly.types.values,
    (m.symbols.lookup (Dotted.parent entry.fqn)).isSome = true

theorem faithful_of_build {a : Assembly} {dependencies : List Assembly} {m : Model}
    (h : build a dependencies = .ok m) : m.Faithful := by
  simp only [build, Outcome.bind_eq_ok, Outcome.pure_eq_ok] at h
  obtain ⟨modules, hmodules, types, htypes, declarations, hattach, symbols, hsymbols, rfl⟩ := h
  set c := catalog a dependencies
  obtain ⟨hparents, hfind⟩ := foldlM_attach_eq_ok hattach
  -- Of several declarations with one name the last one is kept.
  have hinitial : ∀ k, ((modules ++ types).foldl declare .empty).find? k =
      (modules ++ types).reverse.find? fun d => d.fqn = k := by
    intro k
    rw [find?_foldl_declare, OrderedMap.find?_empty, Option.or_none]
  have hdeclares : ∀ d ∈ modules ++ types, Declares c d := by
    intro d hd
    rcases List.mem_append.mp hd with hd | hd
    · exact declares_of_moduleDeclarations hmodules hd
    · obtain ⟨entry, hentry, hdeclaration⟩ := Outcome.exists_mem_of_mapM htypes hd
      exact .type hentry hdeclaration
  have hlookup : ∀ k d, declarations.find? k = some d →
      ∃ bare, Declares c bare ∧ bare.fqn = k ∧ d = bare.holding (typesIn c k) := by
    intro k d hd
    rw [hfind, hinitial, Option.map_eq_some_iff] at hd
    obtain ⟨bare, hbare, rfl⟩ := hd
    have hin := List.mem_reverse.mp (List.mem_of_find?_eq_some hbare)
    exact ⟨bare, hdeclares bare hin, by simpa using List.find?_some hbare, rfl⟩
  -- All of them stand under their own names, so registering them changes nothing.
  have hkeyed : ∀ entry ∈ declarations.entries, Symbol.fqn entry.2 = entry.1 := by
    intro entry hentry
    obtain ⟨bare, -, hfqn, heq⟩ := hlookup _ _ (OrderedMap.find?_eq_some_iff.mpr hentry)
    rw [heq]
    exact hfqn
  obtain rfl : { entries := declarations } = symbols := by
    rw [SymbolTable.registerAll_values hkeyed] at hsymbols
    exact Except.ok.inj hsymbols
  refine ⟨hlookup, fun entry hentry => ?_, fun entry hentry => ?_⟩
  · obtain ⟨d, hd, hdeclaration⟩ := Outcome.exists_mem_mapM htypes hentry
    have hsome : ((modules ++ types).reverse.find? fun d => d.fqn = entry.fqn).isSome = true := by
      rw [List.find?_isSome]
      exact ⟨d, by simp [hd], by simpa using fqn_of_typeDeclaration hdeclaration⟩
    show (declarations.find? entry.fqn).isSome = true
    rw [hfind, hinitial, Option.isSome_map, hsome]
  · show (declarations.find? (Dotted.parent entry.fqn)).isSome = true
    rw [hfind, Option.isSome_map]
    exact hparents entry hentry

theorem mem_modules_iff {m : Model} {d : Declaration} :
    d ∈ m.modules ↔ (∃ k, m.symbols.lookup k = some d) ∧ d.shape.kind = .module := by
  simp only [modules, SymbolTable.ofKind, SymbolTable.symbols, OrderedMap.values, List.mem_filter,
    List.mem_map, Prod.exists, exists_eq_right, decide_eq_true_eq, SymbolTable.lookup,
    OrderedMap.find?_eq_some_iff]
  rfl

theorem Faithful.fqn_eq {m : Model} (hm : m.Faithful) {k : String} {d : Declaration}
    (h : m.symbols.lookup k = some d) : d.fqn = k := by
  obtain ⟨bare, -, hfqn, rfl⟩ := hm.lookup k d h
  exact hfqn

theorem Faithful.of_mem_modules {m : Model} (hm : m.Faithful) {d : Declaration}
    (h : d ∈ m.modules) :
    (d.fqn = m.assembly.name ∨ d.fqn ∈ m.assembly.submodules.keys) ∧
      ∃ location, m.locate d.fqn = .ok location ∧ d.name = location.package := by
  obtain ⟨⟨k, hk⟩, hkind⟩ := mem_modules_iff.mp h
  obtain ⟨bare, hdeclares, -, rfl⟩ := hm.lookup k d hk
  exact hdeclares.of_module hkind

theorem lookup_of_declaration {m : Model} {k : String} {d : Declaration}
    (h : m.declaration k = .ok d) : m.symbols.lookup k = some d := by
  rw [declaration] at h
  split at h
  · rename_i found hfound
    rw [hfound, Except.ok.inj h]
  · cases h

theorem declaration_of_lookup {m : Model} {k : String} {d : Declaration}
    (h : m.symbols.lookup k = some d) : m.declaration k = .ok d := by
  rw [declaration, h]

theorem Faithful.declaration_of_mem_modules {m : Model} (hm : m.Faithful) {d : Declaration}
    (h : d ∈ m.modules) : m.declaration d.fqn = .ok d := by
  obtain ⟨⟨k, hk⟩, -⟩ := mem_modules_iff.mp h
  rw [hm.fqn_eq hk]
  exact declaration_of_lookup hk

theorem Faithful.nested_members {m : Model} (hm : m.Faithful) {k : String} {d : Declaration}
    (hd : m.declaration k = .ok d) :
    d.members.filterMap Member.nested? = (typesIn m.toCatalog k).map TypeEntry.fqn := by
  obtain ⟨bare, hdeclares, -, rfl⟩ := hm.lookup k d (lookup_of_declaration hd)
  have hbare : bare.members.filterMap Member.nested? = [] := by
    rw [List.filterMap_eq_nil_iff]
    exact hdeclares.nested?
  rw [Declaration.holding, List.filterMap_append, hbare, List.nil_append, List.filterMap_map]
  exact congrFun List.filterMap_eq_map _

theorem Faithful.parent_of_nested {m : Model} (hm : m.Faithful) {k fqn : String} {d : Declaration}
    (hd : m.declaration k = .ok d) {member : Member} (hmember : member ∈ d.members)
    (hnested : member.nested? = some fqn) : Dotted.parent fqn = k := by
  obtain ⟨bare, hdeclares, -, rfl⟩ := hm.lookup k d (lookup_of_declaration hd)
  rcases List.mem_append.mp hmember with hbare | htype
  · simp [hdeclares.nested? member hbare] at hnested
  · obtain ⟨entry, hentry, rfl⟩ := List.mem_map.mp htype
    obtain rfl : entry.fqn = fqn := Option.some.inj hnested
    simpa using (List.mem_filter.mp hentry).2

theorem Faithful.parent_cases {m : Model} (hm : m.Faithful) {entry : TypeEntry}
    (h : entry ∈ m.assembly.types.values) :
    Dotted.parent entry.fqn = m.assembly.name ∨
      Dotted.parent entry.fqn ∈ m.assembly.submodules.keys ∨
      ∃ outer ∈ m.assembly.types.values, outer.fqn = Dotted.parent entry.fqn := by
  obtain ⟨d, hd⟩ := Option.isSome_iff_exists.mp (hm.enclosed entry h)
  obtain ⟨bare, hdeclares, hfqn, -⟩ := hm.lookup _ d hd
  exact hfqn ▸ hdeclares.fqn_cases

end Model

end Bindery
