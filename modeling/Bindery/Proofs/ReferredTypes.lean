import Bindery.Proofs.Dotted
import Bindery.Proofs.RequiredImports

/-!
# Types that declarations refer to

A declaration refers to its bases and to the types in the signatures of its methods, in its
properties and in its fields, and a method with a lifted struct also to the types of all fields
that the struct inherits. The imports of a module are collected along these references: they are
the imports that the references need, and where they could be collected every reference resolves.
Since every type lies in some module, the collection leaves out no declaration.
-/

namespace Bindery

open Api

namespace Catalog

inductive MethodRefers (c : Catalog) (method : MethodMember) (fqn : String) : Prop
  | returns (h : fqn ∈ method.returns.mentions)
  | argument {a : Argument} (ha : a ∈ method.arguments) (h : fqn ∈ a.type.mentions)
  | lifted {lifted name : String} {struct : InterfaceType} {p : Property}
      (hlifted : method.lifted = some lifted) (hinherits : c.Inherits lifted name)
      (hstruct : c.struct name = .ok struct) (hp : p ∈ struct.properties)
      (h : fqn ∈ (TypeExpr.ofRef p.type).mentions)

inductive Refers (c : Catalog) (d : Declaration) (fqn : String) : Prop
  | base (h : fqn ∈ d.bases)
  | method {method : MethodMember} (hmethod : .method method ∈ d.members)
      (h : MethodRefers c method fqn)
  | property {property : PropertyMember} (hproperty : .property property ∈ d.members)
      (h : fqn ∈ property.type.mentions)
  | field {bases : List String} {fields : List Field} {field : Field}
      (hshape : d.shape = .struct bases) (hfields : c.fields d.fqn = .ok fields)
      (hfield : field ∈ fields) (h : fqn ∈ field.type.mentions)

variable {c : Catalog} {scope : Scope} {N N' : String → Prop} {imports other : Imports}

/-- All names with a property resolve, and the imports are those that references to them need. -/
structure Collects (c : Catalog) (scope : Scope) (N : String → Prop) (imports : Imports) :
    Prop where
  resolves : ∀ fqn, N fqn → ∃ r, c.resolve scope fqn = .ok r
  needed : ∀ i, imports.contains i = true ↔
    ∃ fqn r, N fqn ∧ c.resolve scope fqn = .ok r ∧ r.needed? = some i

theorem Gathers.collects {names : List String} (h : Gathers c scope names imports) :
    Collects c scope (· ∈ names) imports := by
  refine ⟨h.resolves, fun i => (h.needed i).trans ?_⟩
  constructor
  · rintro ⟨fqn, hfqn, r, hr, hi⟩
    exact ⟨fqn, r, hfqn, hr, hi⟩
  · rintro ⟨fqn, r, hfqn, hr, hi⟩
    exact ⟨fqn, hfqn, r, hr, hi⟩

theorem Collects.congr (h : Collects c scope N imports) (hN : ∀ fqn, N fqn ↔ N' fqn) :
    Collects c scope N' imports := by
  obtain rfl : N = N' := funext fun fqn => propext (hN fqn)
  exact h

theorem Collects.none : Collects c scope (fun _ => False) .empty :=
  ⟨fun _ h => h.elim, fun i => by simp [Imports.contains_empty]⟩

theorem Collects.merge (h : Collects c scope N imports) (h' : Collects c scope N' other) :
    Collects c scope (fun fqn => N fqn ∨ N' fqn) (imports.merge other) := by
  constructor
  · rintro fqn (hN | hN)
    · exact h.resolves fqn hN
    · exact h'.resolves fqn hN
  · intro i
    rw [Imports.contains_merge, h.needed, h'.needed]
    simp only [or_and_right, exists_or]

theorem Collects.mergeAll {α : Type} {f : α → Outcome Imports} {P : α → String → Prop}
    {xs : List α} {sets : List Imports} (h : xs.mapM f = .ok sets)
    (hf : ∀ x ∈ xs, ∀ set, f x = .ok set → Collects c scope (P x) set) :
    Collects c scope (fun fqn => ∃ x ∈ xs, P x fqn) (.mergeAll sets) := by
  constructor
  · rintro fqn ⟨x, hx, hP⟩
    obtain ⟨set, -, hset⟩ := Outcome.exists_mem_mapM h hx
    exact (hf x hx set hset).resolves fqn hP
  · intro i
    rw [Imports.contains_mergeAll]
    constructor
    · rintro ⟨set, hset, hi⟩
      obtain ⟨x, hx, hfound⟩ := Outcome.exists_mem_of_mapM h hset
      obtain ⟨fqn, r, hP, hneeded⟩ := ((hf x hx set hfound).needed i).mp hi
      exact ⟨fqn, r, ⟨x, hx, hP⟩, hneeded⟩
    · rintro ⟨fqn, r, ⟨x, hx, hP⟩, hneeded⟩
      obtain ⟨set, hset, hfound⟩ := Outcome.exists_mem_mapM h hx
      exact ⟨set, hset, ((hf x hx set hfound).needed i).mpr ⟨fqn, r, hP, hneeded⟩⟩

end Catalog

namespace Binding

variable {c : Catalog} {scope : Scope} {imports : Imports}

theorem collects_of_importsOfAll {types : List TypeExpr}
    (h : importsOfAll c scope types = .ok imports) :
    c.Collects scope (fun fqn => ∃ type ∈ types, fqn ∈ type.mentions) imports := by
  simp only [importsOfAll, Outcome.bind_eq_ok, Outcome.pure_eq_ok] at h
  obtain ⟨sets, hsets, rfl⟩ := h
  exact .mergeAll hsets fun type _ set hset => (Catalog.gathers_of_importsOf hset).collects

theorem collects_bases {fqns : List String}
    (h : importsOfAll c scope (fqns.map .named) = .ok imports) :
    c.Collects scope (· ∈ fqns) imports :=
  (collects_of_importsOfAll h).congr (by simp [TypeExpr.mentions])

theorem collects_of_liftedImports {lifted? : Option String}
    (h : liftedImports c scope lifted? = .ok imports) :
    c.Collects scope (fun fqn => ∃ lifted name struct p, lifted? = some lifted ∧
      c.Inherits lifted name ∧ c.struct name = .ok struct ∧ p ∈ struct.properties ∧
        fqn ∈ (TypeExpr.ofRef p.type).mentions) imports := by
  cases lifted? with
  | none =>
    obtain rfl := Except.ok.inj h
    exact Catalog.Collects.none.congr fun fqn => by simp
  | some lifted =>
    simp only [liftedImports, Outcome.bind_eq_ok, Outcome.pure_eq_ok] at h
    obtain ⟨sets, hsets, rfl⟩ := h
    let visited (visit : Catalog.Visit) (fqn : String) : Prop :=
      ∃ name struct p, visit = .enter name struct ∧ p ∈ struct.properties ∧
        fqn ∈ (TypeExpr.ofRef p.type).mentions
    have hvisits : ∀ visit ∈ c.visits lifted, ∀ set, visitImports c scope visit = .ok set →
        c.Collects scope (visited visit) set := by
      intro visit _ set hset
      cases visit with
      | enter name struct =>
        exact (collects_of_importsOfAll hset).congr fun fqn => by simp [visited]
      | leave name struct =>
        obtain rfl := Except.ok.inj hset
        exact Catalog.Collects.none.congr fun fqn => by simp [visited]
      | fail fault => cases hset
    -- The walk enters exactly the structs that the lifted one inherits from.
    refine (Catalog.Collects.mergeAll hsets hvisits).congr fun fqn => ?_
    constructor
    · rintro ⟨_, hvisit, name, struct, p, rfl, hp, hfqn⟩
      obtain ⟨hinherits, hstruct⟩ := Catalog.inherits_of_entered hvisit
      exact ⟨lifted, name, struct, p, rfl, hinherits, hstruct, hp, hfqn⟩
    · rintro ⟨_, name, struct, p, hlifted, hinherits, hstruct, hp, hfqn⟩
      obtain rfl := Option.some.inj hlifted
      obtain ⟨found, hfound, henter⟩ :=
        Catalog.entered_of_inherits (not_fail_of_visitImports hsets) hinherits
      obtain rfl := Except.ok.inj (hstruct.symm.trans hfound)
      exact ⟨_, henter, name, struct, p, rfl, hp, hfqn⟩

theorem collects_of_methodImports {method : MethodMember}
    (h : methodImports c scope method = .ok imports) :
    c.Collects scope (c.MethodRefers method) imports := by
  simp only [methodImports, Outcome.bind_eq_ok, Outcome.pure_eq_ok] at h
  obtain ⟨signature, hsignature, lifted, hlifted, rfl⟩ := h
  have hboth := (collects_of_importsOfAll hsignature).merge (collects_of_liftedImports hlifted)
  refine hboth.congr fun fqn => ?_
  constructor
  · rintro (⟨type, htype, hfqn⟩ | ⟨struct, name, found, p, hstruct, hinherits, hfound, hp, hfqn⟩)
    · rcases List.mem_cons.mp htype with rfl | htype
      · exact .returns hfqn
      · obtain ⟨a, ha, rfl⟩ := List.mem_map.mp htype
        exact .argument ha hfqn
    · exact .lifted hstruct hinherits hfound hp hfqn
  · rintro (hfqn | ⟨ha, hfqn⟩ | ⟨hstruct, hinherits, hfound, hp, hfqn⟩)
    · exact .inl ⟨_, List.mem_cons_self, hfqn⟩
    · exact .inl ⟨_, List.mem_cons_of_mem _ (List.mem_map_of_mem ha), hfqn⟩
    · exact .inr ⟨_, _, _, _, hstruct, hinherits, hfound, hp, hfqn⟩

/-- What a member of a class or an interface contributes; `inside` is what a nested type does. -/
def MemberRefers (c : Catalog) (inside : String → String → Prop) (fqn : String) : Member → Prop
  | .type nested => inside nested.fqn fqn
  | .method method => c.MethodRefers method fqn
  | .property property => fqn ∈ property.type.mentions
  | .field field => fqn ∈ field.type.mentions
  | .value _ => False

theorem collects_of_memberImportsBy {nesting : String → Outcome Imports}
    {inside : String → String → Prop}
    (hnesting : ∀ nested set, nesting nested = .ok set → c.Collects scope (inside nested) set)
    {member : Member} (h : memberImportsBy nesting c scope member = .ok imports) :
    c.Collects scope (MemberRefers c inside · member) imports := by
  cases member with
  | type nested => exact hnesting nested.fqn imports h
  | method method => exact collects_of_methodImports h
  | property property => exact (Catalog.gathers_of_importsOf h).collects
  | field field => exact (Catalog.gathers_of_importsOf h).collects
  | value value =>
    obtain rfl := Except.ok.inj h
    exact .none

theorem refers_iff_of_not_struct {inside : String → String → Prop} {d : Declaration}
    (hstruct : d.shape.kind ≠ .struct) (hfits : ∀ member ∈ d.members, Model.Fits d member)
    (fqn : String) :
    (fqn ∈ d.bases ∨ ∃ member ∈ d.members, MemberRefers c inside fqn member) ↔
      c.Refers d fqn ∨ ∃ nested ∈ d.members.filterMap Member.nested?, inside nested fqn := by
  constructor
  · rintro (hbase | ⟨member, hmember, hrefers⟩)
    · exact .inl (.base hbase)
    · cases member with
      | type nested => exact .inr ⟨nested.fqn, List.mem_filterMap.mpr ⟨_, hmember, rfl⟩, hrefers⟩
      | method method => exact .inl (.method hmember hrefers)
      | property property => exact .inl (.property hmember hrefers)
      | field field => exact absurd (hfits _ hmember) hstruct
      | value value => exact hrefers.elim
  · rintro ((hbase | ⟨hmethod, hrefers⟩ | ⟨hproperty, hrefers⟩ | ⟨hshape, -⟩) |
      ⟨nested, hnested, hinside⟩)
    · exact .inl hbase
    · exact .inr ⟨_, hmethod, hrefers⟩
    · exact .inr ⟨_, hproperty, hrefers⟩
    · exact absurd (by rw [hshape]; rfl) hstruct
    · obtain ⟨member, hmember, hsome⟩ := List.mem_filterMap.mp hnested
      obtain ⟨found, rfl, rfl⟩ := Member.exists_type_of_nested? hsome
      exact .inr ⟨_, hmember, hinside⟩

theorem refers_iff_of_struct {inside : String → String → Prop} {d : Declaration}
    {bases : List String} (hshape : d.shape = .struct bases)
    (hfits : ∀ member ∈ d.members, Model.Fits d member) {fields : List Field}
    (hfields : c.fields d.fqn = .ok fields) (fqn : String) :
    (fqn ∈ d.bases ∨ ∃ type ∈ fields.map (·.type), fqn ∈ type.mentions) ↔
      c.Refers d fqn ∨ ∃ nested ∈ d.members.filterMap Member.nested?, inside nested fqn := by
  have hkind : d.shape.kind = .struct := by rw [hshape]; rfl
  have hplain : ¬ Model.HasOperations d := by simp [Model.HasOperations, hkind]
  constructor
  · rintro (hbase | ⟨type, htype, hfqn⟩)
    · exact .inl (.base hbase)
    · obtain ⟨field, hfield, rfl⟩ := List.mem_map.mp htype
      exact .inl (.field hshape hfields hfield hfqn)
  · rintro ((hbase | ⟨hmethod, -⟩ | ⟨hproperty, -⟩ | ⟨-, hfields', hfield, hfqn⟩) |
      ⟨nested, hnested, -⟩)
    · exact .inl hbase
    · exact absurd (hfits _ hmethod).1 hplain
    · exact absurd (hfits _ hproperty).1 hplain
    · obtain rfl := Except.ok.inj (hfields.symm.trans hfields')
      exact .inr ⟨_, List.mem_map_of_mem hfield, hfqn⟩
    · rw [Model.nested_eq_nil_of_fits hfits (.inl hkind)] at hnested
      cases hnested

theorem collects_of_typeImportsBy {nesting : String → Outcome Imports}
    {inside : String → String → Prop}
    (hnesting : ∀ nested set, nesting nested = .ok set → c.Collects scope (inside nested) set)
    {d : Declaration} (hfits : ∀ member ∈ d.members, Model.Fits d member)
    (h : typeImportsBy nesting c scope d = .ok imports) :
    c.Collects scope (fun fqn => c.Refers d fqn ∨
      ∃ nested ∈ d.members.filterMap Member.nested?, inside nested fqn) imports := by
  -- Classes and interfaces collect alike: their bases, then what the members mention.
  have hmembers : ∀ {bases : Imports} {sets : List Imports}, d.shape.kind ≠ .struct →
      importsOfAll c scope (d.bases.map .named) = .ok bases →
      d.members.mapM (memberImportsBy nesting c scope) = .ok sets →
      c.Collects scope (fun fqn => c.Refers d fqn ∨
        ∃ nested ∈ d.members.filterMap Member.nested?, inside nested fqn)
        (bases.merge (.mergeAll sets)) := by
    intro bases sets hkind hbases hsets
    have hall := Catalog.Collects.mergeAll hsets fun member _ set hset =>
      collects_of_memberImportsBy hnesting hset
    exact ((collects_bases hbases).merge hall).congr (refers_iff_of_not_struct hkind hfits)
  cases hshape : d.shape with
  | module readme =>
    rw [typeImportsBy, hshape] at h
    cases h
  | enum =>
    rw [typeImportsBy, hshape] at h
    obtain rfl := Except.ok.inj h
    refine Catalog.Collects.none.congr fun fqn => ?_
    rw [← refers_iff_of_not_struct (by simp [hshape, Shape.kind]) hfits fqn]
    refine ⟨False.elim, ?_⟩
    rintro (hbase | ⟨member, hmember, hrefers⟩)
    · simp [Declaration.bases, hshape, Shape.bases] at hbase
    · have hfit := hfits member hmember
      cases member <;> simp_all [Model.Fits, Model.HasOperations, MemberRefers, Shape.kind]
  | struct bases =>
    simp only [typeImportsBy, hshape, structImports, Outcome.bind_eq_ok, Outcome.pure_eq_ok] at h
    obtain ⟨bases, hbases, fields, hfields, types, htypes, rfl⟩ := h
    exact ((collects_bases hbases).merge (collects_of_importsOfAll htypes)).congr
      (refers_iff_of_struct hshape hfits hfields)
  | «class» base interfaces isAbstract bases =>
    simp only [typeImportsBy, hshape, Outcome.bind_eq_ok, Outcome.pure_eq_ok] at h
    obtain ⟨bases, hbases, sets, hsets, rfl⟩ := h
    exact hmembers (by simp [hshape, Shape.kind]) hbases hsets
  | interface bases =>
    simp only [typeImportsBy, hshape, Outcome.bind_eq_ok, Outcome.pure_eq_ok] at h
    obtain ⟨bases, hbases, sets, hsets, rfl⟩ := h
    exact hmembers (by simp [hshape, Shape.kind]) hbases hsets

end Binding

namespace Model

variable {m : Model} {fqn name : String} {d : Declaration}

inductive Within (m : Model) : String → Declaration → Prop
  | self {fqn : String} {d : Declaration} (hd : m.declaration fqn = .ok d) : Within m fqn d
  | inner {fqn nested : String} {outer d : Declaration} (houter : m.declaration fqn = .ok outer)
      (hnested : nested ∈ outer.members.filterMap Member.nested?) (h : Within m nested d) :
      Within m fqn d

theorem Within.step {nested : String} {outer : Declaration} (h : m.Within fqn outer)
    (hnested : nested ∈ outer.members.filterMap Member.nested?)
    (hd : m.declaration nested = .ok d) : m.Within fqn d := by
  induction h with
  | self houter => exact .inner houter hnested (.self hd)
  | inner houter hmiddle _ ih => exact .inner houter hmiddle (ih hnested)

theorem Within.mem_symbols (h : m.Within fqn d) : d ∈ m.symbols.symbols := by
  induction h with
  | self hd =>
    exact List.mem_map_of_mem (OrderedMap.find?_eq_some_iff.mp (lookup_of_declaration hd))
  | inner _ _ _ ih => exact ih

def RefersWithin (m : Model) (outer fqn : String) : Prop :=
  ∃ d, m.Within outer d ∧ m.Refers d fqn

theorem refersWithin_iff (hd : m.declaration name = .ok d) :
    m.RefersWithin name fqn ↔
      m.Refers d fqn ∨ ∃ nested ∈ d.members.filterMap Member.nested?, m.RefersWithin nested fqn := by
  constructor
  · rintro ⟨found, hwithin, hrefers⟩
    cases hwithin with
    | self hfound =>
      obtain rfl := Except.ok.inj (hd.symm.trans hfound)
      exact .inl hrefers
    | inner houter hnested hinner =>
      obtain rfl := Except.ok.inj (hd.symm.trans houter)
      exact .inr ⟨_, hnested, found, hinner, hrefers⟩
  · rintro (hrefers | ⟨nested, hnested, found, hinner, hrefers⟩)
    · exact ⟨d, .self hd, hrefers⟩
    · exact ⟨found, .inner hd hnested hinner, hrefers⟩

theorem Faithful.exists_module_within (hm : m.Faithful)
    (hnames : ∀ entry ∈ m.assembly.types.values, entry.fqn ≠ "") {k : String}
    (hd : m.declaration k = .ok d) : ∃ place ∈ m.modules, m.Within place.fqn d := by
  induction hlength : k.length using Nat.strongRecOn generalizing k d with
  | ind n ih =>
    subst hlength
    have hlookup := lookup_of_declaration hd
    by_cases hkind : d.shape.kind = .module
    · exact ⟨d, mem_modules_iff.mpr ⟨⟨k, hlookup⟩, hkind⟩, .self (hm.fqn_eq hlookup ▸ hd)⟩
    · obtain ⟨bare, hdeclares, hfqn, rfl⟩ := hm.lookup k d hlookup
      obtain ⟨entry, hentry, heq⟩ := hdeclares.of_type hkind
      rw [hfqn] at heq
      subst heq
      obtain ⟨outer, houter⟩ := Option.isSome_iff_exists.mp (hm.enclosed entry hentry)
      have houter := declaration_of_lookup houter
      have hshorter := Dotted.length_parent_lt (hnames entry hentry)
      obtain ⟨place, hplace, hwithin⟩ := ih _ hshorter houter rfl
      have hnested : entry.fqn ∈ outer.members.filterMap Member.nested? := by
        rw [hm.nested_members houter]
        exact List.mem_map_of_mem (List.mem_filter.mpr ⟨hentry, by simp⟩)
      exact ⟨place, hplace, hwithin.step hnested hd⟩

end Model

namespace Binding

variable {m : Model} {scope : Scope} {imports : Imports} {a : Assembly}
  {dependencies : List Assembly}

theorem collects_of_nestedImports (hbuild : Model.build a dependencies = .ok m) {fuel : ℕ}
    {fqn : String} (h : nestedImports m scope fuel fqn = .ok imports) :
    m.Collects scope (m.RefersWithin fqn) imports := by
  induction fuel generalizing fqn imports with
  | zero => cases h
  | succ fuel ih =>
    obtain ⟨d, hd, h⟩ := Outcome.bind_eq_ok.mp h
    have hfits := Model.fits_of_build hbuild (Model.lookup_of_declaration hd)
    exact (collects_of_typeImportsBy (fun nested set hset => ih hset) hfits h).congr
      fun name => (Model.refersWithin_iff hd).symm

theorem collects_of_moduleImports (hbuild : Model.build a dependencies = .ok m)
    {place : Declaration} (hplace : place ∈ m.modules)
    (h : moduleImports m place = .ok imports) :
    m.Collects { module := place.fqn } (m.RefersWithin place.fqn) imports := by
  obtain ⟨⟨k, hk⟩, hkind⟩ := Model.mem_modules_iff.mp hplace
  have hd := (Model.faithful_of_build hbuild).declaration_of_mem_modules hplace
  have hfits := Model.fits_of_build hbuild hk
  simp only [moduleImports, Outcome.bind_eq_ok, Outcome.pure_eq_ok] at h
  obtain ⟨sets, hsets, rfl⟩ := h
  have hmembers := Catalog.Collects.mergeAll hsets fun member _ set hset =>
    collects_of_memberImportsBy (fun nested set hset => collects_of_nestedImports hbuild hset) hset
  have hbases : place.bases = [] := by
    rw [Declaration.bases]
    cases hshape : place.shape <;> simp_all [Shape.kind, Shape.bases]
  refine hmembers.congr fun fqn => ?_
  rw [Model.refersWithin_iff hd,
    ← refers_iff_of_not_struct (by simp [hkind]) hfits, hbases]
  simp

theorem collected_of_within (hbuild : Model.build a dependencies = .ok m) {fqn : String}
    {d : Declaration} (h : m.Within fqn d)
    (hstart : ∀ outer, m.declaration fqn = .ok outer → Collected m scope imports outer) :
    Collected m scope imports d := by
  induction h with
  | self hd => exact hstart _ hd
  | inner houter hnested _ ih =>
    obtain ⟨member, hmember, hsome⟩ := List.mem_filterMap.mp hnested
    obtain ⟨nested, rfl, -⟩ := Member.exists_type_of_nested? hsome
    have hfits := Model.fits_of_build hbuild (Model.lookup_of_declaration houter) _ hmember
    exact ih fun inner hinner =>
      collected_nested hbuild (hstart _ houter) hfits.1 hmember hsome hinner

theorem collected_of_moduleImports (hbuild : Model.build a dependencies = .ok m)
    {place d : Declaration} (hplace : place ∈ m.modules)
    (h : moduleImports m place = .ok imports) (hwithin : m.Within place.fqn d)
    (hkind : d.shape.kind ≠ .module) : Collected m { module := place.fqn } imports d := by
  have hdeclared := (Model.faithful_of_build hbuild).declaration_of_mem_modules hplace
  simp only [moduleImports, Outcome.bind_eq_ok, Outcome.pure_eq_ok] at h
  obtain ⟨sets, hsets, rfl⟩ := h
  cases hwithin with
  | self hd =>
    obtain rfl := Except.ok.inj (hdeclared.symm.trans hd)
    exact absurd (Model.mem_modules_iff.mp hplace).2 hkind
  | inner houter hnested hinner =>
    obtain rfl := Except.ok.inj (hdeclared.symm.trans houter)
    obtain ⟨member, hmember, hsome⟩ := List.mem_filterMap.mp hnested
    obtain ⟨set, hset, himports⟩ := Outcome.exists_mem_mapM hsets hmember
    have hincluded : set.Included (.mergeAll sets) := fun i hi =>
      Imports.contains_mergeAll.mpr ⟨set, hset, hi⟩
    exact collected_of_within hbuild hinner fun outer houter =>
      collected_of_memberImports himports hincluded hsome houter

theorem fields_of_collected {d : Declaration} (hd : Collected m scope imports d)
    {bases : List String} (hshape : d.shape = .struct bases) :
    ∃ fields, m.fields d.fqn = .ok fields := by
  obtain ⟨-, fuel, found, hfound, -⟩ := hd
  simp only [typeImportsBy, hshape, structImports, Outcome.bind_eq_ok] at hfound
  obtain ⟨_, -, fields, hfields, -⟩ := hfound
  exact ⟨fields, hfields⟩

theorem struct_of_collected {d : Declaration} (hd : Collected m scope imports d)
    (hoperations : Model.HasOperations d) {method : MethodMember}
    (hmethod : .method method ∈ d.members) {lifted name : String}
    (hlifted : method.lifted = some lifted) (hinherits : m.Inherits lifted name) :
    ∃ struct, m.struct name = .ok struct := by
  obtain ⟨-, fuel, found, hfound, -⟩ := hd
  have hclass : (∃ base interfaces isAbstract bases,
      d.shape = .class base interfaces isAbstract bases) ∨ ∃ bases, d.shape = .interface bases := by
    cases hshape : d.shape <;> simp_all [Model.HasOperations, Shape.kind]
  obtain ⟨set, hset, -⟩ := (typeImportsBy_eq_ok hclass hfound fun i hi => hi).2 _ hmethod
  simp only [memberImportsBy, methodImports, hlifted, liftedImports, Outcome.bind_eq_ok] at hset
  obtain ⟨_, -, _, ⟨sets, hsets, -⟩, -⟩ := hset
  obtain ⟨struct, hstruct, -⟩ :=
    Catalog.entered_of_inherits (not_fail_of_visitImports hsets) hinherits
  exact ⟨struct, hstruct⟩

theorem moduleImports_of_collectAliases {table : AliasTable} (h : collectAliases m = .ok table)
    {place : Declaration} (hplace : place ∈ m.modules) :
    ∃ imports, moduleImports m place = .ok imports := by
  obtain ⟨_, _, hstep⟩ := Outcome.exists_step_of_foldlM h hplace
  simp only [Outcome.bind_eq_ok] at hstep
  obtain ⟨_, -, imports, himports, -⟩ := hstep
  exact ⟨imports, himports⟩

/-- Where the aliases of a model could be collected, every type that a declaration refers to is
known and has a Python name. -/
theorem no_dangling_reference (hkeyed : a.Keyed) (hbuild : Model.build a dependencies = .ok m)
    {table : AliasTable} (hcollect : collectAliases m = .ok table) {k : String} {d : Declaration}
    (hd : m.symbols.lookup k = some d) :
    (∀ bases, d.shape = .struct bases → ∃ fields, m.fields d.fqn = .ok fields) ∧
      (∀ method lifted name, .method method ∈ d.members → method.lifted = some lifted →
        m.Inherits lifted name → ∃ struct, m.struct name = .ok struct) ∧
      ∀ fqn, m.Refers d fqn →
        (∃ entry, m.entry fqn = .ok entry) ∧ ∃ name, m.pythonName fqn = .ok name := by
  have hnames : ∀ entry ∈ m.assembly.types.values, entry.fqn ≠ "" := by
    intro entry hentry hempty
    rw [Model.types_of_build hbuild] at hentry
    obtain ⟨pair, hpair, rfl⟩ := List.mem_map.mp hentry
    obtain ⟨hkey, hdot⟩ := hkeyed pair hpair
    simp [← hkey, hempty] at hdot
  have hfits := Model.fits_of_build hbuild hd
  obtain ⟨place, hplace, hwithin⟩ := (Model.faithful_of_build hbuild).exists_module_within hnames
    (Model.declaration_of_lookup hd)
  obtain ⟨imports, himports⟩ := moduleImports_of_collectAliases hcollect hplace
  have hcollected := collected_of_moduleImports hbuild hplace himports hwithin
  refine ⟨fun bases hshape => ?_, fun method lifted name hmethod hlifted hinherits => ?_,
    fun fqn hrefers => ?_⟩
  · exact fields_of_collected (hcollected (by simp [hshape, Shape.kind])) hshape
  · have hoperations := (hfits _ hmethod).1
    have hkind : d.shape.kind ≠ .module := by
      rcases hoperations with hkind | hkind <;> simp [hkind]
    exact struct_of_collected (hcollected hkind) hoperations hmethod hlifted hinherits
  · obtain ⟨r, hr⟩ :=
      (collects_of_moduleImports hbuild hplace himports).resolves fqn ⟨d, hwithin, hrefers⟩
    simp only [Catalog.resolve, Outcome.bind_eq_ok] at hr
    obtain ⟨name, hname, entry, hentry, -⟩ := hr
    exact ⟨⟨entry, hentry⟩, name, hname⟩

def liftedNames (c : Catalog) (d : Declaration) : List String :=
  d.members.flatMap fun
    | .method method => method.lifted.toList.flatMap fun lifted =>
      (c.visits lifted).flatMap fun
        | .enter _ struct => struct.properties.flatMap fun p => (TypeExpr.ofRef p.type).mentions
        | _ => []
    | _ => []

theorem refers_of_mem_liftedNames {c : Catalog} {d : Declaration} {fqn : String}
    (h : fqn ∈ liftedNames c d) : c.Refers d fqn := by
  obtain ⟨member, hmember, hin⟩ := List.mem_flatMap.mp h
  split at hin
  · obtain ⟨lifted, hlifted, hvisits⟩ := List.mem_flatMap.mp hin
    obtain ⟨visit, hvisit, hproperties⟩ := List.mem_flatMap.mp hvisits
    split at hproperties
    · obtain ⟨p, hp, hfqn⟩ := List.mem_flatMap.mp hproperties
      obtain ⟨hinherits, hstruct⟩ := Catalog.inherits_of_entered hvisit
      exact .method hmember (.lifted (by simpa using hlifted) hinherits hstruct hp hfqn)
    · exact absurd hproperties List.not_mem_nil
  · exact absurd hin List.not_mem_nil

def collected (a : Assembly) (fqn : String) : Outcome (Model × AliasTable × Declaration) := do
  let m ← Model.build a []
  return (m, ← collectAliases m, ← m.declaration fqn)

theorem liftedNames_liftedUser :
    ((collected liftedUser "Acme.User").toOption.map fun (m, _, d) =>
      liftedNames m.toCatalog d) = some ["Acme.core.Part"] := by
  decide +kernel

theorem no_dangling_reference_inherited :
    liftedUser.Keyed ∧ ∃ m table d entry name, Model.build liftedUser [] = .ok m ∧
      collectAliases m = .ok table ∧ m.symbols.lookup "Acme.User" = some d ∧
      m.Refers d "Acme.core.Part" ∧ m.entry "Acme.core.Part" = .ok entry ∧
      m.pythonName "Acme.core.Part" = .ok name := by
  have hkeyed : liftedUser.Keyed := by decide +kernel
  obtain ⟨⟨m, table, d⟩, hcollected, hnames⟩ :=
    Outcome.exists_eq_ok_of_map liftedNames_liftedUser
  simp only [collected, Outcome.bind_eq_ok, Outcome.pure_eq_ok, Prod.mk.injEq] at hcollected
  obtain ⟨_, hbuild, _, hcollect, _, hd, rfl, rfl, rfl⟩ := hcollected
  have hd := Model.lookup_of_declaration hd
  have hrefers : Catalog.Refers _ _ "Acme.core.Part" :=
    refers_of_mem_liftedNames (hnames ▸ List.mem_singleton_self _)
  obtain ⟨⟨entry, hentry⟩, name, hname⟩ :=
    (no_dangling_reference hkeyed hbuild hcollect hd).2.2 _ hrefers
  exact ⟨hkeyed, _, _, _, entry, name, hbuild, hcollect, hd, hrefers, hentry, hname⟩

end Binding

end Bindery
