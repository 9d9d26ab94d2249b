import Bindery.Proofs.Imports
import Bindery.Proofs.Model

/-!
# Contents of declarations

What the declarations of a built model have in common, whatever types they come from: the bases
of a proxy are bases of its class, a lifted struct is the type of an argument, and an enumeration
holds values only.
-/

namespace Bindery

open Api

theorem Member.exists_type_of_nested? {member : Member} {fqn : String}
    (h : member.nested? = some fqn) : ∃ nested, member = .type nested ∧ nested.fqn = fqn := by
  cases member with
  | type nested => exact ⟨nested, rfl, Option.some.inj h⟩
  | method method => cases h
  | property property => cases h
  | field field => cases h
  | value value => cases h

namespace Model

def LiftsArgument (method : MethodMember) : Prop :=
  ∀ lifted, method.lifted = some lifted → ∃ a ∈ method.arguments, lifted ∈ a.type.mentions

structure Regular (d : Declaration) : Prop where
  abstractBases : ∀ base interfaces isAbstract bases,
    d.shape = .class base interfaces isAbstract bases → bases ⊆ base.toList
  lifted : ∀ method, .method method ∈ d.members → LiftsArgument method
  enum : d.shape = .enum → ∀ member ∈ d.members, ∃ value, member = .value value

theorem mem_mentions_of_fqn? {ref : TypeRef} {fqn : String} (h : ref.fqn? = some fqn) :
    fqn ∈ (TypeExpr.ofRef ref).mentions := by
  cases ref with
  | named name =>
    obtain rfl := Option.some.inj h
    exact List.mem_singleton_self _
  | primitive p => cases h
  | collection kind element => cases h
  | union options => cases h

theorem mentions_of_liftedStruct {c : Catalog} {parameters : List Parameter} {lifted : String}
    (h : c.liftedStruct parameters = .ok (some lifted)) :
    ∃ a ∈ parameters.map Argument.ofParameter, lifted ∈ a.type.mentions := by
  rw [Catalog.liftedStruct] at h
  cases hlast : parameters.getLast? with
  | none =>
    rw [hlast] at h
    cases h
  | some last =>
    rw [hlast] at h
    dsimp only at h
    split at h
    · cases h
    · split at h
      · cases h
      · rename_i fqn hfqn
        obtain ⟨entry, -, h⟩ := Outcome.bind_eq_ok.mp h
        have hsome := Outcome.pure_eq_ok.mp h
        split at hsome
        · obtain rfl := Option.some.inj hsome
          refine ⟨.ofParameter last, List.mem_map_of_mem (List.mem_of_getLast? hlast), ?_⟩
          rw [Argument.ofParameter, TypeExpr.mentions_ofValue]
          exact mem_mentions_of_fqn? hfqn
        · cases hsome

theorem liftsArgument_of_liftedStruct {c : Catalog} {parameters : List Parameter}
    {member : MethodMember} (h : c.liftedStruct parameters = .ok member.lifted)
    (harguments : member.arguments = parameters.map Argument.ofParameter) :
    LiftsArgument member := by
  intro lifted heq
  rw [heq] at h
  rw [harguments]
  exact mentions_of_liftedStruct h

theorem liftsArgument_methodMember {c : Catalog} {parent : String} {kind : MethodKind}
    {isProtected : Bool} {method : Method} {member : MethodMember}
    (h : methodMember c parent kind isProtected method = .ok member) : LiftsArgument member := by
  simp only [methodMember, Outcome.bind_eq_ok, Outcome.pure_eq_ok] at h
  obtain ⟨lifted?, hlifted, rfl⟩ := h
  exact liftsArgument_of_liftedStruct hlifted rfl

theorem liftsArgument_initializerMember {c : Catalog} {parent : String} {initializer : Initializer}
    {member : MethodMember} (h : initializerMember c parent initializer = .ok member) :
    LiftsArgument member := by
  simp only [initializerMember, Outcome.bind_eq_ok, Outcome.pure_eq_ok] at h
  obtain ⟨lifted?, hlifted, rfl⟩ := h
  exact liftsArgument_of_liftedStruct hlifted rfl

theorem abstractBases_subset {c : Catalog} {type : ClassType} {bases : List String}
    (h : abstractBases c type = .ok bases) : bases ⊆ type.base.toList := by
  rw [abstractBases] at h
  split at h
  · obtain rfl := Except.ok.inj h
    exact List.nil_subset _
  · rename_i base hbase
    obtain ⟨entry, -, h⟩ := Outcome.bind_eq_ok.mp h
    split at h
    · obtain rfl := Outcome.pure_eq_ok.mp h
      split <;> simp [hbase]
    · cases h

theorem classContent_eq_ok {c : Catalog} {type : ClassType} {shape : Shape} {members : List Member}
    (h : classContent c type = .ok (shape, members)) :
    (∃ bases, shape = .class type.base type.interfaces type.isAbstract bases ∧
      bases ⊆ type.base.toList) ∧ ∀ method, .method method ∈ members → LiftsArgument method := by
  simp only [classContent, Outcome.bind_eq_ok] at h
  obtain ⟨initializers, hinitializers, methods, hmethods, h⟩ := h
  have hlifts : ∀ method ∈ initializers ++ methods, LiftsArgument method := by
    intro method hmethod
    rcases List.mem_append.mp hmethod with hin | hin
    · obtain ⟨initializer, -, hmember⟩ := Outcome.exists_mem_of_mapM hinitializers hin
      exact liftsArgument_initializerMember hmember
    · obtain ⟨source, -, hmember⟩ := Outcome.exists_mem_of_mapM hmethods hin
      rw [classMethod] at hmember
      split at hmember
      · exact liftsArgument_methodMember hmember
      · split at hmember <;> exact liftsArgument_methodMember hmember
  have hmember : ∀ method, .method method ∈ (initializers ++ methods).map Member.method ++
      (type.properties.map (classProperty type.fqn)).map Member.property →
        LiftsArgument method := by
    intro method hmethod
    rcases List.mem_append.mp hmethod with hin | hin
    · obtain ⟨_, hlisted, heq⟩ := List.mem_map.mp hin
      obtain rfl := Member.method.inj heq
      exact hlifts _ hlisted
    · obtain ⟨_, -, heq⟩ := List.mem_map.mp hin
      cases heq
  -- The members do not depend on whether the class is abstract.
  split at h
  all_goals
    simp only [Outcome.bind_eq_ok, Outcome.pure_eq_ok, Prod.mk.injEq] at h
    obtain ⟨bases, hbases, rfl, rfl⟩ := h
  · exact ⟨⟨bases, rfl, abstractBases_subset hbases⟩, hmember⟩
  · obtain rfl := Except.ok.inj hbases
    exact ⟨⟨[], rfl, List.nil_subset _⟩, hmember⟩

theorem interfaceContent_eq_ok {c : Catalog} {type : InterfaceType} {shape : Shape}
    {members : List Member} (h : interfaceContent c type = .ok (shape, members)) :
    shape = .interface type.interfaces ∧
      ∀ method, .method method ∈ members → LiftsArgument method := by
  simp only [interfaceContent, Outcome.bind_eq_ok, Outcome.pure_eq_ok, Prod.mk.injEq] at h
  obtain ⟨methods, hmethods, rfl, rfl⟩ := h
  refine ⟨rfl, fun method hmethod => ?_⟩
  rcases List.mem_append.mp hmethod with hin | hin
  · obtain ⟨_, hlisted, heq⟩ := List.mem_map.mp hin
    obtain rfl := Member.method.inj heq
    obtain ⟨source, -, hmember⟩ := Outcome.exists_mem_of_mapM hmethods hlisted
    simp only [interfaceMethod, Outcome.bind_eq_ok, Outcome.pure_eq_ok] at hmember
    obtain ⟨plain, hplain, rfl⟩ := hmember
    have hlifts := liftsArgument_methodMember hplain
    exact fun lifted => hlifts lifted
  · obtain ⟨_, -, heq⟩ := List.mem_map.mp hin
    cases heq

theorem regular_of_typeDeclaration {c : Catalog} {entry : TypeEntry} {d : Declaration}
    (h : typeDeclaration c entry = .ok d) : Regular d := by
  simp only [typeDeclaration, Outcome.bind_eq_ok, Outcome.pure_eq_ok] at h
  obtain ⟨⟨shape, members⟩, hcontent, rfl⟩ := h
  cases entry with
  | «class» type =>
    obtain ⟨⟨bases, rfl, hsub⟩, hlifts⟩ := classContent_eq_ok hcontent
    refine ⟨fun base interfaces isAbstract bases' hshape => ?_, hlifts, fun henum => ?_⟩
    · obtain ⟨rfl, -, -, rfl⟩ := Shape.class.inj hshape
      exact hsub
    · cases henum
  | interface type =>
    rw [content] at hcontent
    split at hcontent
    · obtain ⟨rfl, rfl⟩ := Prod.mk.inj (Except.ok.inj hcontent)
      refine ⟨fun _ _ _ _ hclass => ?_, fun method hmethod => ?_, fun henum => ?_⟩
      · cases hclass
      · obtain ⟨_, -, heq⟩ := List.mem_map.mp hmethod
        cases heq
      · cases henum
    · obtain ⟨rfl, hlifts⟩ := interfaceContent_eq_ok hcontent
      refine ⟨fun _ _ _ _ hclass => ?_, hlifts, fun henum => ?_⟩
      · cases hclass
      · cases henum
  | enum type =>
    obtain ⟨rfl, rfl⟩ := Prod.mk.inj (Except.ok.inj hcontent)
    refine ⟨fun _ _ _ _ hclass => ?_, fun method hmethod => ?_, fun _ member hmember => ?_⟩
    · cases hclass
    · obtain ⟨_, -, heq⟩ := List.mem_map.mp hmethod
      cases heq
    · obtain ⟨value, -, rfl⟩ := List.mem_map.mp hmember
      exact ⟨_, rfl⟩

theorem Declares.module_or_type {c : Catalog} {d : Declaration} (h : Declares c d) :
    (d.shape.kind = .module ∧ d.members = []) ∨ ∃ entry, typeDeclaration c entry = .ok d := by
  cases h with
  | root h =>
    simp only [rootDeclaration, Outcome.bind_eq_ok, Outcome.pure_eq_ok] at h
    obtain ⟨_, -, rfl⟩ := h
    exact .inl ⟨rfl, rfl⟩
  | submodule _ h =>
    simp only [submoduleDeclaration, Outcome.bind_eq_ok, Outcome.pure_eq_ok] at h
    obtain ⟨_, -, rfl⟩ := h
    exact .inl ⟨rfl, rfl⟩
  | type _ h => exact .inr ⟨_, h⟩

theorem regular_of_declares {c : Catalog} {d : Declaration} (h : Declares c d) : Regular d := by
  rcases h.module_or_type with ⟨hkind, hmembers⟩ | ⟨entry, hentry⟩
  · refine ⟨fun _ _ _ _ hclass => ?_, fun method hmethod => ?_, fun henum => ?_⟩
    · rw [hclass] at hkind
      cases hkind
    · rw [hmembers] at hmethod
      cases hmethod
    · rw [henum] at hkind
      cases hkind
  · exact regular_of_typeDeclaration hentry

theorem kind_of_attached {types : List TypeEntry}
    {declarations declarations' : OrderedMap Declaration}
    (h : types.foldlM attach declarations = .ok declarations') {entry : TypeEntry}
    (hentry : entry ∈ types) {outer : Declaration}
    (houter : declarations.find? (Dotted.parent entry.fqn) = some outer) :
    outer.shape.kind ≠ .struct ∧ outer.shape.kind ≠ .enum := by
  induction types generalizing declarations outer with
  | nil => exact absurd hentry List.not_mem_nil
  | cons first types ih =>
    rw [List.foldlM_cons] at h
    obtain ⟨middle, hattach, hrest⟩ := Outcome.bind_eq_ok.mp h
    rcases List.mem_cons.mp hentry with rfl | hin
    · rw [attach, houter] at hattach
      dsimp only at hattach
      constructor <;> intro hkind <;> rw [hkind] at hattach <;> cases hattach
    · -- Attaching the first type changes the members of a declaration at most.
      obtain ⟨found, hfound, hmiddle⟩ := attach_eq_ok hattach
      by_cases hsame : Dotted.parent entry.fqn = Dotted.parent first.fqn
      · have hshape := ih hrest hin ((hmiddle _).trans (if_pos hsame))
        rw [hsame, hfound] at houter
        obtain rfl := Option.some.inj houter
        exact hshape
      · exact ih hrest hin ((hmiddle _).trans ((if_neg hsame).trans houter))

theorem kind_of_typesIn {a : Assembly} {dependencies : List Assembly} {m : Model}
    (h : build a dependencies = .ok m) {k : String} {d : Declaration}
    (hd : m.symbols.lookup k = some d) {entry : TypeEntry}
    (hentry : entry ∈ typesIn m.toCatalog k) :
    d.shape.kind ≠ .struct ∧ d.shape.kind ≠ .enum := by
  simp only [build_eq, Outcome.bind_eq_ok, Outcome.pure_eq_ok] at h
  obtain ⟨ds, -, declarations, hattach, rfl⟩ := h
  have hfound : declarations.find? k = some d := hd
  rw [(foldlM_attach_eq_ok hattach).2, Option.map_eq_some_iff] at hfound
  obtain ⟨bare, hbare, rfl⟩ := hfound
  obtain ⟨hin, hparent⟩ := List.mem_filter.mp hentry
  obtain rfl : Dotted.parent entry.fqn = k := of_decide_eq_true hparent
  have hkind := kind_of_attached hattach hin hbare
  exact hkind

theorem typesIn_of_enum {a : Assembly} {dependencies : List Assembly} {m : Model}
    (h : build a dependencies = .ok m) {k : String} {d : Declaration}
    (hd : m.symbols.lookup k = some d) (henum : d.shape = .enum) : typesIn m.toCatalog k = [] := by
  by_contra hne
  obtain ⟨entry, hentry⟩ := List.exists_mem_of_ne_nil _ hne
  exact (kind_of_typesIn h hd hentry).2 (by rw [henum]; rfl)

theorem regular_of_build {a : Assembly} {dependencies : List Assembly} {m : Model}
    (h : build a dependencies = .ok m) {k : String} {d : Declaration}
    (hd : m.symbols.lookup k = some d) : Regular d := by
  have htypes := typesIn_of_enum h hd
  obtain ⟨bare, hdeclares, -, rfl⟩ := (faithful_of_build h).lookup k d hd
  have hbare := regular_of_declares hdeclares
  refine ⟨hbare.abstractBases, fun method hmethod => ?_, fun henum member hmember => ?_⟩
  · rcases List.mem_append.mp hmethod with hin | hin
    · exact hbare.lifted method hin
    · obtain ⟨_, -, heq⟩ := List.mem_map.mp hin
      cases heq
  · rw [htypes henum, Declaration.holding_nil] at hmember
    exact hbare.enum henum member hmember

def HasOperations (d : Declaration) : Prop :=
  d.shape.kind = .classType ∨ d.shape.kind = .interface

/-- Methods and properties stand in classes and interfaces and know whose they are, fields stand
in structs and values in enumerations; the latter two hold no types. -/
def Fits (d : Declaration) : Member → Prop
  | .type _ => d.shape.kind ≠ .struct ∧ d.shape.kind ≠ .enum
  | .method method => HasOperations d ∧ method.parent = d.fqn
  | .property property => HasOperations d ∧ property.parent = d.fqn
  | .field _ => d.shape.kind = .struct
  | .value _ => d.shape.kind = .enum

theorem parent_of_methodMember {c : Catalog} {parent : String} {kind : MethodKind}
    {isProtected : Bool} {method : Method} {member : MethodMember}
    (h : methodMember c parent kind isProtected method = .ok member) : member.parent = parent := by
  simp only [methodMember, Outcome.bind_eq_ok, Outcome.pure_eq_ok] at h
  obtain ⟨_, -, rfl⟩ := h
  rfl

theorem parent_of_classMethod {c : Catalog} {parent : String} {method : Method}
    {member : MethodMember} (h : classMethod c parent method = .ok member) :
    member.parent = parent := by
  rw [classMethod] at h
  split at h
  · exact parent_of_methodMember h
  · split at h <;> exact parent_of_methodMember h

theorem parent_of_interfaceMethod {c : Catalog} {parent : String} {method : Method}
    {member : MethodMember} (h : interfaceMethod c parent method = .ok member) :
    member.parent = parent := by
  simp only [interfaceMethod, Outcome.bind_eq_ok, Outcome.pure_eq_ok] at h
  obtain ⟨plain, hplain, rfl⟩ := h
  have hparent := parent_of_methodMember hplain
  exact hparent

theorem parent_of_initializerMember {c : Catalog} {parent : String} {initializer : Initializer}
    {member : MethodMember} (h : initializerMember c parent initializer = .ok member) :
    member.parent = parent := by
  simp only [initializerMember, Outcome.bind_eq_ok, Outcome.pure_eq_ok] at h
  obtain ⟨_, -, rfl⟩ := h
  rfl

theorem parent_classProperty (parent : String) (property : Property) :
    (classProperty parent property).parent = parent := by
  rw [classProperty]
  split <;> rfl

theorem fits_operations {d : Declaration} (hd : HasOperations d) {methods : List MethodMember}
    {properties : List PropertyMember} (hmethods : ∀ method ∈ methods, method.parent = d.fqn)
    (hproperties : ∀ property ∈ properties, property.parent = d.fqn) :
    ∀ member ∈ methods.map Member.method ++ properties.map Member.property, Fits d member := by
  intro member hmember
  rcases List.mem_append.mp hmember with hin | hin
  · obtain ⟨method, hmethod, rfl⟩ := List.mem_map.mp hin
    exact ⟨hd, hmethods method hmethod⟩
  · obtain ⟨property, hproperty, rfl⟩ := List.mem_map.mp hin
    exact ⟨hd, hproperties property hproperty⟩

theorem fits_of_typeDeclaration {c : Catalog} {entry : TypeEntry} {d : Declaration}
    (h : typeDeclaration c entry = .ok d) : ∀ member ∈ d.members, Fits d member := by
  simp only [typeDeclaration, Outcome.bind_eq_ok, Outcome.pure_eq_ok] at h
  obtain ⟨⟨shape, members⟩, hcontent, rfl⟩ := h
  cases entry with
  | «class» type =>
    simp only [content, classContent, Outcome.bind_eq_ok] at hcontent
    obtain ⟨initializers, hinitializers, methods, hmethods, hcontent⟩ := hcontent
    have hparents : ∀ method ∈ initializers ++ methods, method.parent = type.fqn := by
      intro method hmethod
      rcases List.mem_append.mp hmethod with hin | hin
      · obtain ⟨_, -, hmember⟩ := Outcome.exists_mem_of_mapM hinitializers hin
        exact parent_of_initializerMember hmember
      · obtain ⟨_, -, hmember⟩ := Outcome.exists_mem_of_mapM hmethods hin
        exact parent_of_classMethod hmember
    have hproperties : ∀ property ∈ type.properties.map (classProperty type.fqn),
        property.parent = type.fqn := by
      intro property hproperty
      obtain ⟨source, -, rfl⟩ := List.mem_map.mp hproperty
      exact parent_classProperty type.fqn source
    split at hcontent
    all_goals
      simp only [Outcome.bind_eq_ok, Outcome.pure_eq_ok, Prod.mk.injEq] at hcontent
      obtain ⟨bases, -, rfl, rfl⟩ := hcontent
      exact fits_operations (.inl rfl) hparents hproperties
  | interface type =>
    rw [content] at hcontent
    split at hcontent
    · obtain ⟨rfl, rfl⟩ := Prod.mk.inj (Except.ok.inj hcontent)
      intro member hmember
      obtain ⟨_, -, rfl⟩ := List.mem_map.mp hmember
      exact rfl
    · simp only [interfaceContent, Outcome.bind_eq_ok, Outcome.pure_eq_ok,
        Prod.mk.injEq] at hcontent
      obtain ⟨methods, hmethods, rfl, rfl⟩ := hcontent
      refine fits_operations (.inr rfl) (fun method hmethod => ?_) fun property hproperty => ?_
      · obtain ⟨_, -, hmember⟩ := Outcome.exists_mem_of_mapM hmethods hmethod
        exact parent_of_interfaceMethod hmember
      · obtain ⟨_, -, rfl⟩ := List.mem_map.mp hproperty
        exact rfl
  | enum type =>
    obtain ⟨rfl, rfl⟩ := Prod.mk.inj (Except.ok.inj hcontent)
    intro member hmember
    obtain ⟨_, -, rfl⟩ := List.mem_map.mp hmember
    exact rfl

theorem fits_of_build {a : Assembly} {dependencies : List Assembly} {m : Model}
    (h : build a dependencies = .ok m) {k : String} {d : Declaration}
    (hd : m.symbols.lookup k = some d) : ∀ member ∈ d.members, Fits d member := by
  have htypes : ∀ entry ∈ typesIn m.toCatalog k, d.shape.kind ≠ .struct ∧ d.shape.kind ≠ .enum :=
    fun entry hentry => kind_of_typesIn h hd hentry
  obtain ⟨bare, hdeclares, -, rfl⟩ := (faithful_of_build h).lookup k d hd
  have hbare : ∀ member ∈ bare.members, Fits bare member := by
    rcases hdeclares.module_or_type with ⟨-, hnone⟩ | ⟨entry, hentry⟩
    · simp [hnone]
    · exact fits_of_typeDeclaration hentry
  intro member hmember
  rcases List.mem_append.mp hmember with hin | hin
  · have hfits := hbare member hin
    cases member <;> exact hfits
  · obtain ⟨entry, hentry, rfl⟩ := List.mem_map.mp hin
    exact htypes entry hentry

theorem nested_eq_nil_of_fits {d : Declaration} (hfits : ∀ member ∈ d.members, Fits d member)
    (hkind : d.shape.kind = .struct ∨ d.shape.kind = .enum) :
    d.members.filterMap Member.nested? = [] := by
  rw [List.filterMap_eq_nil_iff]
  intro member hmember
  cases hnested : member.nested? with
  | none => rfl
  | some fqn =>
    obtain ⟨nested, rfl, -⟩ := Member.exists_type_of_nested? hnested
    obtain ⟨hstruct, henum⟩ := hfits _ hmember
    rcases hkind with hkind | hkind
    · exact absurd hkind hstruct
    · exact absurd hkind henum

theorem fqn_eq_of_fits {d e : Declaration} {member : Member} (hd : Fits d member)
    (he : Fits e member) (hstruct : d.shape.kind ≠ .struct) (henum : d.shape.kind ≠ .enum)
    (hquiet : member.nested? = none) : d.fqn = e.fqn := by
  cases member with
  | type nested => cases hquiet
  | method method => exact hd.2.symm.trans he.2
  | property property => exact hd.2.symm.trans he.2
  | field field => exact absurd hd hstruct
  | value value => exact absurd hd henum

end Model

end Bindery
