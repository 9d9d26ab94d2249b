import Bindery.Proofs.Content
import Bindery.Proofs.Inheritance
import Bindery.Proofs.Mentions

/-!
# Completeness of imports

The imports of a module are collected before anything is written, on a way of their own through
its declarations. They hold whatever the references in the module need: every type that the text
mentions was met on that way, and what a reference to it needs does not depend on where in the
module it stands.
-/

namespace Bindery.Binding

open Api

variable {c : Catalog} {scope : Scope} {found imports : Imports}

theorem covered_of_importsOfAll {types : List TypeExpr} (h : importsOfAll c scope types = .ok found)
    (hsub : found.Included imports) :
    ∀ type ∈ types, TypeNames (c.Covers scope.module imports) type := by
  simp only [importsOfAll, Outcome.bind_eq_ok, Outcome.pure_eq_ok] at h
  obtain ⟨sets, hsets, rfl⟩ := h
  intro type htype
  obtain ⟨set, hset, himports⟩ := Outcome.exists_mem_mapM hsets htype
  exact Catalog.covers_of_importsOf himports (hsub.of_mergeAll hset)

theorem covered_bases {fqns : List String} (h : importsOfAll c scope (fqns.map .named) = .ok found)
    (hsub : found.Included imports) : ∀ fqn ∈ fqns, c.Covers scope.module imports fqn := by
  intro fqn hfqn
  exact covered_of_importsOfAll h hsub (.named fqn) (List.mem_map_of_mem hfqn) fqn
    (List.mem_singleton_self fqn)

theorem not_fail_of_visitImports {lifted : String} {sets : List Imports}
    (h : (c.visits lifted).mapM (visitImports c scope) = .ok sets) (fault : Fault) :
    .fail fault ∉ c.visits lifted := by
  intro hfault
  obtain ⟨set, -, hset⟩ := Outcome.exists_mem_mapM h hfault
  cases hset

/-- The fields that stand for a lifted struct are covered, although they are collected on another
way through its bases than the one on which their imports were. -/
theorem covered_liftedFields {lifted : String} {sets : List Imports}
    (h : (c.visits lifted).mapM (visitImports c scope) = .ok sets)
    (hsub : (Imports.mergeAll sets).Included imports) {fields : List Field}
    (hfields : c.liftedFields lifted = .ok fields) :
    ∀ field ∈ fields, TypeNames (c.Covers scope.module imports) field.type := by
  intro field hfield
  obtain ⟨fqn, struct, hinherits, hstruct, p, hp, rfl⟩ := Catalog.mem_liftedFields hfields hfield
  obtain ⟨struct', hstruct', henter⟩ :=
    Catalog.entered_of_inherits (not_fail_of_visitImports h) hinherits
  obtain rfl := Except.ok.inj (hstruct.symm.trans hstruct')
  obtain ⟨set, hset, himports⟩ := Outcome.exists_mem_mapM h henter
  have hcovered := covered_of_importsOfAll himports (hsub.of_mergeAll hset) (.ofRef p.type)
    (List.mem_map_of_mem hp)
  rw [TypeNames, Field.ofProperty, TypeExpr.mentions_ofValue]
  exact hcovered

theorem methodNames_of_methodImports {method : MethodMember} (hlifts : Model.LiftsArgument method)
    (h : methodImports c scope method = .ok found) (hsub : found.Included imports) :
    MethodNames c (c.Covers scope.module imports) method := by
  simp only [methodImports, Outcome.bind_eq_ok, Outcome.pure_eq_ok] at h
  obtain ⟨signature, hsignature, lifted, hlifted, rfl⟩ := h
  have hcovered := covered_of_importsOfAll hsignature hsub.left_of_merge
  have harguments : ∀ a ∈ method.arguments,
      TypeNames (c.Covers scope.module imports) a.type := by
    intro a ha
    exact hcovered a.type (List.mem_cons_of_mem _ (List.mem_map_of_mem ha))
  refine ⟨hcovered method.returns List.mem_cons_self, harguments, ?_, ?_⟩
  · intro struct hstruct
    obtain ⟨a, ha, hmention⟩ := hlifts struct hstruct
    exact harguments a ha struct hmention
  · intro struct fields hstruct hfields
    rw [hstruct] at hlifted
    simp only [liftedImports, Outcome.bind_eq_ok, Outcome.pure_eq_ok] at hlifted
    obtain ⟨sets, hsets, rfl⟩ := hlifted
    exact covered_liftedFields hsets hsub.right_of_merge hfields

theorem memberNames_of_memberImports {nesting : String → Outcome Imports} {member : Member}
    (hlifts : ∀ method, member = .method method → Model.LiftsArgument method)
    (h : memberImportsBy nesting c scope member = .ok found) (hsub : found.Included imports) :
    MemberNames c (c.Covers scope.module imports) member := by
  cases member with
  | type nested => exact trivial
  | method method => exact methodNames_of_methodImports (hlifts method rfl) h hsub
  | property property => exact Catalog.covers_of_importsOf h hsub
  | field field => exact Catalog.covers_of_importsOf h hsub
  | value value => exact trivial

theorem structNames_of_structImports {d : Declaration} (h : structImports c scope d = .ok found)
    (hsub : found.Included imports) :
    (∀ fqn ∈ d.bases, c.Covers scope.module imports fqn) ∧
      ∀ fields, c.fields d.fqn = .ok fields →
        ∀ field ∈ fields, TypeNames (c.Covers scope.module imports) field.type := by
  simp only [structImports, Outcome.bind_eq_ok, Outcome.pure_eq_ok] at h
  obtain ⟨bases, hbases, fields, hfields, types, htypes, rfl⟩ := h
  refine ⟨covered_bases hbases hsub.left_of_merge, fun fields' hfields' field hfield => ?_⟩
  obtain rfl := Except.ok.inj (hfields.symm.trans hfields')
  exact covered_of_importsOfAll htypes hsub.right_of_merge field.type (List.mem_map_of_mem hfield)

theorem typeImportsBy_eq_ok {nesting : String → Outcome Imports} {d : Declaration}
    (hclass : (∃ base interfaces isAbstract bases,
      d.shape = .class base interfaces isAbstract bases) ∨ ∃ bases, d.shape = .interface bases)
    (h : typeImportsBy nesting c scope d = .ok found) (hsub : found.Included imports) :
    (∀ fqn ∈ d.bases, c.Covers scope.module imports fqn) ∧
      ∀ member ∈ d.members, ∃ set, memberImportsBy nesting c scope member = .ok set ∧
        set.Included imports := by
  have hparts : ∃ bases sets, importsOfAll c scope (d.bases.map .named) = .ok bases ∧
      d.members.mapM (memberImportsBy nesting c scope) = .ok sets ∧
      bases.merge (.mergeAll sets) = found := by
    rcases hclass with ⟨base, interfaces, isAbstract, bases, hshape⟩ | ⟨bases, hshape⟩
    all_goals
      simp only [typeImportsBy, hshape, Outcome.bind_eq_ok, Outcome.pure_eq_ok] at h
      obtain ⟨first, hfirst, sets, hsets, heq⟩ := h
      exact ⟨first, sets, hfirst, hsets, heq⟩
  obtain ⟨bases, sets, hbases, hsets, rfl⟩ := hparts
  refine ⟨covered_bases hbases hsub.left_of_merge, fun member hmember => ?_⟩
  obtain ⟨set, hset, himports⟩ := Outcome.exists_mem_mapM hsets hmember
  exact ⟨set, himports, hsub.right_of_merge.of_mergeAll hset⟩

variable {m : Model}

def Collected (m : Model) (scope : Scope) (imports : Imports) (d : Declaration) : Prop :=
  (∃ k, m.symbols.lookup k = some d) ∧ ∃ fuel found,
    typeImportsBy (nestedImports m scope fuel) m.toCatalog scope d = .ok found ∧
      found.Included imports

theorem collected_of_nestedImports {fuel : ℕ} {fqn : String}
    (h : nestedImports m scope fuel fqn = .ok found) (hsub : found.Included imports)
    {d : Declaration} (hd : m.declaration fqn = .ok d) : Collected m scope imports d := by
  cases fuel with
  | zero => cases h
  | succ fuel =>
    rw [nestedImports, hd] at h
    exact ⟨⟨fqn, Model.lookup_of_declaration hd⟩, fuel, found, h, hsub⟩

theorem collected_of_memberImports {fuel : ℕ} {member : Member}
    (h : memberImportsBy (nestedImports m scope fuel) m.toCatalog scope member = .ok found)
    (hsub : found.Included imports) {fqn : String} (hnested : member.nested? = some fqn)
    {d : Declaration} (hd : m.declaration fqn = .ok d) : Collected m scope imports d := by
  obtain ⟨nested, rfl, rfl⟩ := Member.exists_type_of_nested? hnested
  exact collected_of_nestedImports h hsub hd

theorem declarationNames_of_collected {a : Assembly} {dependencies : List Assembly}
    (hbuild : Model.build a dependencies = .ok m) {d : Declaration}
    (hd : Collected m scope imports d) :
    DeclarationNames m.toCatalog (m.Covers scope.module imports) d := by
  obtain ⟨⟨k, hk⟩, fuel, found, hfound, hsub⟩ := hd
  have hregular := Model.regular_of_build hbuild hk
  have hnames : (∀ member ∈ d.members, ∃ set,
      memberImportsBy (nestedImports m scope fuel) m.toCatalog scope member = .ok set ∧
        set.Included imports) →
      ∀ member ∈ d.members, MemberNames m.toCatalog (m.Covers scope.module imports) member := by
    intro hmembers member hmember
    obtain ⟨set, hset, hincluded⟩ := hmembers member hmember
    refine memberNames_of_memberImports ?_ hset hincluded
    intro method heq
    exact hregular.lifted method (heq ▸ hmember)
  cases hshape : d.shape with
  | module readme =>
    rw [typeImportsBy, hshape] at hfound
    cases hfound
  | enum =>
    refine ⟨by simp [Declaration.bases, hshape, Shape.bases], ?_, ?_, ?_⟩
    · intro base interfaces isAbstract bases hclass
      cases hshape.symm.trans hclass
    · intro bases fields hstruct
      cases hshape.symm.trans hstruct
    · intro _ member hmember
      obtain ⟨value, rfl⟩ := hregular.enum hshape member hmember
      exact trivial
  | struct bases =>
    rw [typeImportsBy, hshape] at hfound
    obtain ⟨hbases, hfields⟩ := structNames_of_structImports hfound hsub
    refine ⟨hbases, ?_, fun _ fields _ hf => hfields fields hf, ?_⟩
    · intro base interfaces isAbstract bases hclass
      cases hshape.symm.trans hclass
    · intro hkind
      exact absurd (by rw [hshape]; rfl) hkind
  | «class» base interfaces isAbstract bases =>
    obtain ⟨hbases, hmembers⟩ := typeImportsBy_eq_ok (.inl ⟨_, _, _, _, hshape⟩) hfound hsub
    refine ⟨hbases, ?_, ?_, ?_⟩
    · intro base' interfaces' isAbstract' bases' hclass fqn hfqn
      -- The bases that the proxy names are among the bases of the class.
      have hin := hregular.abstractBases _ _ _ _ hclass hfqn
      apply hbases
      rw [Declaration.bases, hclass]
      exact List.mem_append_left _ hin
    · intro bases fields hstruct
      cases hshape.symm.trans hstruct
    · exact fun _ => hnames hmembers
  | interface bases =>
    obtain ⟨hbases, hmembers⟩ := typeImportsBy_eq_ok (.inr ⟨_, hshape⟩) hfound hsub
    refine ⟨hbases, ?_, ?_, ?_⟩
    · intro base interfaces isAbstract bases hclass
      cases hshape.symm.trans hclass
    · intro bases fields hstruct
      cases hshape.symm.trans hstruct
    · exact fun _ => hnames hmembers

theorem collected_nested {a : Assembly} {dependencies : List Assembly}
    (hbuild : Model.build a dependencies = .ok m) {d : Declaration}
    (hd : Collected m scope imports d) (hkind : d.shape.kind ≠ .struct) {member : Member}
    (hmember : member ∈ d.members) {fqn : String} (hnested : member.nested? = some fqn)
    {inner : Declaration} (hinner : m.declaration fqn = .ok inner) :
    Collected m scope imports inner := by
  obtain ⟨⟨k, hk⟩, fuel, found, hfound, hsub⟩ := hd
  have hcollected : ((∃ base interfaces isAbstract bases,
      d.shape = .class base interfaces isAbstract bases) ∨ ∃ bases, d.shape = .interface bases) →
      Collected m scope imports inner := by
    intro hclass
    obtain ⟨set, hset, hincluded⟩ := (typeImportsBy_eq_ok hclass hfound hsub).2 member hmember
    exact collected_of_memberImports hset hincluded hnested hinner
  cases hshape : d.shape with
  | module readme =>
    rw [typeImportsBy, hshape] at hfound
    cases hfound
  | enum =>
    obtain ⟨value, rfl⟩ := (Model.regular_of_build hbuild hk).enum hshape member hmember
    cases hnested
  | struct bases => exact absurd (by rw [hshape]; rfl) hkind
  | «class» base interfaces isAbstract bases => exact hcollected (.inl ⟨_, _, _, _, hshape⟩)
  | interface bases => exact hcollected (.inr ⟨_, hshape⟩)

theorem supplies_collected {a : Assembly} {dependencies : List Assembly}
    (hbuild : Model.build a dependencies = .ok m) (scope : Scope) (imports : Imports) :
    Supplies m (m.Covers scope.module imports) (Collected m scope imports) :=
  ⟨fun _ hd => declarationNames_of_collected hbuild hd,
    fun _ hd hkind _ hmember _ _ hnested hinner =>
      collected_nested hbuild hd hkind hmember hnested hinner⟩

theorem allMentions_addTypes {N : String → Prop} {S : Declaration → Prop} (hS : Supplies m N S)
    {P : TypeExpr → Scope → Prop} {checks : Bool} {place : Declaration}
    (hP : ∀ written type scope, (topContext m checks place written).Mentions N type scope →
      P type scope)
    {names : List String} (hsupplied : ∀ fqn ∈ names, ∀ d, m.declaration fqn = .ok d → S d)
    {written script : Script} (hwritten : AllMentions P written)
    (h : names.foldlM (addType m checks place) written = .ok script) : AllMentions P script := by
  induction names generalizing written with
  | nil =>
    obtain rfl := Outcome.pure_eq_ok.mp h
    exact hwritten
  | cons fqn names ih =>
    rw [List.foldlM_cons] at h
    obtain ⟨middle, hmiddle, hrest⟩ := Outcome.bind_eq_ok.mp h
    obtain ⟨hfirst, hothers⟩ := List.forall_mem_cons.mp hsupplied
    obtain ⟨d, definition, epilogue, -, -, rfl, -, hdefinition, hepilogue⟩ :=
      addType_eq_ok hS hfirst hmiddle
    refine ih hothers ?_ hrest
    simp only [allMentions_append]
    refine ⟨⟨⟨hwritten, by simp⟩, ?_⟩, ?_⟩
    · exact fun type scope hin => hP _ type scope (hdefinition type scope hin)
    · exact fun type scope hin => hP _ type scope (hepilogue type scope hin)

/-- Every import that a type in the text of a module needs is among the imports of the module. -/
theorem mentions_imported {a : Assembly} {dependencies : List Assembly}
    (hbuild : Model.build a dependencies = .ok m) {checks : Bool} {place : Declaration}
    {script : Script} (hscript : moduleScript m checks place = .ok script) :
    ∃ imports, moduleImports m place = .ok imports ∧
      ∀ type scope, .mark (.mention type scope) ∈ script →
        scope.module = place.fqn ∧
        (∃ needed, m.importsOf scope type = .ok needed ∧ needed.Included imports) ∧
        ∀ fqn ∈ type.mentions, ∃ r, m.resolve scope fqn = .ok r ∧
          ∀ i, r.needed? = some i → imports.contains i = true := by
  obtain ⟨imports, members, start, types, finish, himports, hmembers, htypes, rfl, hstart, -,
    hfinish⟩ := moduleScript_eq_ok hscript
  refine ⟨imports, himports, ?_⟩
  have hS := supplies_collected hbuild { module := place.fqn } imports
  simp only [moduleImports, Outcome.bind_eq_ok, Outcome.pure_eq_ok] at himports
  obtain ⟨sets, hsets, rfl⟩ := himports
  refine allMentions_append.mpr ⟨allMentions_append.mpr ⟨hstart.allMentions, ?_⟩,
    hfinish.allMentions⟩
  refine allMentions_addTypes hS ?_ ?_ allMentions_nil htypes
  · rintro written type scope ⟨hmodule, -, ⟨text, htext⟩, hnames⟩
    simp only [Catalog.spell, Outcome.bind_eq_ok, Outcome.pure_eq_ok] at htext
    obtain ⟨p, hp, -⟩ := htext
    have hgathers := Catalog.gathers_of_project scope type p hp
    have hplace : scope.module = place.fqn := hmodule
    refine ⟨hplace, ⟨p.imports, Outcome.bind_eq_ok.mpr ⟨p, hp, rfl⟩, fun i hi => ?_⟩, ?_⟩
    · obtain ⟨fqn, hfqn, r, hr, hneeded⟩ := (hgathers.needed i).mp hi
      exact hnames fqn hfqn scope r i hplace hr hneeded
    · intro fqn hfqn
      obtain ⟨r, hr⟩ := hgathers.resolves fqn hfqn
      exact ⟨r, hr, fun i hi => hnames fqn hfqn scope r i hplace hr hi⟩
  · intro fqn hfqn d hd
    obtain ⟨member, hmember, hnested⟩ := List.mem_filterMap.mp hfqn
    obtain ⟨set, hset, himports⟩ :=
      Outcome.exists_mem_mapM hsets (Members.arrange_subset hmembers hmember)
    have hincluded : set.Included (.mergeAll sets) := fun i hi =>
      Imports.contains_mergeAll.mpr ⟨set, hset, hi⟩
    exact collected_of_memberImports himports hincluded hnested hd

def liftedUser : Assembly :=
  ((((Assembly.ofModule "Acme" "1.0.0" "acme").withType (.class (.ofFqn "Acme.core.Part"))).withType
    (.interface { InterfaceType.ofFqn "Acme.Base" with
      isData := true
      properties := [{ name := "part", type := .named "Acme.core.Part" }] })).withType
    (.interface { InterfaceType.ofFqn "Acme.Options" with
      isData := true
      interfaces := ["Acme.Base"] })).withType
    (.class { ClassType.ofFqn "Acme.User" with
      methods := [{
        name := "use"
        parameters := [{ name := "options", type := .named "Acme.Options" }] }] })

def importedNames (m : Model) (script : Script) : List String :=
  script.flatMap fun
    | .mark (.mention type scope) => type.mentions.filter fun fqn =>
      ((m.resolve scope fqn).toOption.bind (·.needed?)).isSome
    | _ => []

theorem mem_importedNames {script : Script} {fqn : String} (h : fqn ∈ importedNames m script) :
    ∃ type scope i, .mark (.mention type scope) ∈ script ∧ fqn ∈ type.mentions ∧
      ∃ r, m.resolve scope fqn = .ok r ∧ r.needed? = some i := by
  obtain ⟨step, hstep, hin⟩ := List.mem_flatMap.mp h
  split at hin
  · rename_i type scope
    obtain ⟨hmention, hsome⟩ := List.mem_filter.mp hin
    obtain ⟨i, hi⟩ := Option.isSome_iff_exists.mp hsome
    obtain ⟨r, hr, hneeded⟩ := Option.bind_eq_some_iff.mp hi
    exact ⟨type, scope, i, hstep, hmention, r, Outcome.eq_ok_of_toOption hr, hneeded⟩
  · exact absurd hin List.not_mem_nil

def importsName (a : Assembly) (module fqn : String) : Outcome Bool := do
  let m ← Model.build a []
  let script ← moduleScript m false (← m.declaration module)
  return decide (fqn ∈ importedNames m script)

theorem liftedUser_importsName : importsName liftedUser "Acme" "Acme.core.Part" = .ok true :=
  Outcome.eq_ok_of_toOption (by decide +kernel)

theorem mentions_imported_inherited :
    ∃ m place script imports type scope r i, Model.build liftedUser [] = .ok m ∧
      moduleScript m false place = .ok script ∧ moduleImports m place = .ok imports ∧
      .mark (.mention type scope) ∈ script ∧ "Acme.core.Part" ∈ type.mentions ∧
      m.resolve scope "Acme.core.Part" = .ok r ∧ r.needed? = some i ∧
      imports.contains i = true := by
  have hview := liftedUser_importsName
  simp only [importsName, Outcome.bind_eq_ok, Outcome.pure_eq_ok, decide_eq_true_eq] at hview
  obtain ⟨m, hbuild, place, -, script, hscript, himported⟩ := hview
  obtain ⟨type, scope, i, hmark, hmention, r, hr, hi⟩ := mem_importedNames himported
  obtain ⟨imports, himports, hall⟩ := mentions_imported hbuild hscript
  obtain ⟨-, -, hnames⟩ := hall type scope hmark
  obtain ⟨r', hr', hcontains⟩ := hnames _ hmention
  obtain rfl := Except.ok.inj (hr.symm.trans hr')
  exact ⟨m, place, script, imports, type, scope, r, i, hbuild, hscript, himports, hmark, hmention,
    hr, hi, hcontains i hi⟩

end Bindery.Binding
