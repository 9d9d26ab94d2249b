import Bindery.Binding.Definition
import Bindery.Proofs.FieldPlaces

/-!
# Coverage of the fields of a struct

The depth-first walk that collects the parameters of a constructor and the breadth-first walk that
collects the keyword parameters of a method end for every hierarchy, also for one that runs in
circles. Both succeed exactly if all types of the hierarchy are structs, and then both find one
field for every name that a struct of the hierarchy declares. So the keyword arguments with which a
method puts a struct together again are the keyword parameters of the struct's constructor.
-/

namespace Bindery

open Api

theorem Identifier.property_eq_parameter (name : String) :
    property name false false = parameter name [] := by
  simp [property, protectedMark, parameter, uniquify, uniquify.go]

namespace Catalog

variable {c : Catalog} {start : String}

def HasField (c : Catalog) (start name : String) : Prop :=
  ∃ fqn struct, Inherits c start fqn ∧ c.struct fqn = .ok struct ∧
    name ∈ struct.properties.map (·.name)

/-- One field for every name that a struct of the hierarchy declares. -/
structure CoversNames (c : Catalog) (start : String) (fields : List Field) : Prop where
  distinct : (fields.map (·.name)).Nodup
  mem_iff : ∀ name, name ∈ fields.map (·.name) ↔ HasField c start name

theorem CoversNames.perm {fields lifted : List Field} (h : CoversNames c start fields)
    (h' : CoversNames c start lifted) : (lifted.map (·.name)).Perm (fields.map (·.name)) :=
  (List.perm_ext_iff_of_nodup h'.distinct h.distinct).mpr fun name =>
    (h'.mem_iff name).trans (h.mem_iff name).symm

theorem coversNames_fields {fields : List Field} (h : c.fields start = .ok fields) :
    CoversNames c start fields := by
  obtain ⟨hok, -⟩ := fields_eq_ok h
  obtain ⟨last, hrun⟩ := depthFirst_visits c start
  refine ⟨nodup_names_fields h, fun name => ?_⟩
  rw [names_fields h hrun, List.mem_eraseDups, fieldNames, List.mem_flatMap]
  constructor
  · rintro ⟨⟨fqn, struct⟩, hleft, hname⟩
    obtain ⟨hinherits, hstruct⟩ := (mem_left_visits hok).mp hleft
    exact ⟨fqn, struct, hinherits, hstruct, hname⟩
  · rintro ⟨fqn, struct, hinherits, hstruct, hname⟩
    exact ⟨(fqn, struct), (mem_left_visits hok).mpr ⟨hinherits, hstruct⟩, hname⟩

theorem coversNames_liftedFields {lifted : List Field} (h : c.liftedFields start = .ok lifted) :
    CoversNames c start lifted := by
  obtain ⟨hdistinct, -, hcomplete⟩ := liftedFields_spec h
  refine ⟨hdistinct, fun name => ⟨fun hname => ?_, ?_⟩⟩
  · obtain ⟨field, hfield, rfl⟩ := List.mem_map.mp hname
    obtain ⟨fqn, struct, hinherits, hstruct, p, hp, rfl⟩ := mem_liftedFields h hfield
    exact ⟨fqn, struct, hinherits, hstruct, List.mem_map_of_mem hp⟩
  · rintro ⟨fqn, struct, hinherits, hstruct, hname⟩
    obtain ⟨p, hp, rfl⟩ := List.mem_map.mp hname
    exact hcomplete (.ofProperty p fqn) (defined_ofProperty hstruct hp) hinherits

theorem fields_ok_iff : (∃ fields, c.fields start = .ok fields) ↔ AllStructs c start := by
  rw [← visits_ok_iff]
  constructor
  · rintro ⟨fields, h⟩
    exact (fields_eq_ok h).1
  · intro hok
    cases h : c.fields start with
    | ok fields => exact ⟨fields, rfl⟩
    | error fault =>
      rcases Outcome.bind_eq_error.mp h with hfold | ⟨found, -, hpure⟩
      · obtain ⟨visit, hvisit, before, hstep⟩ := Outcome.exists_fault_of_foldlM hfold
        cases visit with
        | enter fqn struct => cases hstep
        | leave fqn struct => cases hstep
        | fail fault => exact absurd hvisit (hok fault)
      · cases hpure

theorem liftedFields_ok_iff :
    (∃ lifted, c.liftedFields start = .ok lifted) ↔ AllStructs c start := by
  rw [← layers_ok_iff]
  constructor
  · rintro ⟨lifted, h⟩
    obtain ⟨layers, hlayers, -⟩ := Outcome.bind_eq_ok.mp h
    exact ⟨layers, hlayers⟩
  · rintro ⟨layers, hlayers⟩
    exact ⟨_, Outcome.bind_eq_ok.mpr ⟨layers, hlayers, rfl⟩⟩

theorem pythonName_of_mem_fields {fields : List Field} (h : c.fields start = .ok fields)
    {field : Field} (hfield : field ∈ fields) :
    field.pythonName = Identifier.parameter field.name [] := by
  obtain ⟨-, rfl⟩ := fields_eq_ok h
  obtain ⟨entry, hentry, rfl⟩ := List.mem_map.mp hfield
  obtain ⟨-, layer, -, p, -, heq⟩ := mem_latest hentry
  rw [heq]
  simp only [Field.ofProperty, Identifier.property_eq_parameter]

theorem pythonName_of_mem_liftedFields {lifted : List Field} (h : c.liftedFields start = .ok lifted)
    {field : Field} (hfield : field ∈ lifted) :
    field.pythonName = Identifier.parameter field.name [] := by
  obtain ⟨fqn, -, -, -, p, -, rfl⟩ := mem_liftedFields h hfield
  simp only [Field.ofProperty, Identifier.property_eq_parameter]

theorem pythonNames_perm {fields lifted : List Field} (hfields : c.fields start = .ok fields)
    (hlifted : c.liftedFields start = .ok lifted) :
    (lifted.map (·.pythonName)).Perm (fields.map (·.pythonName)) := by
  have hspelled : ∀ found : List Field,
      (∀ field ∈ found, field.pythonName = Identifier.parameter field.name []) →
        found.map (·.pythonName) = (found.map (·.name)).map (Identifier.parameter · []) := by
    intro found hfound
    rw [List.map_map, Function.comp_def]
    exact List.map_congr_left hfound
  rw [hspelled fields fun _ => pythonName_of_mem_fields hfields,
    hspelled lifted fun _ => pythonName_of_mem_liftedFields hlifted]
  exact ((coversNames_fields hfields).perm (coversNames_liftedFields hlifted)).map _

end Catalog

namespace Binding

open Catalog

def PassesKeywords (script : Script) (names : List String) : Prop :=
  ∃ call, .call call ∈ script ∧ call.args = names.map fun name => name ++ "=" ++ name

/-- A script with a constructor that takes keyword parameters of some names and no others. -/
def TakesKeywords (script : Script) (names : List String) : Prop :=
  ∃ signature receiver texts, .signature signature ∈ script ∧ signature.name = "__init__" ∧
    signature.params = receiver :: (if names = [] then [] else "*" :: texts) ∧
    List.Forall₂ (fun name text => ∃ type, text = name ++ ": " ++ type) names texts

def Rebuilds (m : Model) (fqn : String) (script : Script) : Prop :=
  ∃ ctx method head, ctx.model = m ∧ method.lifted = some fqn ∧ method.arguments ≠ [] ∧
    methodHead ctx method = .ok head ∧ rebuildStruct ctx method head = .ok script

def DefinesStruct (m : Model) (fqn : String) (script : Script) : Prop :=
  ∃ ctx d, ctx.model = m ∧ d.fqn = fqn ∧ structScript ctx d = .ok script

variable {ctx : Context} {method : MethodMember} {head : MethodHead} {script : Script}

theorem fields_of_methodHead (h : methodHead ctx method = .ok head) {fqn : String}
    (hlifted : method.lifted = some fqn) : ctx.model.liftedFields fqn = .ok head.fields := by
  simp only [methodHead, hlifted, Outcome.bind_eq_ok, Outcome.pure_eq_ok] at h
  obtain ⟨returns, -, taken, -, plain, -, fields, hfields, keywords, -, rfl⟩ := h
  exact hfields

theorem passesKeywords_of_rebuildStruct {fqn : String} (hlifted : method.lifted = some fqn)
    (harguments : method.arguments ≠ []) (h : rebuildStruct ctx method head = .ok script) :
    PassesKeywords script (head.fields.map (·.pythonName)) := by
  have hlast := List.getLast?_eq_some_getLast harguments
  simp only [rebuildStruct, hlifted, hlast, Outcome.bind_eq_ok, Outcome.pure_eq_ok] at h
  obtain ⟨struct, -, rfl⟩ := h
  refine ⟨_, List.mem_cons_of_mem _ List.mem_cons_self, ?_⟩
  rw [List.map_map]
  rfl

theorem map_field_structFields {fields : List Field} {spelled : List StructField}
    (h : structFields ctx fields = .ok spelled) : spelled.map (·.field) = fields := by
  simp only [structFields, Outcome.bind_eq_ok, Outcome.pure_eq_ok] at h
  obtain ⟨parameters, hparameters, coercions, hcoercions, results, hresults, rfl⟩ := h
  have hparameters := (Outcome.mapM_eq_ok.mp hparameters).length_eq
  have hcoercions := (Outcome.mapM_eq_ok.mp hcoercions).length_eq
  have hresults := (Outcome.mapM_eq_ok.mp hresults).length_eq
  rw [List.map_map]
  refine (List.map_congr_left fun _ _ => rfl).trans (List.map_fst_zip ?_)
  simp only [List.length_zip]
  omega

theorem map_name_structFields {fields : List Field} {spelled : List StructField}
    (h : structFields ctx fields = .ok spelled) :
    spelled.map (·.name) = fields.map (·.pythonName) := by
  rw [← map_field_structFields h, List.map_map]
  rfl

theorem takesKeywords_of_constructorScript (ctx : Context) (d : Declaration)
    (fields : List StructField) :
    TakesKeywords (constructorScript ctx d fields) (fields.map (·.name)) := by
  refine ⟨{
    kind := .function
    name := "__init__"
    params := Identifier.uniquify "self" (fields.map (·.name)) ::
      if fields.isEmpty then [] else "*" :: fields.map (·.paramText)
    returns := some "None" }, Identifier.uniquify "self" (fields.map (·.name)),
    fields.map (·.paramText), by simp [constructorScript], rfl, ?_, ?_⟩
  · cases fields <;> rfl
  · rw [List.forall₂_map_left_iff, List.forall₂_map_right_iff, List.forall₂_same]
    exact fun f _ => ⟨f.parameter.text ++ defaultValue f.isOptional, String.append_assoc⟩

theorem takesKeywords_of_structScript {d : Declaration} (h : structScript ctx d = .ok script) :
    ∃ fields, ctx.model.fields d.fqn = .ok fields ∧
      TakesKeywords script (fields.map (·.pythonName)) := by
  simp only [structScript, Outcome.bind_eq_ok, Outcome.pure_eq_ok] at h
  obtain ⟨fields, hfields, bases, -, spelled, hspelled, rfl⟩ := h
  refine ⟨fields, hfields, ?_⟩
  obtain ⟨signature, receiver, texts, hin, htakes⟩ :=
    takesKeywords_of_constructorScript (ctx.inside d.fqn) d spelled
  rw [← map_name_structFields hspelled]
  refine ⟨signature, receiver, texts, ?_, htakes⟩
  simp only [List.mem_append]
  exact .inl (.inl (.inl (.inr hin)))

/-- Both walks through the bases of a struct have exactly one run, which is what they compute, so
they end in every hierarchy. Each succeeds if and only if every type of the hierarchy is a struct,
and then it finds one field for each name that a struct of the hierarchy declares. The keyword
arguments that put the struct together again are the keyword parameters of its constructor. -/
theorem walks_cover_fields (m : Model) (start : String) :
    (∀ visits last, DepthFirst m.toCatalog [start] [] visits last ↔
      m.walk (m.size + 1) [start] [] = (visits, last)) ∧
    (∀ layers, BreadthFirst m.toCatalog [start] [start] layers ↔
      m.layers (m.size + 1) [start] [start] = layers) ∧
    ((∃ fields, m.fields start = .ok fields) ↔ AllStructs m.toCatalog start) ∧
    ((∃ lifted, m.liftedFields start = .ok lifted) ↔ AllStructs m.toCatalog start) ∧
    (∀ fields, m.fields start = .ok fields → CoversNames m.toCatalog start fields) ∧
    (∀ lifted, m.liftedFields start = .ok lifted → CoversNames m.toCatalog start lifted) ∧
    ∀ call definition, Rebuilds m start call → DefinesStruct m start definition →
      ∃ names keywords, PassesKeywords call names ∧ TakesKeywords definition keywords ∧
        names.Perm keywords := by
  refine ⟨fun visits last => depthFirst_iff, fun layers => breadthFirst_iff, fields_ok_iff,
    liftedFields_ok_iff, fun fields => coversNames_fields,
    fun lifted => coversNames_liftedFields, ?_⟩
  rintro call definition ⟨ctx, method, head, rfl, hlifted, harguments, hhead, hcall⟩
    ⟨ctx', d, hmodel, rfl, hdefinition⟩
  obtain ⟨fields, hfields, htakes⟩ := takesKeywords_of_structScript hdefinition
  rw [hmodel] at hfields
  exact ⟨_, _, passesKeywords_of_rebuildStruct hlifted harguments hcall, htakes,
    pythonNames_perm hfields (fields_of_methodHead hhead hlifted)⟩

def classEntry (fqn : String) (method : Method) : TypeEntry :=
  .class { ClassType.ofFqn fqn with methods := [method] }

def methodIn (a : Assembly) (fqn : String) : Outcome (Context × MethodMember × MethodHead) := do
  let m ← Model.build a []
  let d ← m.declaration fqn
  let ctx : Context := { model := m, scope := { module := a.name, enclosing := [fqn] } }
  match d.members.head? with
  | some (.method method) => return (ctx, method, ← methodHead ctx method)
  | _ => throw (.unknownType fqn)

theorem methodIn_eq_ok {a : Assembly} {fqn : String}
    (h : methodIn a fqn = .ok (ctx, method, head)) :
    Model.build a [] = .ok ctx.model ∧ methodHead ctx method = .ok head := by
  simp only [methodIn, Outcome.bind_eq_ok] at h
  obtain ⟨m, hbuild, d, -, h⟩ := h
  split at h
  · simp only [Outcome.bind_eq_ok, Outcome.pure_eq_ok, Prod.mk.injEq] at h
    obtain ⟨_, hhead, rfl, rfl, rfl⟩ := h
    exact ⟨hbuild, hhead⟩
  · cases h

def circle : Assembly :=
  assemblyOf [structEntry "Acme.Props" ["Acme.Base", "Acme.Base"] ["size"],
    structEntry "Acme.Base" ["Acme.Props"] ["label", "size"],
    classEntry "Acme.Tool" {
      name := "run"
      parameters := [{ name := "props", type := .named "Acme.Props" }] }]

def rebuiltIn (a : Assembly) (user struct : String) :
    Outcome ((Context × MethodMember × MethodHead) × Script × Declaration × Script) := do
  let (ctx, method, head) ← methodIn a user
  let d ← ctx.model.declaration struct
  return ((ctx, method, head), ← rebuildStruct ctx method head, d, ← structScript ctx d)

def rebuiltView (rebuilt : (Context × MethodMember × MethodHead) × Script × Declaration × Script) :
    Option String × ℕ × String :=
  (rebuilt.1.2.1.lifted, rebuilt.1.2.1.arguments.length, rebuilt.2.2.1.fqn)

theorem rebuiltView_circle :
    (rebuiltIn circle "Acme.Tool" "Acme.Props").toOption.map rebuiltView =
      some (some "Acme.Props", 1, "Acme.Props") := by
  decide +kernel

def basesIn (a : Assembly) (one other : String) : Outcome (List String × List String) := do
  let m ← Model.build a []
  return ((← m.struct one).interfaces, (← m.struct other).interfaces)

theorem basesIn_circle :
    basesIn circle "Acme.Props" "Acme.Base" =
      .ok (["Acme.Base", "Acme.Base"], ["Acme.Props"]) :=
  Outcome.eq_ok_of_toOption (by decide +kernel)

theorem not_acyclic_circle (h : Model.build circle [] = .ok m) :
    ¬ Acyclic m.toCatalog "Acme.Props" := by
  intro hacyclic
  have hbases := basesIn_circle
  simp only [basesIn, h, Outcome.bind_eq_ok, Outcome.pure_eq_ok, Prod.mk.injEq] at hbases
  obtain ⟨_, ⟨⟩, props, hprops, base, hbase, hpropsBases, hbaseBases⟩ := hbases
  refine hacyclic "Acme.Props" props .self hprops "Acme.Base" (by simp [hpropsBases]) ?_
  exact .base .self hbase (by simp [hbaseBases])

theorem walks_cover_fields_circle :
    ∃ m fields lifted call definition, Model.build circle [] = .ok m ∧
      ¬ Acyclic m.toCatalog "Acme.Props" ∧ m.fields "Acme.Props" = .ok fields ∧
      m.liftedFields "Acme.Props" = .ok lifted ∧ CoversNames m.toCatalog "Acme.Props" fields ∧
      CoversNames m.toCatalog "Acme.Props" lifted ∧ Rebuilds m "Acme.Props" call ∧
      DefinesStruct m "Acme.Props" definition ∧
      ∃ names keywords, PassesKeywords call names ∧ TakesKeywords definition keywords ∧
        names.Perm keywords := by
  obtain ⟨_, hrebuilt, hview⟩ := Outcome.exists_eq_ok_of_map rebuiltView_circle
  simp only [rebuiltIn, Outcome.bind_eq_ok, Outcome.pure_eq_ok] at hrebuilt
  obtain ⟨⟨ctx, method, head⟩, hmethod, d, -, call, hcall, definition, hdefinition, rfl⟩ := hrebuilt
  obtain ⟨hbuild, hhead⟩ := methodIn_eq_ok hmethod
  simp only [rebuiltView, Prod.mk.injEq] at hview
  obtain ⟨hlifted, hlength, hfqn⟩ := hview
  have harguments : method.arguments ≠ [] := by
    intro hnone
    simp [hnone] at hlength
  have hrebuilds : Rebuilds ctx.model "Acme.Props" call :=
    ⟨ctx, method, head, rfl, hlifted, harguments, hhead, hcall⟩
  have hdefines : DefinesStruct ctx.model "Acme.Props" definition :=
    ⟨ctx, d, rfl, hfqn, hdefinition⟩
  obtain ⟨-, -, hfieldsIff, hliftedIff, hfieldsCover, hliftedCover, hkeywords⟩ :=
    walks_cover_fields ctx.model "Acme.Props"
  have hlifts := fields_of_methodHead hhead hlifted
  obtain ⟨fields, hfields⟩ := hfieldsIff.mpr (hliftedIff.mp ⟨_, hlifts⟩)
  exact ⟨ctx.model, fields, head.fields, call, definition, hbuild,
    not_acyclic_circle hbuild, hfields, hlifts,
    hfieldsCover fields hfields, hliftedCover _ hlifts, hrebuilds, hdefines,
    hkeywords call definition hrebuilds hdefines⟩

end Binding

end Bindery
