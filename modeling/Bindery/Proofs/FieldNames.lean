import Bindery.Proofs.FieldCoverage
import Bindery.Proofs.Outline

/-!
# Names of the fields of a struct

A struct is defined with one keyword parameter, one entry of its name mapping and one property for
each of its fields, inherited ones included. Fields are told apart by the names with which they are
declared, but all three go by the spelling of the name. Where two names are spelled alike, the
definition says one thing twice: a key of the mapping leads to the last field that is spelled so,
and no key leads to the others.
-/

namespace Bindery

open Api

namespace Catalog

variable {c : Catalog} {start : String}

/-- Two fields of a hierarchy have different names, but one spelling. -/
def SpelledAlike (c : Catalog) (start : String) : Prop :=
  ∃ one other, HasField c start one ∧ HasField c start other ∧ one ≠ other ∧
    Identifier.property one false false = Identifier.property other false false

theorem pythonName_fields {fields : List Field} (h : c.fields start = .ok fields)
    {field : Field} (hfield : field ∈ fields) :
    field.pythonName = Identifier.property field.name false false := by
  rw [pythonName_of_mem_fields h hfield, Identifier.property_eq_parameter]

theorem nodup_pythonNames_iff {fields : List Field} (h : c.fields start = .ok fields) :
    (fields.map (·.pythonName)).Nodup ↔ ¬ SpelledAlike c start := by
  have hcovers := coversNames_fields h
  rw [List.nodup_map_iff_inj_on hcovers.distinct.of_map]
  constructor
  · rintro hinj ⟨_, _, hone, hother, hne, halike⟩
    obtain ⟨one, honeIn, rfl⟩ := List.mem_map.mp ((hcovers.mem_iff _).mpr hone)
    obtain ⟨other, hotherIn, rfl⟩ := List.mem_map.mp ((hcovers.mem_iff _).mpr hother)
    rw [← pythonName_fields h honeIn, ← pythonName_fields h hotherIn] at halike
    exact hne (congrArg _ (hinj one honeIn other hotherIn halike))
  · intro halike one hone other hother hspelled
    by_contra hne
    rw [pythonName_fields h hone, pythonName_fields h hother] at hspelled
    refine halike ⟨one.name, other.name, (hcovers.mem_iff _).mp (List.mem_map_of_mem hone),
      (hcovers.mem_iff _).mp (List.mem_map_of_mem hother), fun hname => hne ?_, hspelled⟩
    exact List.inj_on_of_nodup_map hcovers.distinct hone hother hname

end Catalog

namespace Binding

open Catalog

def namePairs (fields : List Field) : List (String × String) :=
  fields.map fun field => (field.pythonName, field.name)

/-- What a dictionary with these entries holds when it is evaluated: a later entry takes the place
of an earlier one with its key. -/
def nameMapping (fields : List Field) : OrderedMap String := .ofList (namePairs fields)

theorem find?_nameMapping (fields : List Field) (key : String) :
    (nameMapping fields).find? key =
      (fields.reverse.find? fun field => field.pythonName = key).map (·.name) := by
  have hlookup : ∀ found : List Field,
      (namePairs found).lookup key =
        (found.find? fun field => field.pythonName = key).map (·.name) := by
    intro found
    induction found with
    | nil => rfl
    | cons field found ih =>
      rw [namePairs, List.map_cons, List.lookup_cons, ← namePairs, ih]
      by_cases hkey : field.pythonName = key
      · simp [hkey]
      · simp [hkey, beq_false_of_ne (Ne.symm hkey)]
  rw [nameMapping, OrderedMap.ofList, OrderedMap.find?_insertAll, OrderedMap.find?_empty,
    Option.or_none, namePairs, ← List.map_reverse, ← namePairs, hlookup]

theorem exists_of_find?_nameMapping {fields : List Field} {key name : String}
    (h : (nameMapping fields).find? key = some name) :
    ∃ field ∈ fields, field.pythonName = key ∧ field.name = name := by
  rw [find?_nameMapping] at h
  obtain ⟨field, hfield, hname⟩ := Option.map_eq_some_iff.mp h
  exact ⟨field, List.mem_reverse.mp (List.mem_of_find?_eq_some hfield),
    by simpa using List.find?_some hfield, hname⟩

theorem existsUnique_key_iff {fields : List Field} (hnames : (fields.map (·.name)).Nodup) :
    (∀ field ∈ fields, ∃! key, (nameMapping fields).find? key = some field.name) ↔
      (fields.map (·.pythonName)).Nodup := by
  have hkey : ∀ field ∈ fields, ∀ key, (nameMapping fields).find? key = some field.name →
      key = field.pythonName := by
    intro field hfield key hfound
    obtain ⟨found, hin, rfl, hname⟩ := exists_of_find?_nameMapping hfound
    rw [List.inj_on_of_nodup_map hnames hin hfield hname]
  constructor
  · intro hreached
    rw [List.nodup_map_iff_inj_on hnames.of_map]
    intro one hone other hother hspelled
    -- Both are found under one key, which leads to one name only.
    obtain ⟨key, honeFound, -⟩ := hreached one hone
    obtain ⟨key', hotherFound, -⟩ := hreached other hother
    obtain rfl := hkey one hone key honeFound
    obtain rfl := hkey other hother key' hotherFound
    rw [hspelled, hotherFound] at honeFound
    exact List.inj_on_of_nodup_map hnames hone hother (Option.some.inj honeFound).symm
  · intro hdistinct field hfield
    refine ⟨field.pythonName, ?_, hkey field hfield⟩
    change (nameMapping fields).find? field.pythonName = some field.name
    rw [find?_nameMapping, find?_reverse_of_distinct hdistinct hfield]
    rfl

def function? : Code.Step Mark → Option String
  | .signature s => if s.kind = .function then some s.name else none
  | _ => none

def functions (script : Script) : List String := script.filterMap function?

section Steps

@[simp] theorem function?_line (text : String) : function? (line text) = none := rfl

@[simp] theorem function?_blank : function? blank = none := rfl

@[simp] theorem function?_indent (text : String) : function? (.indent text) = none := rfl

@[simp] theorem function?_block (text : String) : function? (.block text) = none := rfl

@[simp] theorem function?_unindent (text : String) : function? (.unindent text) = none := rfl

@[simp] theorem function?_dedent : function? .dedent = none := rfl

@[simp] theorem function?_signature (s : Code.Signature) :
    function? (.signature s) = if s.kind = .function then some s.name else none := rfl

@[simp] theorem function?_listing (l : Code.Listing) : function? (.listing l) = none := rfl

@[simp] theorem function?_dictionary (d : Code.Dictionary) : function? (.dictionary d) = none := rfl

@[simp] theorem function?_mark (mark : Mark) : function? (.mark mark) = none := rfl

@[simp] theorem function?_step (s : Spelled) : function? s.step = none := rfl

@[simp] theorem functions_nil : functions [] = [] := rfl

@[simp] theorem functions_append (script script' : Script) :
    functions (script ++ script') = functions script ++ functions script' :=
  List.filterMap_append

@[simp] theorem functions_cons (step : Code.Step Mark) (script : Script) :
    functions (step :: script) = (function? step).toList ++ functions script := by
  cases h : function? step <;> simp [functions, h]

@[simp] theorem functions_map {α : Type} (items : List α) (f : α → Code.Step Mark) :
    functions (items.map f) = items.filterMap fun item => function? (f item) :=
  List.filterMap_map

@[simp] theorem functions_flatMap {α : Type} (items : List α) (f : α → Script) :
    functions (items.flatMap f) = items.flatMap fun item => functions (f item) := by
  induction items with
  | nil => rfl
  | cons item items ih => simp [ih]

theorem function?_of_isTextual {step : Code.Step Mark} (h : isTextual step = true) :
    function? step = none := by
  unfold function?
  split
  · cases h
  · rfl

@[simp] theorem functions_of_textual {script : Script} (h : Textual script) :
    functions script = [] :=
  List.filterMap_eq_nil_iff.mpr fun step hstep => function?_of_isTextual (h step hstep)

end Steps

@[simp] theorem functions_mentions (spelled : List Spelled) :
    functions (mentions spelled) = [] := by
  simp [mentions]

@[simp] theorem functions_coercionScript (f : StructField) : functions (coercionScript f) = [] := by
  rw [coercionScript]
  split <;> simp

theorem functions_constructorScript (ctx : Context) (d : Declaration) (fields : List StructField) :
    functions (constructorScript ctx d fields) = ["__init__"] := by
  simp [constructorScript, optionalScript]

theorem functions_fieldGetterScript (f : StructField) :
    functions (fieldGetterScript f) = [f.name] := by
  cases hoptional : f.isOptional <;> simp [fieldGetterScript, hoptional]

variable {ctx : Context} {d : Declaration} {script : Script}

def MapsNames (script : Script) (names : List (String × String)) : Prop :=
  ∃ dictionary, .dictionary dictionary ∈ script ∧ dictionary.variable_ = "name_mapping" ∧
    dictionary.entries = names.map fun entry => Text.quote entry.1 ++ ": " ++ Text.quote entry.2

theorem functions_structScript (h : structScript ctx d = .ok script) {fields : List Field}
    (hfields : ctx.model.fields d.fqn = .ok fields) :
    functions script = "__init__" :: fields.map (·.pythonName) := by
  simp only [structScript, Outcome.bind_eq_ok, Outcome.pure_eq_ok] at h
  obtain ⟨found, hfound, bases, -, spelled, hspelled, rfl⟩ := h
  obtain rfl : fields = found := Except.ok.inj (hfields.symm.trans hfound)
  have hgetters : (spelled.flatMap fun f => functions (fieldGetterScript f)) =
      fields.map (·.pythonName) := by
    simp only [functions_fieldGetterScript]
    rw [← List.map_eq_flatMap, map_name_structFields hspelled]
  simp [dataTypeScript, functions_constructorScript, specialMethods, hgetters]

theorem mapsNames_structScript (h : structScript ctx d = .ok script) {fields : List Field}
    (hfields : ctx.model.fields d.fqn = .ok fields) :
    MapsNames script (namePairs fields) := by
  simp only [structScript, Outcome.bind_eq_ok, Outcome.pure_eq_ok] at h
  obtain ⟨found, hfound, bases, -, spelled, -, rfl⟩ := h
  obtain rfl : fields = found := Except.ok.inj (hfields.symm.trans hfound)
  refine ⟨{
    variable_ := "name_mapping"
    entries := fields.map mappingEntry
    trailing := ","
    compact := true }, by simp [dataTypeScript], rfl, ?_⟩
  rw [namePairs, List.map_map]
  rfl

/-- The definition of a struct has a keyword parameter, an entry of the name mapping and a property
for each name that a struct of the hierarchy declares, all under the spelling of the name. A key
of the mapping leads to the last field that is spelled so. The names are distinct, and one key leads
to each field, exactly if no two names of the hierarchy are spelled alike. -/
theorem name_mapping_injective_iff (h : structScript ctx d = .ok script) :
    ∃ fields, ctx.model.fields d.fqn = .ok fields ∧
      CoversNames ctx.model.toCatalog d.fqn fields ∧
      TakesKeywords script (fields.map (·.pythonName)) ∧
      functions script = "__init__" :: fields.map (·.pythonName) ∧
      MapsNames script (namePairs fields) ∧
      (∀ key, (nameMapping fields).find? key =
        (fields.reverse.find? fun field => field.pythonName = key).map (·.name)) ∧
      ((fields.map (·.pythonName)).Nodup ↔ ¬ SpelledAlike ctx.model.toCatalog d.fqn) ∧
      ((∀ field ∈ fields, ∃! key, (nameMapping fields).find? key = some field.name) ↔
        ¬ SpelledAlike ctx.model.toCatalog d.fqn) := by
  obtain ⟨fields, hfields, htakes⟩ := takesKeywords_of_structScript h
  have hcovers := coversNames_fields hfields
  have hspelled := nodup_pythonNames_iff hfields
  exact ⟨fields, hfields, hcovers, htakes, functions_structScript h hfields,
    mapsNames_structScript h hfields, find?_nameMapping fields, hspelled,
    (existsUnique_key_iff hcovers.distinct).trans hspelled⟩

def definedIn (a : Assembly) (fqn : String) :
    Outcome (Context × Declaration × List Field × Script) := do
  let m ← Model.build a []
  let d ← m.declaration fqn
  let ctx : Context := { model := m, scope := { module := a.name } }
  return (ctx, d, ← m.fields d.fqn, ← structScript ctx d)

def definedView (found : Context × Declaration × List Field × Script) :
    List (String × String) × List String :=
  (namePairs found.2.2.1, functions found.2.2.2)

theorem exists_of_definedView {a : Assembly} {fqn : String} {pairs : List (String × String)}
    {names : List String}
    (h : (definedIn a fqn).toOption.map definedView = some (pairs, names)) :
    ∃ ctx d fields script, Model.build a [] = .ok ctx.model ∧
      ctx.model.declaration fqn = .ok d ∧ ctx.model.fields d.fqn = .ok fields ∧
      structScript ctx d = .ok script ∧ namePairs fields = pairs ∧ functions script = names := by
  obtain ⟨_, hdefined, hview⟩ := Outcome.exists_eq_ok_of_map h
  simp only [definedIn, Outcome.bind_eq_ok, Outcome.pure_eq_ok] at hdefined
  obtain ⟨m, hbuild, d, hd, fields, hfields, script, hscript, rfl⟩ := hdefined
  simp only [definedView, Prod.mk.injEq] at hview
  exact ⟨{ model := m, scope := { module := a.name } }, d, fields, script, hbuild, hd, hfields,
    hscript, hview⟩

def inheriting (inherited own : List String) : Assembly :=
  assemblyOf [structEntry "Acme.Base" [] inherited, structEntry "Acme.Props" ["Acme.Base"] own]

theorem name_mapping_injective_iff_inheriting :
    ∃ ctx d fields script, Model.build (inheriting ["maxAge", "userID"] ["maxAge", "from"]) [] =
        .ok ctx.model ∧
      structScript ctx d = .ok script ∧ ctx.model.fields d.fqn = .ok fields ∧
      functions script = ["__init__", "max_age", "user_id", "from_"] ∧
      ¬ SpelledAlike ctx.model.toCatalog d.fqn ∧
      ∀ field ∈ fields, ∃! key, (nameMapping fields).find? key = some field.name := by
  have hview : (definedIn (inheriting ["maxAge", "userID"] ["maxAge", "from"])
      "Acme.Props").toOption.map definedView =
        some ([("max_age", "maxAge"), ("user_id", "userID"), ("from_", "from")],
          ["__init__", "max_age", "user_id", "from_"]) := by
    decide +kernel
  obtain ⟨ctx, d, fields, script, hbuild, -, hfields, hscript, -, hfunctions⟩ :=
    exists_of_definedView hview
  obtain ⟨found, hfound, -, -, hnames, -, -, hdistinct, hreached⟩ :=
    name_mapping_injective_iff hscript
  obtain rfl : fields = found := Except.ok.inj (hfields.symm.trans hfound)
  have halike : ¬ SpelledAlike ctx.model.toCatalog d.fqn := by
    have hlist : ("__init__" :: fields.map (·.pythonName)).Nodup := by
      rw [← hnames, hfunctions]
      decide
    exact hdistinct.mp (List.nodup_cons.mp hlist).2
  exact ⟨ctx, d, fields, script, hbuild, hscript, hfields, hfunctions, halike, hreached.mpr halike⟩

def LosesField (a : Assembly) (names : List String) (lost : String) : Prop :=
  ∃ ctx d fields script, Model.build a [] = .ok ctx.model ∧
    ctx.model.declaration "Acme.Props" = .ok d ∧ ctx.model.fields d.fqn = .ok fields ∧
    structScript ctx d = .ok script ∧ functions script = names ∧ ¬ names.Nodup ∧
    lost ∈ fields.map (·.name) ∧ ∀ key, (nameMapping fields).find? key ≠ some lost

theorem losesField_of_definedView {a : Assembly} {names : List String} {lost key name : String}
    (h : (definedIn a "Acme.Props").toOption.map definedView =
      some ([(key, lost), (key, name)], names))
    (hnames : ¬ names.Nodup) (hne : name ≠ lost) : LosesField a names lost := by
  obtain ⟨ctx, d, fields, script, hbuild, hd, hfields, hscript, hpairs, hfunctions⟩ :=
    exists_of_definedView h
  refine ⟨ctx, d, fields, script, hbuild, hd, hfields, hscript, hfunctions, hnames, ?_, ?_⟩
  · have hlost : lost ∈ (namePairs fields).map Prod.snd := by simp [hpairs]
    rwa [namePairs, List.map_map] at hlost
  · intro key' hfound
    rw [nameMapping, hpairs, OrderedMap.ofList, OrderedMap.find?_insertAll] at hfound
    by_cases hkey : key' = key
    · simp [hkey, hne] at hfound
    · simp [OrderedMap.find?_empty, List.lookup_cons, beq_false_of_ne hkey] at hfound

theorem name_mapping_loses_field :
    LosesField (assemblyOf [structEntry "Acme.Props" [] ["fooBar", "foo_bar"]])
      ["__init__", "foo_bar", "foo_bar"] "fooBar" ∧
    LosesField (inheriting ["fooBar"] ["foo_bar"]) ["__init__", "foo_bar", "foo_bar"] "fooBar" := by
  have hown : (definedIn (assemblyOf [structEntry "Acme.Props" [] ["fooBar", "foo_bar"]])
      "Acme.Props").toOption.map definedView = some ([("foo_bar", "fooBar"), ("foo_bar", "foo_bar")],
        ["__init__", "foo_bar", "foo_bar"]) := by
    decide +kernel
  have hinherited : (definedIn (inheriting ["fooBar"] ["foo_bar"]) "Acme.Props").toOption.map
      definedView = some ([("foo_bar", "fooBar"), ("foo_bar", "foo_bar")],
        ["__init__", "foo_bar", "foo_bar"]) := by
    decide +kernel
  exact ⟨losesField_of_definedView hown (by decide) (by decide),
    losesField_of_definedView hinherited (by decide) (by decide)⟩

end Binding

end Bindery
