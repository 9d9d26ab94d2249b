import Bindery.Proofs.BaseRuns
import Bindery.Proofs.FieldChoice

/-!
# Places of fields

The constructor of a struct takes its fields in the order in which a depth-first walk leaves the
structs that declare them. A name that several structs declare stands in its first place, with the
definition of the struct that is left last. The struct itself is left last of all, so its own
definitions stand, even where it inherits from itself. Where no struct does, a struct is left behind
all of its bases, and the definition that stands is a most derived one.
-/

namespace Bindery.Catalog

open Api

variable {c : Catalog}

def fieldEntries (placed : List (String × InterfaceType)) : List (String × Field) :=
  placed.flatMap fun layer => layer.2.properties.map fun p => (p.name, .ofProperty p layer.1)

def fieldNames (placed : List (String × InterfaceType)) : List String :=
  placed.flatMap fun layer => layer.2.properties.map (·.name)

theorem map_fst_fieldEntries (placed : List (String × InterfaceType)) :
    (fieldEntries placed).map Prod.fst = fieldNames placed := by
  rw [fieldEntries, fieldNames, List.map_flatMap]
  simp only [List.map_map, Function.comp_def]

theorem latest_eq_ofList (placed : List (String × InterfaceType)) :
    latest placed = .ofList (fieldEntries placed) := by
  rw [latest, fieldEntries, OrderedMap.ofList, OrderedMap.insertAll, List.foldl_flatMap]
  simp only [addFields_eq, OrderedMap.insertAll]

theorem mem_latest {placed : List (String × InterfaceType)} {entry : String × Field}
    (h : entry ∈ (latest placed).entries) :
    entry.2.name = entry.1 ∧
      ∃ layer ∈ placed, ∃ p ∈ layer.2.properties, entry.2 = .ofProperty p layer.1 := by
  rw [latest_eq_ofList] at h
  obtain ⟨layer, hlayer, hin⟩ := List.mem_flatMap.mp (OrderedMap.mem_of_mem_ofList h)
  obtain ⟨p, hp, rfl⟩ := List.mem_map.mp hin
  exact ⟨rfl, layer, hlayer, p, hp, rfl⟩

theorem names_latest (placed : List (String × InterfaceType)) :
    (latest placed).values.map (·.name) = (fieldNames placed).eraseDups := by
  have hkeys : (latest placed).values.map (·.name) = (latest placed).keys := by
    rw [OrderedMap.values, OrderedMap.keys, List.map_map]
    exact List.map_congr_left fun entry hentry => (mem_latest hentry).1
  rw [hkeys, latest_eq_ofList, OrderedMap.keys_ofList, map_fst_fieldEntries]

theorem names_fields {start : String} {fields : List Field} (h : c.fields start = .ok fields)
    {visits : List Visit} {last : List String} (hrun : DepthFirst c [start] [] visits last) :
    fields.map (·.name) = (fieldNames (left visits)).eraseDups := by
  obtain rfl : c.visits start = visits := congrArg Prod.fst (depthFirst_iff.mp hrun)
  rw [(fields_eq_ok h).2, names_latest]

theorem nodup_names_fields {start : String} {fields : List Field}
    (h : c.fields start = .ok fields) : (fields.map (·.name)).Nodup := by
  obtain ⟨-, rfl⟩ := fields_eq_ok h
  exact OrderedMap.nodup_map_values fun entry hentry => (mem_latest hentry).1

theorem DepthFirst.left_eq_concat {start : String} {visits : List Visit} {last : List String}
    (h : DepthFirst c [start] [] visits last) (hok : ∀ fault, .fail fault ∉ visits) :
    ∃ before struct, c.struct start = .ok struct ∧ left visits = before ++ [(start, struct)] := by
  cases h with
  | again hseen => exact absurd hseen List.not_mem_nil
  | missing => exact absurd List.mem_cons_self (hok _)
  | @struct _ _ _ _ _ inner _ struct _ hstruct _ hrest =>
    cases hrest
    exact ⟨left inner, struct, hstruct, left_around start struct inner⟩

theorem own_field {start : String} {fields : List Field} (h : c.fields start = .ok fields)
    {own : Field} (hown : Defined c own) (hstart : own.definedIn = start) :
    ∃ field ∈ fields, field.name = own.name ∧ Defined c field ∧ field.definedIn = start := by
  obtain ⟨hok, rfl⟩ := fields_eq_ok h
  obtain ⟨last, hrun⟩ := depthFirst_visits c start
  obtain ⟨before, struct, hstruct, hleft⟩ := hrun.left_eq_concat hok
  have hlatest : latest (left (c.visits start)) = addFields start struct (latest before) := by
    rw [hleft, latest, List.foldl_append]
    rfl
  obtain ⟨p, hp, hname⟩ := hown.exists_property (hstart.symm ▸ hstruct)
  have hkey : own.name ∈ (latest (left (c.visits start))).keys := by
    rw [hlatest]
    exact mem_keys_addFields (.inl ⟨p, hp, hname⟩)
  obtain ⟨⟨name, field⟩, hentry, rfl⟩ := List.mem_map.mp hkey
  have hfind := OrderedMap.find?_eq_some_iff.mpr hentry
  rw [hlatest] at hfind
  rcases find?_addFields hfind with ⟨q, hq, hqname, rfl⟩ | ⟨hsilent, -⟩
  · exact ⟨_, List.mem_map_of_mem hentry, hqname, defined_ofProperty hstruct hq, rfl⟩
  · exact absurd hname (hsilent p hp)

/-- The fields of a constructor bear different names. In a hierarchy without cycles each one is a
most derived definition, in any hierarchy the struct's own definitions stand, and each name has the
place where a depth-first run first leaves a struct that declares it. -/
theorem fields_most_derived {start : String} {fields : List Field}
    (h : c.fields start = .ok fields) :
    (fields.map (·.name)).Nodup ∧
      (Acyclic c start → ∀ field ∈ fields, MostDerived c start field) ∧
      (∀ own, Defined c own → own.definedIn = start →
        ∃ field ∈ fields, field.name = own.name ∧ Defined c field ∧ field.definedIn = start) ∧
      ∃ visits last, DepthFirst c [start] [] visits last ∧
        fields.map (·.name) = (fieldNames (left visits)).eraseDups := by
  obtain ⟨last, hrun⟩ := depthFirst_visits c start
  exact ⟨nodup_names_fields h, fun hacyclic => (fields_spec hacyclic h).2.1,
    fun own => own_field h, c.visits start, last, hrun, names_fields h hrun⟩

def structEntry (fqn : String) (interfaces names : List String) : TypeEntry :=
  .interface { InterfaceType.ofFqn fqn with
    isData := true
    interfaces
    properties := names.map fun name => { name, type := .primitive .string } }

def assemblyOf (entries : List TypeEntry) : Assembly :=
  entries.foldl Assembly.withType (.ofModule "Acme" "1.0.0" "acme")

def diamond : Assembly :=
  assemblyOf [structEntry "Acme.Props" ["Acme.Left", "Acme.Right"] ["label"],
    structEntry "Acme.Left" ["Acme.Base"] ["size"],
    structEntry "Acme.Right" ["Acme.Base"] ["color"],
    structEntry "Acme.Base" [] ["label", "size"]]

def placeView (order : List String) (choice : Model × List Field × List Field) :
    Bool × List (String × String) :=
  (choice.1.isRanked order, choice.2.2.map fun field => (field.name, field.definedIn))

theorem placeView_diamond :
    (choices diamond "Acme.Props").toOption.map
        (placeView ["Acme.Base", "Acme.Left", "Acme.Right", "Acme.Props"]) =
      some (true, [("label", "Acme.Props"), ("size", "Acme.Left"), ("color", "Acme.Right")]) := by
  decide +kernel

theorem fields_most_derived_diamond :
    ∃ m fields, Model.build diamond [] = .ok m ∧ m.fields "Acme.Props" = .ok fields ∧
      fields.map (fun field => (field.name, field.definedIn)) =
        [("label", "Acme.Props"), ("size", "Acme.Left"), ("color", "Acme.Right")] ∧
      Acyclic m.toCatalog "Acme.Props" ∧
      (∀ field ∈ fields, MostDerived m.toCatalog "Acme.Props" field) ∧
      ∃ visits last, DepthFirst m.toCatalog ["Acme.Props"] [] visits last ∧
        fields.map (·.name) = (fieldNames (left visits)).eraseDups := by
  obtain ⟨⟨m, lifted, fields⟩, hchoices, hview⟩ := Outcome.exists_eq_ok_of_map placeView_diamond
  obtain ⟨hbuild, -, hfields⟩ := choices_eq_ok hchoices
  obtain ⟨hranked, hplaces⟩ := Prod.mk.inj hview
  have hacyclic := acyclic_of_isRanked hranked "Acme.Props"
  obtain ⟨-, hderived, -, hrun⟩ := fields_most_derived hfields
  exact ⟨m, fields, hbuild, hfields, hplaces, hacyclic, hderived hacyclic, hrun⟩

end Bindery.Catalog
