import Bindery.Api.Assembly
import Bindery.Proofs.Collection

/-!
# Encoding of assemblies

An assembly is written as JSON and read back as it was. Every record is a table of fields, each
written at most once: a field that has its default may be left out, and reading puts the default in
its place. Maps are written with their keys as fields; sorted maps come back sorted, and maps in
insertion order come back in that order.
-/

namespace Bindery

namespace Json

def slot (key : String) (value : Option Json) : Fields := value.toList.map (key, ·)

def record (slots : List (String × Option Json)) : Fields := slots.flatMap fun s => slot s.1 s.2

@[simp] theorem slot_none (key : String) : slot key none = [] := rfl

@[simp] theorem slot_some (key : String) (value : Json) : slot key (some value) = [(key, value)] :=
  rfl

@[simp] theorem record_nil : record [] = [] := rfl

@[simp] theorem record_cons (key : String) (value : Option Json)
    (slots : List (String × Option Json)) :
    record ((key, value) :: slots) = slot key value ++ record slots := rfl

@[simp] theorem record_append (slots slots' : List (String × Option Json)) :
    record (slots ++ slots') = record slots ++ record slots' :=
  List.flatMap_append

theorem filter_slot (key k : String) (value : Option Json) :
    (slot k value).filter (·.1 = key) = if k = key then slot k value else [] := by
  cases value with
  | none => simp [slot]
  | some value =>
    by_cases h : k = key
    · simp [slot, h]
    · simp [slot, h]

theorem filter_record_of_absent {key : String} {slots : List (String × Option Json)}
    (h : key ∉ slots.map Prod.fst) : (record slots).filter (·.1 = key) = [] := by
  induction slots with
  | nil => rfl
  | cons s slots ih =>
    rw [List.map_cons, List.mem_cons, not_or] at h
    rw [record_cons, List.filter_append, filter_slot, if_neg (Ne.symm h.1), ih h.2,
      List.append_nil]

theorem field?_record {slots : List (String × Option Json)} (h : (slots.map Prod.fst).Nodup)
    (key : String) : field? key (record slots) = some (slots.lookup key).join := by
  have hfilter : (record slots).filter (·.1 = key) = slot key (slots.lookup key).join := by
    induction slots with
    | nil => rfl
    | cons s slots ih =>
      obtain ⟨k, value⟩ := s
      rw [List.map_cons, List.nodup_cons] at h
      rw [record_cons, List.filter_append, filter_slot, List.lookup_cons]
      by_cases hkey : key = k
      · subst hkey
        rw [if_pos rfl, filter_record_of_absent h.1, List.append_nil]
        simp
      · rw [if_neg (Ne.symm hkey), List.nil_append, ih h.2]
        simp [beq_false_of_ne hkey]
  rw [field?, hfilter]
  cases (slots.lookup key).join with
  | none => rfl
  | some value => rfl

variable {α : Type}

/-- What is written is read back, and it is never null. -/
structure RoundTrip (write : α → Json) (read : Json → Option α) : Prop where
  read_write : ∀ x, read (write x) = some x
  ne_null : ∀ x, write x ≠ .null

theorem roundTrip_string : RoundTrip .string asString? where
  read_write _ := rfl
  ne_null text h := by cases h

def readOptional (read : Json → Option α) : Option Json → Option (Option α)
  | none => some none
  | some .null => some none
  | some value => (read value).map some

def readDefaulted (read : Json → Option α) (default : α) : Option Json → Option α
  | none => some default
  | some value => read value

@[simp] theorem readDefaulted_some (read : Json → Option α) (default : α) (value : Json) :
    readDefaulted read default (some value) = read value := rfl

@[simp] theorem asString?_string (text : String) : asString? (.string text) = some text := rfl

@[simp] theorem asBool?_bool (value : Bool) : asBool? (.bool value) = some value := rfl

@[simp] theorem asFields?_object (fields : Fields) : asFields? (.object fields) = some fields := rfl

section Reading

variable {slots : List (String × Option Json)} (h : (slots.map Prod.fst).Nodup)
  (read : Json → Option α) (key : String)

include h

theorem required_record : required key read (record slots) = (slots.lookup key).join.bind read := by
  rw [required, field?_record h]
  cases (slots.lookup key).join with
  | none => rfl
  | some value => rfl

theorem defaulted_record (default : α) :
    defaulted key read default (record slots) =
      readDefaulted read default (slots.lookup key).join := by
  rw [defaulted, field?_record h]
  cases (slots.lookup key).join with
  | none => rfl
  | some value => rfl

theorem optional_record :
    optional key read (record slots) = readOptional read (slots.lookup key).join := by
  rw [optional, field?_record h]
  cases (slots.lookup key).join with
  | none => rfl
  | some value => cases value <;> rfl

end Reading

namespace RoundTrip

variable {write : α → Json} {read : Json → Option α} (h : RoundTrip write read)

include h

theorem readOptional_map (x : Option α) : readOptional read (x.map write) = some x := by
  cases x with
  | none => rfl
  | some x =>
    have hread := h.read_write x
    have hnull := h.ne_null x
    rw [Option.map_some]
    generalize write x = value at hread hnull
    cases value with
    | null => exact absurd rfl hnull
    | _ => exact congrArg (Option.map some) hread

theorem asList?_array (xs : List α) : asList? read (.array (xs.map write)) = some xs := by
  rw [asList?]
  induction xs with
  | nil => rfl
  | cons x xs ih => simp [h.read_write, ih]

theorem asEntries?_object (entries : List (String × α)) :
    asEntries? read (.object (entries.map fun (key, x) => (key, write x))) = some entries := by
  rw [asEntries?]
  induction entries with
  | nil => rfl
  | cons entry entries ih => simp [h.read_write, ih]

end RoundTrip

end Json

namespace Api

open Json

def flagSlot (flag : Bool) : Option Json := if flag then some (.bool true) else none

def listSlot (items : List Json) : Option Json :=
  if items.isEmpty then none else some (.array items)

@[simp] theorem textField_eq (key : String) (text : Option String) :
    Docs.textField key text = slot key (text.map .string) := by
  cases text <;> rfl

@[simp] theorem docsField_eq (docs : Option Docs) :
    docsField docs = slot "docs" (docs.map Docs.toJson) := by
  cases docs <;> rfl

@[simp] theorem flagField_eq (key : String) (flag : Bool) :
    flagField key flag = slot key (flagSlot flag) := by
  cases flag <;> rfl

@[simp] theorem listField_eq (key : String) (items : List Json) :
    listField key items = slot key (listSlot items) := by
  cases items <;> rfl

@[simp] theorem readme_toFields_eq (readme : Option Readme) :
    Readme.toFields readme = slot "readme" (readme.map Readme.toJson) := by
  cases readme <;> rfl

@[simp] theorem readDefaulted_flagSlot (flag : Bool) :
    readDefaulted asBool? false (flagSlot flag) = some flag := by
  cases flag <;> rfl

theorem readDefaulted_listSlot {α : Type} {write : α → Json} {read : Json → Option α}
    (h : RoundTrip write read) (xs : List α) :
    readDefaulted (asList? read) [] (listSlot (xs.map write)) = some xs := by
  cases xs with
  | nil => rfl
  | cons x xs => exact h.asList?_array (x :: xs)

namespace TypeRef

mutual

theorem read_toJson (t : TypeRef) (fuel : Nat) (h : t.toJson.depth < fuel) :
    read fuel t.toJson = some t := by
  obtain ⟨fuel, rfl⟩ : ∃ n, fuel = n + 1 := ⟨fuel - 1, by omega⟩
  match t with
  | .primitive p =>
    simp [toJson, read, asFields?, readPrimitive, required, field?, asWord?, Primitive.ofWord?_word]
  | .collection kind element =>
    have helement : element.toJson.depth < fuel := by
      simp only [toJson, depth, depthFields] at h
      omega
    simp [toJson, read, asFields?, readPrimitive, readCollection, required, field?, asWord?,
      CollectionKind.ofWord?_word, read_toJson element fuel helement]
  | .union options =>
    have hoptions : depthItems (toJsons options) < fuel := by
      simp only [toJson, depth, depthFields] at h
      omega
    simp [toJson, read, asFields?, readPrimitive, readCollection, readUnion, required, field?,
      asList?, mapM_toJsons options fuel hoptions]
  | .named fqn =>
    simp [toJson, read, asFields?, readPrimitive, readCollection, readUnion, readNamed, required,
      field?, asString?]

theorem mapM_toJsons (ts : List TypeRef) (fuel : Nat) (h : depthItems (toJsons ts) < fuel) :
    (toJsons ts).mapM (read fuel) = some ts := by
  match ts with
  | [] => rfl
  | t :: ts =>
    simp only [toJsons, depthItems] at h
    simp [toJsons, read_toJson t fuel (by omega), mapM_toJsons ts fuel (by omega)]

end

theorem roundTrip : RoundTrip toJson ofJson? where
  read_write t := read_toJson t _ (Nat.lt_succ_self _)
  ne_null t h := by cases t <;> simp [toJson] at h

end TypeRef

namespace Docs

def customSlot (custom : OrderedMap String) : Option Json :=
  if custom.isEmpty then none
  else some (.object (custom.entries.map fun (key, text) => (key, .string text)))

def slots (docs : Docs) : List (String × Option Json) := [
  ("summary", docs.summary.map .string), ("remarks", docs.remarks.map .string),
  ("returns", docs.returns.map .string), ("default", docs.default.map .string),
  ("deprecated", docs.deprecated.map .string), ("example", docs.sample.map .string),
  ("see", docs.see.map .string), ("stability", docs.stability.map fun s => .string s.word),
  ("subclassable", flagSlot docs.subclassable), ("custom", customSlot docs.custom)]

theorem toJson_eq (docs : Docs) : docs.toJson = .object (record docs.slots) := by
  have hflag := flagField_eq "subclassable" docs.subclassable
  have hcustom : ∀ entries : Json,
      (if docs.custom.isEmpty then ([] : Fields) else [("custom", entries)]) =
        slot "custom" (if docs.custom.isEmpty then none else some entries) := by
    intro entries
    cases docs.custom.isEmpty <;> rfl
  rw [flagField] at hflag
  simp [toJson, slots, customSlot, hcustom, hflag, Function.comp_def]

theorem readDefaulted_customSlot (custom : OrderedMap String) :
    readDefaulted (asEntries? asString?) [] (customSlot custom) = some custom.entries := by
  rw [customSlot]
  by_cases hempty : custom.isEmpty = true
  · rw [if_pos hempty]
    exact congrArg some (List.isEmpty_iff.mp hempty).symm
  · rw [if_neg hempty]
    exact roundTrip_string.asEntries?_object _

theorem roundTrip_read {word : Json → Option String}
    (hword : ∀ text, word (.string text) = some text) : RoundTrip toJson (read word) where
  read_write docs := by
    have hkeys : (docs.slots.map Prod.fst).Nodup := by simp [slots]
    have hstability : RoundTrip (fun s : Stability => .string s.word)
        (fun value => (word value).bind Stability.ofWord?) :=
      ⟨fun s => by simp [hword, Stability.ofWord?_word], fun s h => by cases h⟩
    rw [toJson_eq]
    simp only [read, asFields?_object, Option.bind_eq_bind, Option.bind_some,
      optional_record hkeys, defaulted_record hkeys]
    simp [slots, List.lookup_cons, roundTrip_string.readOptional_map, hstability.readOptional_map,
      readDefaulted_customSlot, OrderedMap.ofList_entries]
  ne_null docs h := by cases h

theorem roundTrip : RoundTrip toJson ofJson? := roundTrip_read fun _ => rfl

theorem roundTrip_type : RoundTrip toJson ofTypeJson? := roundTrip_read fun _ => rfl

end Docs

namespace Parameter

def slots (p : Parameter) : List (String × Option Json) := [
  ("name", some (.string p.name)), ("type", some p.type.toJson),
  ("optional", flagSlot p.optional), ("variadic", flagSlot p.variadic),
  ("docs", p.docs.map Docs.toJson)]

theorem toJson_eq (p : Parameter) : p.toJson = .object (record p.slots) := by
  simp [toJson, slots]

theorem roundTrip : RoundTrip toJson ofJson? where
  read_write p := by
    have hkeys : (p.slots.map Prod.fst).Nodup := by simp [slots]
    rw [toJson_eq]
    simp only [ofJson?, asFields?_object, Option.bind_eq_bind, Option.bind_some, readFlag?,
      readDocs?, required_record hkeys, optional_record hkeys, defaulted_record hkeys]
    simp [slots, List.lookup_cons, TypeRef.roundTrip.read_write,
      Docs.roundTrip_type.readOptional_map]
  ne_null p h := by cases h

end Parameter

namespace Returns

def slots (r : Returns) : List (String × Option Json) := [
  ("type", some r.type.toJson), ("optional", flagSlot r.optional)]

theorem toJson_eq (r : Returns) : r.toJson = .object (record r.slots) := by
  simp [toJson, slots]

theorem roundTrip : RoundTrip toJson ofJson? where
  read_write r := by
    have hkeys : (r.slots.map Prod.fst).Nodup := by simp [slots]
    rw [toJson_eq]
    simp only [ofJson?, asFields?_object, Option.bind_eq_bind, Option.bind_some, readFlag?,
      required_record hkeys, defaulted_record hkeys]
    simp [slots, List.lookup_cons, TypeRef.roundTrip.read_write]
  ne_null r h := by cases h

end Returns

namespace Method

def slots (m : Method) : List (String × Option Json) := [
  ("name", some (.string m.name)), ("parameters", listSlot (m.parameters.map Parameter.toJson)),
  ("returns", m.returns.map Returns.toJson), ("static", some (.bool m.isStatic)),
  ("abstract", some (.bool m.isAbstract)), ("async", some (.bool m.isAsync)),
  ("protected", some (.bool m.isProtected)), ("docs", m.docs.map Docs.toJson)]

theorem toJson_eq (m : Method) : m.toJson = .object (record m.slots) := by
  cases hreturns : m.returns <;> simp [toJson, slots, hreturns]

theorem roundTrip : RoundTrip toJson ofJson? where
  read_write m := by
    have hkeys : (m.slots.map Prod.fst).Nodup := by simp [slots]
    rw [toJson_eq]
    simp only [ofJson?, asFields?_object, Option.bind_eq_bind, Option.bind_some, readFlag?,
      readDocs?, readList?, required_record hkeys, optional_record hkeys, defaulted_record hkeys]
    simp [slots, List.lookup_cons, readDefaulted_listSlot Parameter.roundTrip,
      Returns.roundTrip.readOptional_map, Docs.roundTrip_type.readOptional_map]
  ne_null m h := by cases h

end Method

namespace Property

def slots (p : Property) : List (String × Option Json) := [
  ("name", some (.string p.name)), ("type", some p.type.toJson),
  ("optional", flagSlot p.optional), ("immutable", flagSlot p.immutable),
  ("static", some (.bool p.isStatic)), ("abstract", some (.bool p.isAbstract)),
  ("const", some (.bool p.isConst)), ("protected", some (.bool p.isProtected)),
  ("docs", p.docs.map Docs.toJson)]

theorem toJson_eq (p : Property) : p.toJson = .object (record p.slots) := by
  simp [toJson, slots]

theorem roundTrip : RoundTrip toJson ofJson? where
  read_write p := by
    have hkeys : (p.slots.map Prod.fst).Nodup := by simp [slots]
    rw [toJson_eq]
    simp only [ofJson?, asFields?_object, Option.bind_eq_bind, Option.bind_some, readFlag?,
      readDocs?, required_record hkeys, optional_record hkeys, defaulted_record hkeys]
    simp [slots, List.lookup_cons, TypeRef.roundTrip.read_write,
      Docs.roundTrip_type.readOptional_map]
  ne_null p h := by cases h

end Property

namespace Initializer

def slots (i : Initializer) : List (String × Option Json) := [
  ("parameters", some (.array (i.parameters.map Parameter.toJson))),
  ("docs", i.docs.map Docs.toJson)]

theorem toJson_eq (i : Initializer) : i.toJson = .object (record i.slots) := by
  simp [toJson, slots]

theorem roundTrip : RoundTrip toJson ofJson? where
  read_write i := by
    have hkeys : (i.slots.map Prod.fst).Nodup := by simp [slots]
    rw [toJson_eq]
    simp only [ofJson?, asFields?_object, Option.bind_eq_bind, Option.bind_some, readDocs?,
      readList?, optional_record hkeys, defaulted_record hkeys]
    simp [slots, List.lookup_cons, Parameter.roundTrip.asList?_array,
      Docs.roundTrip_type.readOptional_map]
  ne_null i h := by cases h

end Initializer

namespace EnumValue

def slots (v : EnumValue) : List (String × Option Json) := [
  ("name", some (.string v.name)), ("docs", v.docs.map Docs.toJson)]

theorem toJson_eq (v : EnumValue) : v.toJson = .object (record v.slots) := by
  simp [toJson, slots]

theorem roundTrip : RoundTrip toJson ofJson? where
  read_write v := by
    have hkeys : (v.slots.map Prod.fst).Nodup := by simp [slots]
    rw [toJson_eq]
    simp only [ofJson?, asFields?_object, Option.bind_eq_bind, Option.bind_some, readDocs?,
      required_record hkeys, optional_record hkeys]
    simp [slots, List.lookup_cons, Docs.roundTrip_type.readOptional_map]
  ne_null v h := by cases h

end EnumValue

namespace Header

def slots (h : Header) (own : List (String × Option Json)) : List (String × Option Json) :=
  [("fqn", some (.string h.fqn)), ("assembly", some (.string h.assembly)),
    ("name", some (.string h.name)), ("namespace", h.enclosing?.map .string)] ++ own ++
  [("docs", h.docs.map Docs.toJson)]

theorem ofFields?_record {h : Header} {table : List (String × Option Json)}
    (hkeys : (table.map Prod.fst).Nodup) (hslots : h.slots [] ⊆ table) :
    ofFields? (record table) = some h := by
  have hlookup : ∀ s ∈ h.slots [], table.lookup s.1 = some s.2 := by
    intro s hin
    exact (lookup_eq_some_iff_mem hkeys).mpr (hslots hin)
  simp only [slots, List.append_nil, List.cons_append, List.nil_append,
    List.forall_mem_cons] at hlookup
  obtain ⟨hfqn, hassembly, hname, hnamespace, hdocs, -⟩ := hlookup
  simp only [ofFields?, readDocs?, required_record hkeys, optional_record hkeys, hfqn, hassembly,
    hname, hnamespace, hdocs]
  simp [roundTrip_string.readOptional_map, Docs.roundTrip_type.readOptional_map]

end Header

namespace ClassType

def slots (c : ClassType) : List (String × Option Json) :=
  ("kind", some (.string "class")) :: c.toHeader.slots [
    ("base", c.base.map .string), ("interfaces", listSlot (c.interfaces.map .string)),
    ("abstract", some (.bool c.isAbstract)), ("initializer", c.initializer.map Initializer.toJson),
    ("methods", listSlot (c.methods.map Method.toJson)),
    ("properties", listSlot (c.properties.map Property.toJson))]

theorem distinct_slots (c : ClassType) : (c.slots.map Prod.fst).Nodup := by
  simp [slots, Header.slots]

theorem toJson_eq (c : ClassType) : (TypeEntry.class c).toJson = .object (record c.slots) := by
  cases hinitializer : c.initializer <;>
    simp [TypeEntry.toJson, toFields, Header.toFields, slots, Header.slots, hinitializer]

theorem ofFields?_slots (c : ClassType) : ofFields? (record c.slots) = some c := by
  have hheader : Header.ofFields? (record c.slots) = some c.toHeader :=
    Header.ofFields?_record c.distinct_slots (by simp [slots, Header.slots])
  simp only [ofFields?, hheader, Option.bind_eq_bind, Option.bind_some, readFlag?, readList?,
    optional_record c.distinct_slots, defaulted_record c.distinct_slots]
  simp [slots, Header.slots, List.lookup_cons, roundTrip_string.readOptional_map,
    readDefaulted_listSlot roundTrip_string, Initializer.roundTrip.readOptional_map,
    readDefaulted_listSlot Method.roundTrip, readDefaulted_listSlot Property.roundTrip]

end ClassType

namespace InterfaceType

def slots (i : InterfaceType) : List (String × Option Json) :=
  ("kind", some (.string "interface")) :: i.toHeader.slots [
    ("interfaces", listSlot (i.interfaces.map .string)), ("datatype", flagSlot i.isData),
    ("methods", listSlot (i.methods.map Method.toJson)),
    ("properties", listSlot (i.properties.map Property.toJson))]

theorem distinct_slots (i : InterfaceType) : (i.slots.map Prod.fst).Nodup := by
  simp [slots, Header.slots]

theorem toJson_eq (i : InterfaceType) :
    (TypeEntry.interface i).toJson = .object (record i.slots) := by
  simp [TypeEntry.toJson, toFields, Header.toFields, slots, Header.slots]

theorem ofFields?_slots (i : InterfaceType) : ofFields? (record i.slots) = some i := by
  have hheader : Header.ofFields? (record i.slots) = some i.toHeader :=
    Header.ofFields?_record i.distinct_slots (by simp [slots, Header.slots])
  simp only [ofFields?, hheader, Option.bind_eq_bind, Option.bind_some, readFlag?, readList?,
    defaulted_record i.distinct_slots]
  simp [slots, Header.slots, List.lookup_cons, readDefaulted_listSlot roundTrip_string,
    readDefaulted_listSlot Method.roundTrip, readDefaulted_listSlot Property.roundTrip]

end InterfaceType

namespace EnumType

def slots (e : EnumType) : List (String × Option Json) :=
  ("kind", some (.string "enum")) :: e.toHeader.slots [
    ("members", some (.array (e.values.map EnumValue.toJson)))]

theorem distinct_slots (e : EnumType) : (e.slots.map Prod.fst).Nodup := by
  simp [slots, Header.slots]

theorem toJson_eq (e : EnumType) : (TypeEntry.enum e).toJson = .object (record e.slots) := by
  simp [TypeEntry.toJson, toFields, Header.toFields, slots, Header.slots]

theorem ofFields?_slots (e : EnumType) : ofFields? (record e.slots) = some e := by
  have hheader : Header.ofFields? (record e.slots) = some e.toHeader :=
    Header.ofFields?_record e.distinct_slots (by simp [slots, Header.slots])
  simp only [ofFields?, hheader, Option.bind_eq_bind, Option.bind_some, readList?,
    defaulted_record e.distinct_slots]
  simp [slots, Header.slots, List.lookup_cons, EnumValue.roundTrip.asList?_array]

end EnumType

theorem TypeEntry.roundTrip : RoundTrip toJson ofJson? where
  read_write entry := by
    cases entry with
    | «class» c =>
      have hkind : required "kind" asString? (record c.slots) = some "class" := by
        rw [required_record c.distinct_slots]
        simp [ClassType.slots]
      simp only [c.toJson_eq, ofJson?, asFields?_object, Option.bind_eq_bind, Option.bind_some,
        hkind, c.ofFields?_slots]
      rfl
    | interface i =>
      have hkind : required "kind" asString? (record i.slots) = some "interface" := by
        rw [required_record i.distinct_slots]
        simp [InterfaceType.slots]
      simp only [i.toJson_eq, ofJson?, asFields?_object, Option.bind_eq_bind, Option.bind_some,
        hkind, i.ofFields?_slots]
      rfl
    | enum e =>
      have hkind : required "kind" asString? (record e.slots) = some "enum" := by
        rw [required_record e.distinct_slots]
        simp [EnumType.slots]
      simp only [e.toJson_eq, ofJson?, asFields?_object, Option.bind_eq_bind, Option.bind_some,
        hkind, e.ofFields?_slots]
      rfl
  ne_null entry h := by cases entry <;> cases h

namespace PythonTarget

def slots (t : PythonTarget) : List (String × Option Json) := [
  ("module", some (.string t.module)), ("distName", t.distribution.map .string)]

theorem toJson_eq (t : PythonTarget) : t.toJson = .object (record t.slots) := by
  simp [toJson, slots]

theorem roundTrip : RoundTrip toJson ofJson? where
  read_write t := by
    have hkeys : (t.slots.map Prod.fst).Nodup := by simp [slots]
    rw [toJson_eq]
    simp only [ofJson?, asFields?_object, Option.bind_eq_bind, Option.bind_some,
      required_record hkeys, optional_record hkeys]
    simp [slots, List.lookup_cons, roundTrip_string.readOptional_map]
  ne_null t h := by cases h

end PythonTarget

namespace Targets

def slots (t : Targets) : List (String × Option Json) := [
  ("python", t.python.map PythonTarget.toJson)]

theorem toJson_eq (t : Targets) : t.toJson = .object (record t.slots) := by
  cases hpython : t.python <;> simp [toJson, slots, hpython]

theorem roundTrip : RoundTrip toJson ofJson? where
  read_write t := by
    have hkeys : (t.slots.map Prod.fst).Nodup := by simp [slots]
    rw [toJson_eq]
    simp only [ofJson?, asFields?_object, Option.bind_eq_bind, Option.bind_some,
      optional_record hkeys]
    simp [slots, PythonTarget.roundTrip.readOptional_map]
  ne_null t h := by cases h

end Targets

theorem Readme.roundTrip : RoundTrip toJson ofJson? where
  read_write readme := by simp [toJson, ofJson?, required, field?]
  ne_null readme h := by cases h

namespace Submodule

def slots (s : Submodule) : List (String × Option Json) := [
  ("targets", some s.targets.toJson), ("readme", s.readme.map Readme.toJson)]

theorem toJson_eq (s : Submodule) : s.toJson = .object (record s.slots) := by
  simp [toJson, slots]

theorem roundTrip : RoundTrip toJson ofJson? where
  read_write s := by
    have hkeys : (s.slots.map Prod.fst).Nodup := by simp [slots]
    rw [toJson_eq]
    simp only [ofJson?, asFields?_object, Option.bind_eq_bind, Option.bind_some, Targets.read?,
      Readme.read?, optional_record hkeys, defaulted_record hkeys]
    simp [slots, List.lookup_cons, Targets.roundTrip.read_write, Readme.roundTrip.readOptional_map]
  ne_null s h := by cases h

end Submodule

theorem asEntries?_submodules (submodules : SortedMap Submodule) :
    asEntries? Submodule.ofJson? (submodulesToJson submodules) = some submodules.entries :=
  Submodule.roundTrip.asEntries?_object _

namespace DependencyTargets

def slots (d : DependencyTargets) : List (String × Option Json) := [
  ("targets", some d.targets.toJson), ("submodules", some (submodulesToJson d.submodules))]

theorem toJson_eq (d : DependencyTargets) : d.toJson = .object (record d.slots) := rfl

theorem roundTrip : RoundTrip toJson ofJson? where
  read_write d := by
    have hkeys : (d.slots.map Prod.fst).Nodup := by simp [slots]
    rw [toJson_eq]
    simp only [ofJson?, asFields?_object, Option.bind_eq_bind, Option.bind_some, Targets.read?,
      readSubmodules?, defaulted_record hkeys]
    simp [slots, List.lookup_cons, Targets.roundTrip.read_write, asEntries?_submodules,
      SortedMap.ofList_entries]
  ne_null d h := by cases h

end DependencyTargets

namespace Assembly

def slots (a : Assembly) : List (String × Option Json) := [
  ("name", some (.string a.name)), ("version", some (.string a.version)),
  ("description", a.description.map .string), ("docs", a.docs.map Docs.toJson),
  ("readme", a.readme.map Readme.toJson), ("targets", some a.targets.toJson),
  ("submodules", some (submodulesToJson a.submodules)),
  ("dependencies",
    some (.object (a.dependencies.entries.map fun (name, version) => (name, .string version)))),
  ("dependencyClosure", some (closureToJson a.closure)),
  ("types", some (.object (a.types.entries.map fun (fqn, entry) => (fqn, entry.toJson))))]

theorem toJson_eq (a : Assembly) : a.toJson = .object (record a.slots) := by
  simp [toJson, slots]

theorem ofJson?_toJson (a : Assembly) : ofJson? a.toJson = some a := by
  have hkeys : (a.slots.map Prod.fst).Nodup := by simp [slots]
  have hdependencies := roundTrip_string.asEntries?_object a.dependencies.entries
  have hclosure : asEntries? DependencyTargets.ofJson? (closureToJson a.closure) =
      some a.closure.entries := DependencyTargets.roundTrip.asEntries?_object _
  have htypes := TypeEntry.roundTrip.asEntries?_object a.types.entries
  rw [toJson_eq]
  simp only [ofJson?, asFields?_object, Option.bind_eq_bind, Option.bind_some, Targets.read?,
    Readme.read?, readSubmodules?, required_record hkeys, optional_record hkeys,
    defaulted_record hkeys]
  simp [slots, List.lookup_cons, roundTrip_string.readOptional_map, Docs.roundTrip.readOptional_map,
    Readme.roundTrip.readOptional_map, Targets.roundTrip.read_write, asEntries?_submodules,
    hdependencies, hclosure, htypes, SortedMap.ofList_entries, OrderedMap.ofList_entries]

end Assembly

end Api

end Bindery
