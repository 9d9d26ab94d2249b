import Bindery.Proofs.BaseWalks
import Bindery.Model.Build

/-!
# Choice between definitions of a field

Several structs of a hierarchy may declare a field of one name. The fields that stand for a struct
among the parameters of a method are nearest definitions: no other one is fewer steps away. The
fields that the constructor of the struct takes are most derived ones: no struct that declares the
field again inherits from theirs. Both walks find fields of the same names, and they agree on a
type where the nearest definitions and the most derived ones do. Two bases that declare a field
each in its own way are both nearest and most derived, and there they do not agree.
-/

namespace Bindery.Catalog

open Api

variable {c : Catalog}

def Defined (c : Catalog) (field : Field) : Prop :=
  ∃ struct, c.struct field.definedIn = .ok struct ∧
    ∃ p ∈ struct.properties, field = .ofProperty p field.definedIn

theorem defined_ofProperty {fqn : String} {struct : InterfaceType}
    (hstruct : c.struct fqn = .ok struct) {p : Property} (hp : p ∈ struct.properties) :
    Defined c (.ofProperty p fqn) :=
  ⟨struct, hstruct, p, hp, rfl⟩

theorem Defined.exists_property {field : Field} (h : Defined c field) {struct : InterfaceType}
    (hstruct : c.struct field.definedIn = .ok struct) :
    ∃ p ∈ struct.properties, p.name = field.name := by
  obtain ⟨found, hfound, p, hp, hfield⟩ := h
  obtain rfl := Except.ok.inj (hstruct.symm.trans hfound)
  exact ⟨p, hp, (congrArg Field.name hfield).symm⟩

/-- A definition that is reached in the least number of steps. -/
def Nearest (c : Catalog) (start : String) (field : Field) : Prop :=
  Defined c field ∧ ∃ depth, Reaches c start depth field.definedIn ∧
    ∀ other depth', Defined c other → other.name = field.name →
      Reaches c start depth' other.definedIn → depth ≤ depth'

/-- A definition that no struct below the declaring one declares again. -/
def MostDerived (c : Catalog) (start : String) (field : Field) : Prop :=
  Defined c field ∧ Inherits c start field.definedIn ∧
    ∀ other, Defined c other → other.name = field.name → Inherits c start other.definedIn →
      Inherits c other.definedIn field.definedIn → other.definedIn = field.definedIn

def latest (placed : List (String × InterfaceType)) : OrderedMap Field :=
  placed.foldl (fun fields struct => addFields struct.1 struct.2 fields) .empty

theorem fields_eq_ok {start : String} {fields : List Field} (h : c.fields start = .ok fields) :
    (∀ fault, .fail fault ∉ c.visits start) ∧ fields = (latest (left (c.visits start))).values := by
  simp only [Catalog.fields, Outcome.bind_eq_ok, Outcome.pure_eq_ok] at h
  obtain ⟨found, hfound, rfl⟩ := h
  rw [latest]
  generalize c.visits start = visits at hfound ⊢
  generalize OrderedMap.empty = before at hfound ⊢
  induction visits generalizing before with
  | nil =>
    obtain rfl := Except.ok.inj hfound
    exact ⟨fun _ => List.not_mem_nil, rfl⟩
  | cons visit visits ih =>
    rw [List.foldlM_cons, Outcome.bind_eq_ok] at hfound
    obtain ⟨next, hnext, hrest⟩ := hfound
    obtain ⟨hok, hvalues⟩ := ih next hrest
    cases visit with
    | enter fqn struct =>
      obtain rfl := Except.ok.inj hnext
      exact ⟨fun fault => by simp [hok fault], hvalues⟩
    | leave fqn struct =>
      obtain rfl := Except.ok.inj hnext
      exact ⟨fun fault => by simp [hok fault], hvalues⟩
    | fail fault => cases hnext

theorem addFields_eq (fqn : String) (struct : InterfaceType) (fields : OrderedMap Field) :
    addFields fqn struct fields =
      fields.insertAll (struct.properties.map fun p => (p.name, .ofProperty p fqn)) := by
  rw [addFields, OrderedMap.insertAll, List.foldl_map]

theorem find?_addFields {fqn name : String} {struct : InterfaceType} {fields : OrderedMap Field}
    {field : Field} (h : (addFields fqn struct fields).find? name = some field) :
    (∃ p ∈ struct.properties, p.name = name ∧ field = .ofProperty p fqn) ∨
      (∀ p ∈ struct.properties, p.name ≠ name) ∧ fields.find? name = some field := by
  rw [addFields_eq, OrderedMap.find?_insertAll, ← List.map_reverse] at h
  cases hown : (struct.properties.reverse.map fun p =>
      (p.name, Field.ofProperty p fqn)).lookup name with
  | none =>
    rw [hown, Option.none_or] at h
    refine .inr ⟨fun p hp hname => ?_, h⟩
    have hne := List.lookup_eq_none_iff.mp hown (p.name, .ofProperty p fqn)
      (List.mem_map.mpr ⟨p, List.mem_reverse.mpr hp, rfl⟩)
    simp [hname] at hne
  | some found =>
    rw [hown, Option.some_or] at h
    obtain rfl := Option.some.inj h
    obtain ⟨before, behind, hsplit, -⟩ := List.lookup_eq_some_iff.mp hown
    have hin : (name, found) ∈ struct.properties.reverse.map fun p =>
        (p.name, Field.ofProperty p fqn) := by
      rw [hsplit]
      exact List.mem_append_right _ List.mem_cons_self
    obtain ⟨p, hp, heq⟩ := List.mem_map.mp hin
    obtain ⟨hname, hfield⟩ := Prod.mk.inj heq
    exact .inl ⟨p, List.mem_reverse.mp hp, hname, hfield.symm⟩

theorem mem_keys_addFields {fqn : String} {struct : InterfaceType} {fields : OrderedMap Field}
    {name : String} (h : (∃ p ∈ struct.properties, p.name = name) ∨ name ∈ fields.keys) :
    name ∈ (addFields fqn struct fields).keys := by
  rw [← OrderedMap.contains_iff, OrderedMap.contains, addFields_eq, OrderedMap.find?_insertAll,
    Option.isSome_or, Bool.or_eq_true, lookup_isSome_iff_mem_keys]
  rcases h with ⟨p, hp, rfl⟩ | hkey
  · left
    simp only [List.mem_map, List.mem_reverse]
    exact ⟨(p.name, .ofProperty p fqn), ⟨p, hp, rfl⟩, rfl⟩
  · exact .inr (OrderedMap.contains_iff.mpr hkey)

theorem BasesFirst.mem_keys_latest {placed : List (String × InterfaceType)}
    (h : BasesFirst c placed) {field : Field} (hfield : Defined c field)
    (hin : field.definedIn ∈ placed.map Prod.fst) : field.name ∈ (latest placed).keys := by
  induction h with
  | nil => exact absurd hin List.not_mem_nil
  | snoc _ _ hstruct _ ih =>
    rw [latest, List.foldl_append]
    apply mem_keys_addFields
    rcases mem_names_snoc.mp hin with hbefore | hlast
    · exact .inr (ih hbefore)
    · exact .inl (hfield.exists_property (hlast ▸ hstruct))

theorem BasesFirst.find?_latest {placed : List (String × InterfaceType)} (h : BasesFirst c placed)
    {name : String} {field : Field} (hfield : (latest placed).find? name = some field) :
    field.name = name ∧ Defined c field ∧ field.definedIn ∈ placed.map Prod.fst ∧
      ∀ other, Defined c other → other.name = name → other.definedIn ∈ placed.map Prod.fst →
        Inherits c other.definedIn field.definedIn → other.definedIn = field.definedIn := by
  induction h with
  | nil => cases hfield
  | @snoc placed fqn struct h hnew hstruct _ ih =>
    rw [latest, List.foldl_append] at hfield
    simp only [mem_names_snoc]
    rcases find?_addFields hfield with ⟨p, hp, hname, rfl⟩ | ⟨hsilent, hbefore⟩
    · refine ⟨hname, defined_ofProperty hstruct hp, .inr rfl, ?_⟩
      intro other _ _ hother hinherits
      rcases hother with hplaced | hlast
      · exact absurd (h.mem_of_inherits hplaced hinherits) hnew
      · exact hlast
    · obtain ⟨hname, hdefined, hin, hlatest⟩ := ih hbefore
      refine ⟨hname, hdefined, .inl hin, ?_⟩
      intro other hdefinedOther hnameOther hother hinherits
      rcases hother with hplaced | hlast
      · exact hlatest other hdefinedOther hnameOther hplaced hinherits
      · obtain ⟨p, hp, hpname⟩ := hdefinedOther.exists_property (hlast ▸ hstruct)
        exact absurd (hpname.trans hnameOther) (hsilent p hp)

theorem fields_spec {start : String} (hacyclic : Acyclic c start) {fields : List Field}
    (h : c.fields start = .ok fields) :
    (fields.map (·.name)).Nodup ∧ (∀ field ∈ fields, MostDerived c start field) ∧
      ∀ other, Defined c other → Inherits c start other.definedIn →
        other.name ∈ fields.map (·.name) := by
  obtain ⟨hok, rfl⟩ := fields_eq_ok h
  obtain ⟨hfirst, hall⟩ := basesFirst_visits hacyclic hok
  have hfind : ∀ entry ∈ (latest (left (c.visits start))).entries,
      (latest (left (c.visits start))).find? entry.1 = some entry.2 := by
    intro entry hentry
    exact OrderedMap.find?_eq_some_iff.mpr hentry
  have hname : ∀ entry ∈ (latest (left (c.visits start))).entries, entry.2.name = entry.1 :=
    fun entry hentry => (hfirst.find?_latest (hfind entry hentry)).1
  refine ⟨OrderedMap.nodup_map_values hname, fun field hfield => ?_, fun other hother hin => ?_⟩
  · obtain ⟨entry, hentry, rfl⟩ := List.mem_map.mp hfield
    obtain ⟨heq, hdefined, hplaced, hlatest⟩ := hfirst.find?_latest (hfind entry hentry)
    refine ⟨hdefined, (hall _).mp hplaced, fun other hother hsame hin => ?_⟩
    exact hlatest other hother (hsame.trans heq) ((hall _).mpr hin)
  · have hkeys := hfirst.mem_keys_latest hother ((hall _).mpr hin)
    obtain ⟨entry, hentry, hkey⟩ := List.mem_map.mp hkeys
    refine List.mem_map.mpr ⟨entry.2, List.mem_map.mpr ⟨entry, hentry, rfl⟩, ?_⟩
    exact (hname entry hentry).trans hkey

theorem nodup_addNewFields {fields : List Field} (h : (fields.map (·.name)).Nodup)
    (layer : String × InterfaceType) : ((addNewFields fields layer).map (·.name)).Nodup := by
  rw [addNewFields]
  generalize layer.2.properties = properties
  induction properties generalizing fields with
  | nil => exact h
  | cons p properties ih =>
    rw [List.foldl_cons]
    split
    · exact ih h
    · rename_i hnew
      apply ih
      rw [List.map_append, List.map_cons, List.map_nil, ← List.concat_eq_append, List.nodup_concat]
      exact ⟨fun hname => hnew (any_name_iff.mpr hname), h⟩

theorem mem_names_addNewFields {fields : List Field} {layer : String × InterfaceType}
    {name : String}
    (h : (∃ p ∈ layer.2.properties, p.name = name) ∨ name ∈ fields.map (·.name)) :
    name ∈ (addNewFields fields layer).map (·.name) := by
  rw [addNewFields]
  generalize layer.2.properties = properties at h ⊢
  induction properties generalizing fields with
  | nil => simpa using h
  | cons p properties ih =>
    rw [List.foldl_cons]
    apply ih
    rcases h with ⟨q, hq, rfl⟩ | hold
    · rcases List.mem_cons.mp hq with rfl | hq
      · right
        split
        · rename_i hknown
          exact any_name_iff.mp hknown
        · rw [List.map_append]
          exact List.mem_append_right _ List.mem_cons_self
      · exact .inl ⟨q, hq, rfl⟩
    · right
      split
      · exact hold
      · rw [List.map_append]
        exact List.mem_append_left _ hold

structure Chosen (c : Catalog) (start : String) (popped : List String) (fields : List Field) :
    Prop where
  distinct : (fields.map (·.name)).Nodup
  nearest : ∀ field ∈ fields, Nearest c start field
  complete : ∀ other, Defined c other → other.definedIn ∈ popped →
    other.name ∈ fields.map (·.name)

theorem Chosen.step {start fqn : String} {depth : ℕ} {popped near far : List String}
    {fields : List Field} (hfrontier : Frontier c start depth popped (fqn :: near) far)
    {struct : InterfaceType} (hstruct : c.struct fqn = .ok struct)
    (h : Chosen c start popped fields) :
    Chosen c start (popped ++ [fqn]) (addNewFields fields (fqn, struct)) := by
  constructor
  · exact nodup_addNewFields h.distinct _
  · intro field hfield
    rcases mem_addNewFields hfield with hold | ⟨hname, p, hp, rfl⟩
    · exact h.nearest field hold
    · have hreached := hfrontier.near_reached fqn List.mem_cons_self
      refine ⟨defined_ofProperty hstruct hp, depth, hreached, ?_⟩
      intro other depth' hother hsame hdepth
      -- A nearer struct was popped, so a field of its name has been chosen.
      by_contra hless
      have hpopped := hfrontier.popped_of_nearer depth' _ hdepth (Nat.lt_of_not_le hless)
      exact hname (hsame ▸ h.complete other hother hpopped)
  · intro other hother hpopped
    apply mem_names_addNewFields
    rcases List.mem_append.mp hpopped with hbefore | hlast
    · exact .inr (h.complete other hother hbefore)
    · obtain hfqn := List.mem_singleton.mp hlast
      exact .inl (hother.exists_property (hfqn ▸ hstruct))

theorem chosen_of_layers {start : String} {fuel depth : ℕ} {popped near far waiting : List String}
    {fields : List Field} {layers : List (String × InterfaceType)}
    (h : c.layers fuel waiting (popped ++ waiting) = .ok layers) (hfuel : c.unseen popped < fuel)
    (hwaiting : waiting = near ++ far) (hfrontier : Frontier c start depth popped near far)
    (hchosen : Chosen c start popped fields) :
    ∃ all, (∀ fqn, Inherits c start fqn → fqn ∈ all) ∧
      Chosen c start all (layers.foldl addNewFields fields) := by
  induction fuel generalizing depth popped near far waiting fields layers with
  | zero => exact absurd hfuel (Nat.not_lt_zero _)
  | succ fuel ih =>
    cases waiting with
    | nil =>
      obtain rfl := Except.ok.inj h
      obtain ⟨rfl, rfl⟩ := List.append_eq_nil_iff.mp hwaiting.symm
      exact ⟨popped, fun _ => hfrontier.popped_of_inherits, hchosen⟩
    | cons fqn waiting =>
      simp only [Catalog.layers, Outcome.bind_eq_ok, Outcome.pure_eq_ok] at h
      obtain ⟨struct, hstruct, deeper, hdeeper, rfl⟩ := h
      obtain ⟨depth, near, far, rfl, hfrontier⟩ := hfrontier.exists_near hwaiting.symm
      have hnew : fqn ∉ popped := by
        intro hpopped
        exact (List.nodup_append.mp hfrontier.distinct).2.2 fqn hpopped fqn (by simp) rfl
      have hless : c.unseen (popped ++ [fqn]) < fuel := by
        have hmono : c.unseen (popped ++ [fqn]) ≤ c.unseen (fqn :: popped) :=
          unseen_mono (by simp)
        have hcons := unseen_cons_lt (mem_keys_of_struct hstruct) hnew
        omega
      have hknown : popped ++ fqn :: (near ++ far) ++
          unknownOf (popped ++ fqn :: (near ++ far)) struct.interfaces = popped ++ [fqn] ++
            (near ++ far ++ unknownOf (popped ++ fqn :: (near ++ far)) struct.interfaces) := by
        simp
      rw [hknown] at hdeeper
      rw [List.foldl_cons]
      exact ih hdeeper hless (List.append_assoc _ _ _) (hfrontier.pop hstruct)
        (hchosen.step hfrontier hstruct)

theorem liftedFields_spec {start : String} {fields : List Field}
    (h : c.liftedFields start = .ok fields) :
    (fields.map (·.name)).Nodup ∧ (∀ field ∈ fields, Nearest c start field) ∧
      ∀ other, Defined c other → Inherits c start other.definedIn →
        other.name ∈ fields.map (·.name) := by
  simp only [liftedFields, Outcome.bind_eq_ok, Outcome.pure_eq_ok] at h
  obtain ⟨layers, hlayers, rfl⟩ := h
  have hfrontier : Frontier c start 0 [] [start] [] := by
    constructor
    · simp
    · exact fun fqn hfqn => List.mem_singleton.mp hfqn ▸ .self
    · exact fun fqn hfqn => absurd hfqn List.not_mem_nil
    · exact fun d fqn _ hless => absurd hless (Nat.not_lt_zero d)
    · intro fqn hfqn
      cases hfqn
      exact List.mem_cons_self
    · exact fun fqn hfqn => absurd hfqn List.not_mem_nil
  have hchosen : Chosen c start [] [] :=
    ⟨List.nodup_nil, fun _ hfield => absurd hfield List.not_mem_nil,
      fun _ _ hpopped => absurd hpopped List.not_mem_nil⟩
  obtain ⟨all, hall, hfields⟩ := chosen_of_layers hlayers unseen_nil_lt rfl hfrontier hchosen
  exact ⟨hfields.distinct, hfields.nearest, fun other hother hin =>
    hfields.complete other hother (hall _ hin)⟩

theorem Nearest.definedIn_eq {start : String} {field own : Field} (h : Nearest c start field)
    (hown : Defined c own) (hstart : own.definedIn = start) (hname : own.name = field.name) :
    field.definedIn = start := by
  obtain ⟨-, depth, hreached, hleast⟩ := h
  have hself : Reaches c start 0 own.definedIn := hstart ▸ .self
  obtain rfl := Nat.le_zero.mp (hleast own 0 hown hname hself)
  cases hreached
  rfl

theorem MostDerived.definedIn_eq {start : String} {field own : Field}
    (h : MostDerived c start field) (hown : Defined c own) (hstart : own.definedIn = start)
    (hname : own.name = field.name) : field.definedIn = start := by
  obtain ⟨-, hinherits, hlatest⟩ := h
  have hself : Inherits c start own.definedIn := hstart ▸ .self
  exact (hlatest own hown hname hself (hstart.symm ▸ hinherits)).symm.trans hstart

/-- Parameters in the place of a struct and the parameters of its constructor bear the same names,
all those that structs of the hierarchy declare. The former are nearest definitions, the latter most
derived ones, and both are the struct's own where it has one. So the two have the same types
wherever such definitions of one name do. -/
theorem liftedFields_agree_fields {start : String} {lifted fields : List Field}
    (hacyclic : Acyclic c start) (hlifted : c.liftedFields start = .ok lifted)
    (hfields : c.fields start = .ok fields) :
    (lifted.map (·.name)).Nodup ∧ (lifted.map (·.name)).Perm (fields.map (·.name)) ∧
      (∀ other, Defined c other → Inherits c start other.definedIn →
        other.name ∈ lifted.map (·.name)) ∧
      (∀ field ∈ lifted, Nearest c start field) ∧ (∀ field ∈ fields, MostDerived c start field) ∧
      (∀ own, Defined c own → own.definedIn = start → ∀ field ∈ lifted ++ fields,
        own.name = field.name → field.definedIn = start) ∧
      ∀ name, (∀ near derived, Nearest c start near → MostDerived c start derived →
          near.name = name → derived.name = name → near.type = derived.type) →
        ∀ near ∈ lifted, ∀ derived ∈ fields, near.name = name → derived.name = name →
          near.type = derived.type := by
  obtain ⟨hdistinct, hnearest, hcomplete⟩ := liftedFields_spec hlifted
  obtain ⟨hdistinct', hderived, hcomplete'⟩ := fields_spec hacyclic hfields
  refine ⟨hdistinct, (List.perm_ext_iff_of_nodup hdistinct hdistinct').mpr fun name => ⟨?_, ?_⟩,
    hcomplete, hnearest, hderived, ?_, ?_⟩
  · intro hname
    obtain ⟨field, hfield, rfl⟩ := List.mem_map.mp hname
    obtain ⟨hdefined, depth, hreached, -⟩ := hnearest field hfield
    exact hcomplete' field hdefined hreached.inherits
  · intro hname
    obtain ⟨field, hfield, rfl⟩ := List.mem_map.mp hname
    obtain ⟨hdefined, hinherits, -⟩ := hderived field hfield
    exact hcomplete field hdefined hinherits
  · intro own hown hstart field hfield hname
    rcases List.mem_append.mp hfield with hin | hin
    · exact (hnearest field hin).definedIn_eq hown hstart hname
    · exact (hderived field hin).definedIn_eq hown hstart hname
  · intro name hagree near hnear derived hin
    exact hagree near derived (hnearest near hnear) (hderived derived hin)

def twoBases (own : List Property) : Assembly :=
  let props (fqn : String) (interfaces : List String) (properties : List Property) : TypeEntry :=
    .interface { InterfaceType.ofFqn fqn with isData := true, interfaces, properties }
  let size : Property := { name := "size", type := .primitive .string }
  (((Assembly.ofModule "Acme" "1.0.0" "acme").withType
    (props "Acme.Props" ["Acme.Left", "Acme.Right"] own)).withType
    (props "Acme.Left" [] [{ size with optional := true }])).withType
    (props "Acme.Right" [] [size])

def choices (a : Assembly) (fqn : String) : Outcome (Model × List Field × List Field) := do
  let m ← Model.build a []
  return (m, ← m.liftedFields fqn, ← m.fields fqn)

theorem choices_eq_ok {a : Assembly} {fqn : String} {m : Model} {lifted fields : List Field}
    (h : choices a fqn = .ok (m, lifted, fields)) :
    Model.build a [] = .ok m ∧ m.liftedFields fqn = .ok lifted ∧ m.fields fqn = .ok fields := by
  simp only [choices, Outcome.bind_eq_ok, Outcome.pure_eq_ok, Prod.mk.injEq] at h
  obtain ⟨_, hbuild, _, hlifted, _, hfields, rfl, rfl, rfl⟩ := h
  exact ⟨hbuild, hlifted, hfields⟩

def choiceView (fqn : String) (choice : Model × List Field × List Field) :
    Bool × Option (List String) × List (String × Bool) × List (String × Bool) :=
  let (m, lifted, fields) := choice
  (m.isRanked ["Acme.Right", "Acme.Left", "Acme.Props"],
    (m.struct fqn).toOption.map fun struct => struct.properties.map (·.name),
    lifted.map fun field => (field.name, field.type.isOptional),
    fields.map fun field => (field.name, field.type.isOptional))

theorem choiceView_redeclared :
    (choices (twoBases [{ name := "size", type := .primitive .number }])
      "Acme.Props").toOption.map (choiceView "Acme.Props") =
        some (true, some ["size"], [("size", false)], [("size", false)]) := by
  decide +kernel

theorem liftedFields_agree_fields_redeclared :
    ∃ m lifted fields,
      Model.build (twoBases [{ name := "size", type := .primitive .number }]) [] = .ok m ∧
      m.liftedFields "Acme.Props" = .ok lifted ∧ m.fields "Acme.Props" = .ok fields ∧
      lifted.map (·.name) = ["size"] ∧ (lifted.map (·.name)).Perm (fields.map (·.name)) ∧
      ∀ near ∈ lifted, ∀ derived ∈ fields, near.name = "size" → derived.name = "size" →
        near.type = derived.type := by
  obtain ⟨⟨m, lifted, fields⟩, hchoices, hview⟩ :=
    Outcome.exists_eq_ok_of_map choiceView_redeclared
  obtain ⟨hbuild, hlifted, hfields⟩ := choices_eq_ok hchoices
  simp only [choiceView, Prod.mk.injEq] at hview
  obtain ⟨hranked, hstruct, hnames, -⟩ := hview
  obtain ⟨struct, hstruct, hown⟩ := Outcome.exists_eq_ok_of_map hstruct
  obtain ⟨own, hproperties, hname⟩ := List.map_eq_singleton_iff.mp hown
  have hdefined : Defined m.toCatalog (.ofProperty own "Acme.Props") :=
    defined_ofProperty hstruct (hproperties ▸ List.mem_cons_self)
  -- The struct declares the field once, so there is one definition to choose.
  have honce : ∀ field, Defined m.toCatalog field → field.definedIn = "Acme.Props" →
      field.type = .ofValue own.type own.optional := by
    rintro field ⟨found, hfound, p, hp, hfield⟩ hin
    rw [hin] at hfound
    obtain rfl := Except.ok.inj (hstruct.symm.trans hfound)
    obtain rfl := List.mem_singleton.mp (hproperties ▸ hp)
    rw [hfield]
    rfl
  obtain ⟨-, hperm, -, -, -, -, hagree⟩ :=
    liftedFields_agree_fields (acyclic_of_isRanked hranked "Acme.Props") hlifted hfields
  refine ⟨m, lifted, fields, hbuild, hlifted, hfields, ?_, hperm, hagree "size" ?_⟩
  · have hmap := congrArg (List.map Prod.fst) hnames
    rwa [List.map_map] at hmap
  · intro near derived hnear hderived hnearName hderivedName
    have hnearIn := hnear.definedIn_eq hdefined rfl (hname.trans hnearName.symm)
    have hderivedIn := hderived.definedIn_eq hdefined rfl (hname.trans hderivedName.symm)
    rw [honce near hnear.1 hnearIn, honce derived hderived.1 hderivedIn]

theorem choiceView_inherited :
    (choices (twoBases []) "Acme.Props").toOption.map (choiceView "Acme.Props") =
      some (true, some [], [("size", true)], [("size", false)]) := by
  decide +kernel

theorem inherited_fields_disagree :
    ∃ m lifted fields, Model.build (twoBases []) [] = .ok m ∧
      Acyclic m.toCatalog "Acme.Props" ∧ m.liftedFields "Acme.Props" = .ok lifted ∧
      m.fields "Acme.Props" = .ok fields ∧
      ∃ near ∈ lifted, ∃ derived ∈ fields, near.name = derived.name ∧
        near.type ≠ derived.type := by
  obtain ⟨⟨m, lifted, fields⟩, hchoices, hview⟩ := Outcome.exists_eq_ok_of_map choiceView_inherited
  obtain ⟨hbuild, hlifted, hfields⟩ := choices_eq_ok hchoices
  simp only [choiceView, Prod.mk.injEq] at hview
  obtain ⟨hranked, -, hnearest, hlatest⟩ := hview
  obtain ⟨near, rfl, hnear⟩ := List.map_eq_singleton_iff.mp hnearest
  obtain ⟨derived, rfl, hderived⟩ := List.map_eq_singleton_iff.mp hlatest
  obtain ⟨hnearName, hoptional⟩ := Prod.mk.inj hnear
  obtain ⟨hderivedName, hrequired⟩ := Prod.mk.inj hderived
  refine ⟨m, [near], [derived], hbuild, acyclic_of_isRanked hranked _, hlifted, hfields, near,
    List.mem_cons_self, derived, List.mem_cons_self, hnearName.trans hderivedName.symm, ?_⟩
  intro htype
  rw [htype, hrequired] at hoptional
  cases hoptional

end Bindery.Catalog
