import Bindery.Namespaced.Symbols
import Bindery.Proofs.Identifier
import Bindery.Proofs.Model
import Mathlib.Data.List.Infix

/-!
# Exact symbol tables

A table takes symbols one after the other and refuses the first one whose name it has. So it holds
all symbols of an assembly, in their order, or there is a first name that comes again.

The members of a type are found by their names alone. A name in front of a colon is the name of its
owner as long as no name has colons of its own, and behind the owner of a parameter, which is a
method, there is one more mark than behind the owner of a member.
-/

namespace Bindery

namespace Text

open CaseTable

theorem breakAt?_eq_none_iff {mark text : List Char} :
    breakAt? mark text = none ↔ ¬ mark <:+: text := by
  induction text with
  | nil => simp [breakAt?, List.infix_nil]
  | cons c text ih =>
    rw [breakAt?, List.infix_cons_iff]
    cases hfront : stripPrefix? mark (c :: text) with
    | some rest =>
      have hstarts : mark <+: c :: text := ⟨rest, (stripPrefix?_eq_some_iff.mp hfront).symm⟩
      simp [hstarts]
    | none =>
      have hstarts : ¬ mark <+: c :: text := by
        rintro ⟨rest, hrest⟩
        rw [stripPrefix?_eq_some_iff.mpr hrest.symm] at hfront
        cases hfront
      simp [hstarts, ih]

theorem breakOn?_isNone_iff {mark text : String} :
    (breakOn? mark text).isNone = true ↔ ¬ mark.toList <:+: text.toList := by
  rw [breakOn?, Option.isNone_map, Option.isNone_iff_eq_none, breakAt?_eq_none_iff]

theorem subset_intercalate (sep : String) {text : String} {texts : List String} (h : text ∈ texts) :
    text.toList ⊆ (sep.intercalate texts).toList := by
  induction texts with
  | nil => exact absurd h List.not_mem_nil
  | cons first texts ih =>
    by_cases hnil : texts = []
    · rw [hnil] at h ⊢
      rw [List.mem_singleton.mp h, String.intercalate_singleton]
      exact List.Subset.refl _
    · rw [String.intercalate_cons_of_ne_nil hnil, String.toList_append]
      rcases List.mem_cons.mp h with rfl | hin
      · rw [String.toList_append, List.append_assoc]
        exact List.subset_append_left _ _
      · exact List.Subset.trans (ih hin) (List.subset_append_right _ _)

theorem mem_of_mem_intercalate {sep : String} {texts : List String} {c : Char}
    (h : c ∈ (sep.intercalate texts).toList) : c ∈ sep.toList ∨ ∃ text ∈ texts, c ∈ text.toList := by
  induction texts with
  | nil => exact absurd h List.not_mem_nil
  | cons first texts ih =>
    by_cases hnil : texts = []
    · rw [hnil, String.intercalate_singleton] at h
      exact .inr ⟨first, List.mem_cons_self, h⟩
    · rw [String.intercalate_cons_of_ne_nil hnil, String.toList_append, String.toList_append,
        List.mem_append, List.mem_append] at h
      rcases h with (hfirst | hsep) | hrest
      · exact .inr ⟨first, List.mem_cons_self, hfirst⟩
      · exact .inl hsep
      · rcases ih hrest with hsep | ⟨text, hin, hc⟩
        · exact .inl hsep
        · exact .inr ⟨text, List.mem_cons_of_mem _ hin, hc⟩

theorem subset_of_mem_split {sep : Char} {text piece : String} (h : piece ∈ split sep text) :
    piece.toList ⊆ text.toList := by
  have hsubset := subset_intercalate (String.ofList [sep]) h
  rwa [intercalate_split] at hsubset

theorem upperShifts_behind_colon :
    ∀ s ∈ upperShifts, ':'.toNat < (s.run.first : Int) + s.distance := by
  decide +kernel

theorem upperSpecials_colonless : ∀ s ∈ upperSpecials, ':' ∉ s.2.map Char.ofNat := by
  decide +kernel

theorem toUpper_ne_colon {c : Char} (hascii : c.toNat < 0x80) : c ≠ ':' → c.toUpper ≠ ':' := by
  have hall : ∀ n < 0x80, Char.ofNat n ≠ ':' → (Char.ofNat n).toUpper ≠ ':' := by
    decide +kernel
  exact forall_ascii (P := fun c => c ≠ ':' → c.toUpper ≠ ':') hall hascii

theorem colon_not_mem_upperChar {c : Char} (h : c ≠ ':') : ':' ∉ upperChar c := by
  rw [upperChar]
  split
  · rename_i hascii
    simpa using (toUpper_ne_colon (of_decide_eq_true hascii) h).symm
  · exact not_mem_mapChar (by decide) upperSpecials_colonless upperShifts_behind_colon h

end Text

namespace SymbolTable

variable {α : Type} [Symbol α] {table table' : SymbolTable α} {symbol : α} {symbols : List α}

theorem register_of_mem (h : Symbol.fqn symbol ∈ table.entries.keys) :
    table.register symbol = .error (.symbolCollision (Symbol.fqn symbol)) := by
  have hcontains : table.contains (Symbol.fqn symbol) = true := OrderedMap.contains_iff.mpr h
  rw [register, if_pos hcontains]

/-- The first name in a list that repeats an earlier one. -/
def FirstRepeated (names : List String) (name : String) : Prop :=
  ∃ before behind, names = before ++ name :: behind ∧ before.Nodup ∧ name ∈ before

theorem firstRepeated_of_registerAll {fault : Fault} (h : table.registerAll symbols = .error fault) :
    ∃ name, fault = .symbolCollision name ∧
      FirstRepeated (table.entries.keys ++ symbols.map Symbol.fqn) name := by
  induction symbols generalizing table with
  | nil => cases h
  | cons symbol symbols ih =>
    rw [registerAll, List.foldlM_cons] at h
    by_cases hin : Symbol.fqn symbol ∈ table.entries.keys
    · rw [register_of_mem hin] at h
      exact ⟨_, (Except.error.inj h).symm, table.entries.keys, symbols.map Symbol.fqn, rfl,
        table.entries.distinct, hin⟩
    · obtain ⟨middle, hmiddle, hentries⟩ := register_of_fresh hin
      rw [hmiddle] at h
      have hkeys : middle.entries.keys = table.entries.keys ++ [Symbol.fqn symbol] := by
        simp [OrderedMap.keys, hentries]
      obtain ⟨name, hfault, hfirst⟩ := ih h
      rw [hkeys, List.append_assoc] at hfirst
      exact ⟨name, hfault, hfirst⟩

theorem entries_of_registerAll (h : table.registerAll symbols = .ok table') :
    table'.entries.entries =
      table.entries.entries ++ symbols.map fun symbol => (Symbol.fqn symbol, symbol) := by
  induction symbols generalizing table with
  | nil =>
    obtain rfl := Outcome.pure_eq_ok.mp h
    simp
  | cons symbol symbols ih =>
    rw [registerAll, List.foldlM_cons] at h
    obtain ⟨middle, hmiddle, hrest⟩ := Outcome.bind_eq_ok.mp h
    have hfresh : Symbol.fqn symbol ∉ table.entries.keys := by
      intro hin
      cases (register_of_mem hin).symm.trans hmiddle
    obtain ⟨found, hfound, hentries⟩ := register_of_fresh hfresh
    obtain rfl := Except.ok.inj (hmiddle.symm.trans hfound)
    rw [ih hrest, hentries, List.append_assoc, List.map_cons, List.singleton_append]

theorem symbols_of_registerAll (h : empty.registerAll symbols = .ok table) :
    table.symbols = symbols := by
  rw [SymbolTable.symbols, OrderedMap.values, entries_of_registerAll h, List.map_append,
    List.map_map]
  exact List.map_id _

theorem keys_of_registerAll (h : empty.registerAll symbols = .ok table) :
    table.entries.keys = symbols.map Symbol.fqn := by
  rw [OrderedMap.keys, entries_of_registerAll h, List.map_append, List.map_map]
  rfl

theorem lookup_eq_some_iff_of_registerAll (h : empty.registerAll symbols = .ok table)
    {fqn : String} : table.lookup fqn = some symbol ↔ symbol ∈ symbols ∧ Symbol.fqn symbol = fqn := by
  rw [lookup, OrderedMap.find?_eq_some_iff, entries_of_registerAll h]
  constructor
  · intro hin
    obtain ⟨found, hfound, heq⟩ := List.mem_map.mp hin
    obtain ⟨rfl, rfl⟩ := Prod.mk.inj heq
    exact ⟨hfound, rfl⟩
  · rintro ⟨hin, rfl⟩
    exact List.mem_map.mpr ⟨symbol, hin, rfl⟩

theorem registerAll_ok_iff :
    (∃ table : SymbolTable α, empty.registerAll symbols = .ok table) ↔
      (symbols.map Symbol.fqn).Nodup := by
  constructor
  · rintro ⟨table, h⟩
    rw [← keys_of_registerAll h]
    exact table.entries.distinct
  · intro h
    have hnodup : ((empty : SymbolTable α).entries.keys ++ symbols.map Symbol.fqn).Nodup := h
    obtain ⟨table, htable, -⟩ := registerAll_of_fresh hnodup
    exact ⟨table, htable⟩

end SymbolTable

namespace Namespaced

open Api Text

def methodsOf : TypeEntry → List Method
  | .class c => (c.initializer.map constructor_).toList ++ c.methods
  | .interface i => i.methods
  | .enum _ => []

def propertiesOf : TypeEntry → List Property
  | .class c => c.properties
  | .interface i => i.properties
  | .enum _ => []

def methodNames (owner : String) (m : Method) : List String :=
  (owner ++ "::" ++ m.name) :: m.parameters.map fun p => owner ++ "::" ++ m.name ++ "::$" ++ p.name

def typeNames (t : TypeEntry) : List String :=
  name t.fqn :: (methodsOf t).flatMap (methodNames (name t.fqn)) ++
    (propertiesOf t).map fun p => name t.fqn ++ "::" ++ p.name

def names (a : Assembly) : List String := a.types.values.flatMap typeNames

def roleOf : TypeEntry → Role
  | .class c => .class (c.base.map name) (c.interfaces.map name) c.isAbstract
  | .interface i => .interface (i.interfaces.map name)
  | .enum e => .enum (e.values.map (·.name))

def typeEntry (t : TypeEntry) : Entry := .ofType (name t.fqn) (roleOf t)

def methodEntry (owner : String) (m : Method) : Entry :=
  .ofMember owner m.name (.method (.ofProtected m.isProtected) m.isStatic m.isAbstract)

def parameterEntry (method : String) (p : Parameter) : Entry :=
  .ofMember method ("$" ++ p.name) (.parameter p.variadic p.optional)

def memberEntries (t : TypeEntry) : List Entry :=
  (methodsOf t).map (methodEntry (name t.fqn)) ++ (propertiesOf t).map (propertyEntry (name t.fqn))

theorem methodEntries_eq (owner : String) (m : Method) :
    methodEntries owner m =
      methodEntry owner m :: m.parameters.map (parameterEntry (memberName owner m.name)) := rfl

theorem typeEntries_eq (t : TypeEntry) :
    typeEntries t = typeEntry t :: (methodsOf t).flatMap (methodEntries (name t.fqn)) ++
      (propertiesOf t).map (propertyEntry (name t.fqn)) := by
  cases t with
  | «class» c =>
    simp only [typeEntries, methodsOf, List.flatMap_append, List.append_assoc, List.cons_append]
    rfl
  | interface i => rfl
  | enum e => rfl

theorem map_fqn_methodEntries (owner : String) (m : Method) :
    (methodEntries owner m).map (·.fqn) = methodNames owner m := by
  simp only [methodEntries, methodNames, Entry.ofMember, memberName, memberMark, List.map_cons,
    List.map_map, Function.comp_def, String.append_assoc]
  rfl

theorem map_fqn_typeEntries (t : TypeEntry) : (typeEntries t).map (·.fqn) = typeNames t := by
  rw [typeEntries_eq, typeNames, List.map_append, List.map_cons, List.map_flatMap, List.map_map]
  simp only [map_fqn_methodEntries]
  rfl

theorem map_fqn_entries (a : Assembly) : (entries a).map (·.fqn) = names a := by
  rw [entries, names, List.map_flatMap]
  simp only [map_fqn_typeEntries]

def Colonless (text : String) : Prop := ':' ∉ text.toList

instance (text : String) : Decidable (Colonless text) :=
  inferInstanceAs (Decidable (':' ∉ text.toList))

def ColonlessNames (t : TypeEntry) : Prop :=
  Colonless t.fqn ∧ (∀ m ∈ methodsOf t, Colonless m.name) ∧ ∀ p ∈ propertiesOf t, Colonless p.name

instance (t : TypeEntry) : Decidable (ColonlessNames t) := inferInstanceAs (Decidable (_ ∧ _))

theorem colonless_capitalize {word : String} (h : Colonless word) : Colonless (capitalize word) := by
  rw [capitalize]
  split
  · simp [Colonless]
  · rename_i c rest hword
    rw [Colonless, hword, List.mem_cons, not_or] at h
    simp only [Colonless, String.toList_ofList, List.mem_append, not_or]
    exact ⟨colon_not_mem_upperChar (Ne.symm h.1), h.2⟩

theorem colonless_name {fqn : String} (h : Colonless fqn) : Colonless (name fqn) := by
  intro hcolon
  rcases mem_of_mem_intercalate hcolon with hsep | ⟨_, hin, hcolon⟩
  · exact absurd hsep (by decide)
  · obtain ⟨segment, hsegment, rfl⟩ := List.mem_map.mp hin
    rw [pascal, String.toList_join, List.mem_flatMap] at hcolon
    obtain ⟨_, hin, hcolon⟩ := hcolon
    obtain ⟨word, hword, rfl⟩ := List.mem_map.mp hin
    have hsubset := List.Subset.trans (subset_of_mem_split hword) (subset_of_mem_split hsegment)
    exact colonless_capitalize (fun hin => h (hsubset hin)) hcolon

theorem toList_memberName (owner member : String) :
    (memberName owner member).toList = owner.toList ++ ':' :: ':' :: member.toList := by
  simp [memberName, memberMark]

theorem memberName_inj {owner owner' member member' : String} (h : Colonless owner)
    (h' : Colonless owner') (heq : memberName owner member = memberName owner' member') :
    owner = owner' ∧ member = member' := by
  have hchars := congrArg String.toList heq
  rw [toList_memberName, toList_memberName] at hchars
  have hfront : ∀ text : String, Colonless text → ∀ rest,
      (text.toList ++ ':' :: rest).takeWhile (· ≠ ':') = text.toList := by
    intro text htext rest
    have hall : ∀ c ∈ text.toList, decide (c ≠ ':') = true := by
      intro c hc
      exact decide_eq_true fun hcolon => htext (hcolon ▸ hc)
    rw [List.takeWhile_append_of_pos hall]
    simp
  have howner : owner.toList = owner'.toList := by
    rw [← hfront owner h _, hchars, hfront owner' h' _]
  rw [howner] at hchars
  have hmember := List.append_cancel_left hchars
  exact ⟨String.toList_inj.mp howner, String.toList_inj.mp (by simpa using hmember)⟩

theorem isMemberOf_iff {owner fqn : String} :
    isMemberOf owner fqn = true ↔
      ∃ member, fqn = memberName owner member ∧ ¬ memberMark.toList <:+: member.toList := by
  constructor
  · intro h
    rw [isMemberOf] at h
    split at h
    · rename_i rest hrest
      exact ⟨rest, after?_eq_some_iff.mp hrest, breakOn?_isNone_iff.mp h⟩
    · cases h
  · rintro ⟨member, rfl, hmark⟩
    have hrest : after? (owner ++ memberMark) (memberName owner member) = some member :=
      after?_eq_some_iff.mpr rfl
    rw [isMemberOf, hrest]
    exact breakOn?_isNone_iff.mpr hmark

theorem isMemberOf_of_colonless (owner : String) {fqn : String} (h : Colonless fqn) :
    isMemberOf owner fqn = false := by
  rw [← Bool.not_eq_true, isMemberOf_iff]
  rintro ⟨member, rfl, -⟩
  exact h (by simp [toList_memberName])

theorem isMemberOf_memberName {owner owner' : String} (h : Colonless owner) (h' : Colonless owner')
    (member : String) :
    isMemberOf owner (memberName owner' member) = true ↔
      owner = owner' ∧ ¬ memberMark.toList <:+: member.toList := by
  rw [isMemberOf_iff]
  constructor
  · rintro ⟨found, heq, hmark⟩
    obtain ⟨rfl, rfl⟩ := memberName_inj h' h heq
    exact ⟨rfl, hmark⟩
  · rintro ⟨rfl, hmark⟩
    exact ⟨member, rfl, hmark⟩

theorem not_infix_of_colonless {member : String} (h : Colonless member) :
    ¬ memberMark.toList <:+: member.toList := fun hmark =>
  h (hmark.subset (by decide))

theorem isMemberOf_direct {owner owner' member : String} (h : Colonless owner)
    (h' : Colonless owner') (hmember : Colonless member) :
    isMemberOf owner (memberName owner' member) = decide (owner = owner') := by
  rw [Bool.eq_iff_iff, isMemberOf_memberName h h', decide_eq_true_eq]
  exact and_iff_left (not_infix_of_colonless hmember)

theorem isMemberOf_parameter {owner owner' : String} (h : Colonless owner) (h' : Colonless owner')
    (method parameter : String) :
    isMemberOf owner (memberName (memberName owner' method) parameter) = false := by
  have hassoc : memberName (memberName owner' method) parameter =
      memberName owner' (memberName method parameter) := by
    simp only [memberName, String.append_assoc]
  rw [hassoc, ← Bool.not_eq_true, isMemberOf_memberName h h']
  rintro ⟨-, hmark⟩
  exact hmark ⟨method.toList, parameter.toList, by simp [toList_memberName, memberMark]⟩

theorem filter_methodEntries {owner owner' : String} (h : Colonless owner) (h' : Colonless owner')
    {m : Method} (hm : Colonless m.name) :
    (methodEntries owner' m).filter (fun e => isMemberOf owner e.fqn) =
      if owner = owner' then [methodEntry owner' m] else [] := by
  have hmethod : isMemberOf owner (methodEntry owner' m).fqn = decide (owner = owner') :=
    isMemberOf_direct h h' hm
  have hparameters : (m.parameters.map (parameterEntry (memberName owner' m.name))).filter
      (fun e => isMemberOf owner e.fqn) = [] := by
    rw [List.filter_eq_nil_iff]
    intro e he
    obtain ⟨p, -, rfl⟩ := List.mem_map.mp he
    exact Bool.not_eq_true _ ▸ isMemberOf_parameter h h' m.name ("$" ++ p.name)
  rw [methodEntries_eq, List.filter_cons, hmethod, hparameters]
  by_cases hsame : owner = owner'
  · simp [hsame]
  · simp [hsame]

theorem filter_propertyEntries {owner owner' : String} (h : Colonless owner)
    (h' : Colonless owner') {properties : List Property}
    (hproperties : ∀ p ∈ properties, Colonless p.name) :
    (properties.map (propertyEntry owner')).filter (fun e => isMemberOf owner e.fqn) =
      if owner = owner' then properties.map (propertyEntry owner') else [] := by
  have hdirect : ∀ e ∈ properties.map (propertyEntry owner'),
      isMemberOf owner e.fqn = decide (owner = owner') := by
    intro e he
    obtain ⟨p, hp, rfl⟩ := List.mem_map.mp he
    exact isMemberOf_direct h h' (hproperties p hp)
  rw [List.filter_congr hdirect]
  by_cases hsame : owner = owner'
  · simp [hsame]
  · simp [hsame]

theorem filter_typeEntries {owner : String} (h : Colonless owner) {t : TypeEntry}
    (ht : ColonlessNames t) :
    (typeEntries t).filter (fun e => isMemberOf owner e.fqn) =
      if owner = name t.fqn then memberEntries t else [] := by
  obtain ⟨hfqn, hmethods, hproperties⟩ := ht
  have h' := colonless_name hfqn
  have htype : isMemberOf owner (typeEntry t).fqn = false := isMemberOf_of_colonless owner h'
  have hflat : ((methodsOf t).flatMap (methodEntries (name t.fqn))).filter
      (fun e => isMemberOf owner e.fqn) =
        if owner = name t.fqn then (methodsOf t).map (methodEntry (name t.fqn)) else [] := by
    rw [List.filter_flatMap,
      List.flatMap_congr fun m hm => filter_methodEntries h h' (hmethods m hm)]
    by_cases hsame : owner = name t.fqn
    · simp only [hsame, if_true, List.map_eq_flatMap]
    · simp [hsame]
  rw [typeEntries_eq, List.cons_append, List.filter_cons, htype, List.filter_append, hflat,
    filter_propertyEntries h h' hproperties, memberEntries]
  by_cases hsame : owner = name t.fqn
  · simp [hsame]
  · simp [hsame]

theorem nodup_typeNames {a : Assembly} (h : (names a).Nodup) :
    (a.types.values.map fun t => name t.fqn).Nodup := by
  rw [names, List.nodup_flatMap] at h
  rw [List.Nodup, List.pairwise_map]
  refine h.2.imp fun hdisjoint heq => hdisjoint List.mem_cons_self ?_
  rw [heq]
  exact List.mem_cons_self

theorem flatMap_ite_key {α β : Type} {key : α → String} {xs : List α} (h : (xs.map key).Nodup)
    {x : α} (hx : x ∈ xs) (f : α → List β) :
    (xs.flatMap fun y => if key x = key y then f y else []) = f x := by
  obtain ⟨before, behind, rfl⟩ := List.append_of_mem hx
  rw [List.map_append, List.map_cons, List.nodup_append, List.nodup_cons] at h
  obtain ⟨-, ⟨hbehind, -⟩, hbefore⟩ := h
  have hnil : ∀ ys : List α, (∀ y ∈ ys, key x ≠ key y) →
      (ys.flatMap fun y => if key x = key y then f y else []) = [] := by
    intro ys hys
    rw [List.flatMap_eq_nil_iff]
    exact fun y hy => if_neg (hys y hy)
  rw [List.flatMap_append, List.flatMap_cons, if_pos rfl, hnil before, hnil behind, List.nil_append,
    List.append_nil]
  · exact fun y hy heq => hbehind (heq ▸ List.mem_map_of_mem hy)
  · exact fun y hy heq =>
      hbefore (key y) (List.mem_map_of_mem hy) (key x) List.mem_cons_self heq.symm

theorem names_nodup_of_build {a : Assembly} {table : Symbols}
    (h : Symbols.build a = .ok table) : (names a).Nodup := by
  rw [← map_fqn_entries]
  exact SymbolTable.registerAll_ok_iff.mp ⟨table, h⟩

theorem members_typeEntry {a : Assembly} {table : Symbols} (hbuild : Symbols.build a = .ok table)
    (hcolonless : ∀ t ∈ a.types.values, ColonlessNames t) {t : TypeEntry}
    (ht : t ∈ a.types.values) : Symbols.members table (typeEntry t) = memberEntries t := by
  have howner : Colonless (name t.fqn) := colonless_name (hcolonless t ht).1
  have hfqn : (typeEntry t).fqn = name t.fqn := rfl
  rw [Symbols.members, SymbolTable.symbols_of_registerAll hbuild, hfqn, entries,
    List.filter_flatMap,
    List.flatMap_congr fun t' ht' => filter_typeEntries howner (hcolonless t' ht')]
  exact flatMap_ite_key (nodup_typeNames (names_nodup_of_build hbuild)) ht memberEntries

theorem exists_type_of_kind {a : Assembly} {owner : Entry} (h : owner ∈ entries a)
    (hkind : owner.role.kind = .classType ∨ owner.role.kind = .interface) :
    ∃ t ∈ a.types.values, owner = typeEntry t := by
  obtain ⟨t, ht, hin⟩ := List.mem_flatMap.mp h
  rw [typeEntries_eq, List.cons_append, List.mem_cons, List.mem_append, List.mem_flatMap] at hin
  rcases hin with hself | ⟨m, -, hin⟩ | hin
  · exact ⟨t, ht, hself⟩
  · rw [methodEntries_eq, List.mem_cons, List.mem_map] at hin
    rcases hin with rfl | ⟨p, -, rfl⟩
    · rcases hkind with hkind | hkind <;> cases hkind
    · rcases hkind with hkind | hkind <;> cases hkind
  · obtain ⟨p, -, rfl⟩ := List.mem_map.mp hin
    have hproperty : (propertyEntry (name t.fqn) p).role.kind =
        if p.isConst then .constant else .property := rfl
    rw [hproperty] at hkind
    split at hkind
    · rcases hkind with hkind | hkind <;> cases hkind
    · rcases hkind with hkind | hkind <;> cases hkind

/-- An assembly has a table exactly if its names are distinct. The table holds one symbol for each
name, in the order of the names; without a table, the fault tells the first name that comes again.
Where the names of types, methods and properties have no colons, the members of a class or an
interface are its constructor, its methods and its properties, in this order. -/
theorem build_exact (a : Assembly) :
    ((∃ table, Symbols.build a = .ok table) ↔ (names a).Nodup) ∧
    (∀ table, Symbols.build a = .ok table →
      SymbolTable.symbols table = entries a ∧
      (SymbolTable.symbols table).map (·.fqn) = names a ∧
      ∀ fqn e, SymbolTable.lookup table fqn = some e ↔ e ∈ entries a ∧ e.fqn = fqn) ∧
    (∀ fault, Symbols.build a = .error fault →
      ∃ name, fault = .symbolCollision name ∧ SymbolTable.FirstRepeated (names a) name) ∧
    ∀ table, Symbols.build a = .ok table → (∀ t ∈ a.types.values, ColonlessNames t) →
      ∀ owner ∈ SymbolTable.symbols table,
        owner.role.kind = .classType ∨ owner.role.kind = .interface →
          ∃ t ∈ a.types.values, owner = typeEntry t ∧
            Symbols.members table owner = memberEntries t := by
  refine ⟨?_, fun table hbuild => ?_, fun fault hfault => ?_, ?_⟩
  · rw [← map_fqn_entries]
    exact SymbolTable.registerAll_ok_iff
  · have hsymbols := SymbolTable.symbols_of_registerAll hbuild
    exact ⟨hsymbols, hsymbols ▸ map_fqn_entries a, fun fqn e =>
      SymbolTable.lookup_eq_some_iff_of_registerAll hbuild⟩
  · rw [← map_fqn_entries]
    exact SymbolTable.firstRepeated_of_registerAll hfault
  · intro table hbuild hcolonless owner howner hkind
    rw [SymbolTable.symbols_of_registerAll hbuild] at howner
    obtain ⟨t, ht, rfl⟩ := exists_type_of_kind howner hkind
    exact ⟨t, ht, rfl, members_typeEntry hbuild hcolonless ht⟩

def gadgets : Assembly :=
  (((Assembly.ofModule "acme" "1.0.0" "acme").withType
    (.interface { InterfaceType.ofFqn "acme.IShape" with methods := [{ name := "area" }] })).withType
    (.class { ClassType.ofFqn "acme.widgets.Gadget" with
      interfaces := ["acme.IShape"]
      initializer := some { parameters := [{ name := "size", type := .primitive .number }] }
      methods := [{
        name := "spin"
        parameters := [{ name := "parts", type := .primitive .string, variadic := true }] }]
      properties := [{ name := "label", type := .primitive .string, isConst := true }] })).withType
    (.enum (EnumType.ofFqn "acme.Color" ["RED"]))

def hyphenated : Assembly :=
  ((Assembly.ofModule "acme" "1.0.0" "acme").withType
    (.class (ClassType.ofFqn "acme.foo-bar.Gadget"))).withType
    (.class (ClassType.ofFqn "acme.fooBar.Gadget"))

theorem colonlessNames_gadgets : ∀ t ∈ gadgets.types.values, ColonlessNames t := by
  have hall : gadgets.types.values.all (fun t => decide (ColonlessNames t)) = true := by
    decide +kernel
  exact fun t ht => of_decide_eq_true (List.all_eq_true.mp hall t ht)

theorem build_exact_gadgets :
    (∃ table, Symbols.build gadgets = .ok table ∧
      (SymbolTable.symbols table).map (·.fqn) =
        ["Acme\\IShape", "Acme\\IShape::area", "Acme\\Widgets\\Gadget",
          "Acme\\Widgets\\Gadget::__construct", "Acme\\Widgets\\Gadget::__construct::$size",
          "Acme\\Widgets\\Gadget::spin", "Acme\\Widgets\\Gadget::spin::$parts",
          "Acme\\Widgets\\Gadget::label", "Acme\\Color"] ∧
      ∃ owner, SymbolTable.lookup table "Acme\\Widgets\\Gadget" = some owner ∧
        ∃ t ∈ gadgets.types.values, owner = typeEntry t ∧
          Symbols.members table owner = memberEntries t) ∧
    ∃ name, Symbols.build hyphenated = .error (.symbolCollision name) ∧
      SymbolTable.FirstRepeated (names hyphenated) name := by
  constructor
  · obtain ⟨htable, hsymbols, -, hmembers⟩ := build_exact gadgets
    have hdistinct : (names gadgets).Nodup := by decide +kernel
    obtain ⟨table, hbuild⟩ := htable.mpr hdistinct
    obtain ⟨hentries, hnames, hlookup⟩ := hsymbols table hbuild
    have hfound : ((entries gadgets).find? fun e =>
        e.fqn = "Acme\\Widgets\\Gadget").map (·.role.kind) = some .classType := by
      decide +kernel
    obtain ⟨owner, howner, hkind⟩ := Option.map_eq_some_iff.mp hfound
    have hin := List.mem_of_find?_eq_some howner
    have hfqn : owner.fqn = "Acme\\Widgets\\Gadget" := by simpa using List.find?_some howner
    refine ⟨table, hbuild, hnames.trans (by decide +kernel), owner,
      (hlookup _ owner).mpr ⟨hin, hfqn⟩, ?_⟩
    exact hmembers table hbuild colonlessNames_gadgets owner (hentries ▸ hin) (.inl hkind)
  · obtain ⟨htable, -, hfault, -⟩ := build_exact hyphenated
    have hrepeated : ¬ (names hyphenated).Nodup := by decide +kernel
    cases hbuild : Symbols.build hyphenated with
    | ok table => exact absurd (htable.mp ⟨table, hbuild⟩) hrepeated
    | error fault =>
      obtain ⟨name, rfl, hfirst⟩ := hfault fault hbuild
      exact ⟨name, rfl, hfirst⟩

end Namespaced

end Bindery
