import Bindery.Proofs.Imports
import Bindery.Reference.Aliases

/-!
# Theory of alias tables

A table keeps the first import that an alias stands for and remembers every later one that
differs. So it passes exactly when no alias is bound to two imports, and a table that passes holds
each alias with its import and nothing else, in whatever order the modules were added.
-/

namespace Bindery

namespace Text

def Cut (mark text before rest : String) : Prop :=
  text = before ++ mark ++ rest ∧
    ∀ before' rest', text = before' ++ mark ++ rest' →
      before.toList.length ≤ before'.toList.length

theorem breakAt?_eq_some_iff {mark text before rest : List Char} :
    breakAt? mark text = some (before, rest) ↔ text = before ++ mark ++ rest ∧
      ∀ before' rest', text = before' ++ mark ++ rest' → before.length ≤ before'.length := by
  induction text generalizing before with
  | nil =>
    rw [breakAt?]
    split
    · rename_i hmark
      simp +contextual [hmark, eq_comm]
    · rename_i hmark
      simp [hmark]
  | cons c text ih =>
    rw [breakAt?]
    cases hstrip : stripPrefix? mark (c :: text) with
    | some behind =>
      have htext := stripPrefix?_eq_some_iff.mp hstrip
      constructor
      · intro hcut
        obtain ⟨rfl, rfl⟩ := Prod.mk.inj (Option.some.inj hcut)
        exact ⟨htext, fun _ _ _ => Nat.zero_le _⟩
      · intro hcut
        obtain rfl : before = [] := by simpa using hcut.2 [] behind htext
        rw [List.append_cancel_left (htext.symm.trans hcut.1)]
    | none =>
      -- The mark does not stand here, so a cut of the text is one of its tail.
      have hnot : ∀ behind, c :: text ≠ mark ++ behind := fun behind htext => by
        simp [stripPrefix?_eq_some_iff.mpr htext] at hstrip
      rw [Option.map_eq_some_iff]
      constructor
      · rintro ⟨⟨inner, behind⟩, hcut, heq⟩
        obtain ⟨rfl, rfl⟩ := Prod.mk.inj heq
        obtain ⟨htext, hfirst⟩ := ih.mp hcut
        refine ⟨by rw [htext]; rfl, fun before' rest' hother => ?_⟩
        cases before' with
        | nil => exact absurd hother (hnot rest')
        | cons d before' => exact Nat.succ_le_succ (hfirst before' rest' (List.cons.inj hother).2)
      · intro hcut
        cases before with
        | nil => exact absurd hcut.1 (hnot rest)
        | cons d before =>
          obtain ⟨rfl, htext⟩ := List.cons.inj hcut.1
          refine ⟨(before, rest), ih.mpr ⟨htext, fun before' rest' hother => ?_⟩, rfl⟩
          exact Nat.le_of_succ_le_succ (hcut.2 (c :: before') rest' (by rw [hother]; rfl))

theorem breakOn?_eq_some_iff {mark text before rest : String} :
    breakOn? mark text = some (before, rest) ↔ Cut mark text before rest := by
  have htext : ∀ before rest : String, text = before ++ mark ++ rest ↔
      text.toList = before.toList ++ mark.toList ++ rest.toList := by
    intro before rest
    rw [← String.toList_inj, String.toList_append, String.toList_append]
  have hbreak : breakOn? mark text = some (before, rest) ↔
      breakAt? mark.toList text.toList = some (before.toList, rest.toList) := by
    rw [breakOn?, Option.map_eq_some_iff]
    constructor
    · rintro ⟨⟨inner, behind⟩, hcut, heq⟩
      obtain ⟨rfl, rfl⟩ := Prod.mk.inj heq
      simpa using hcut
    · intro hcut
      exact ⟨_, hcut, by simp⟩
  rw [hbreak, breakAt?_eq_some_iff, Cut, htext]
  refine and_congr_right fun _ => ⟨fun hfirst before' rest' hother => ?_,
    fun hfirst before' rest' hother => ?_⟩
  · exact hfirst before'.toList rest'.toList ((htext before' rest').mp hother)
  · have hlength := hfirst (String.ofList before') (String.ofList rest')
      ((htext _ _).mpr (by simpa using hother))
    simpa using hlength

theorem breakAt?_append {c : Char} {mark before rest : List Char} (h : c ∉ before) :
    breakAt? (c :: mark) (before ++ (c :: mark ++ rest)) = some (before, rest) := by
  induction before with
  | nil =>
    have hstrip : stripPrefix? (c :: mark) (c :: (mark ++ rest)) = some rest :=
      stripPrefix?_eq_some_iff.mpr rfl
    rw [List.nil_append, List.cons_append, breakAt?, hstrip]
  | cons d before ih =>
    obtain ⟨hne, hrest⟩ : c ≠ d ∧ c ∉ before := by simpa using h
    have hstrip : stripPrefix? (c :: mark) (d :: (before ++ (c :: mark ++ rest))) = none := by
      rw [stripPrefix?, if_neg hne]
    rw [List.cons_append, breakAt?, hstrip, ih hrest]
    rfl

theorem breakOn?_as {before : String} (h : ' ' ∉ before.toList) (rest : String) :
    breakOn? " as " (before ++ " as " ++ rest) = some (before, rest) := by
  have hbreak := @breakAt?_append ' ' ['a', 's', ' '] before.toList rest.toList h
  have hchars : (before ++ " as " ++ rest).toList =
      before.toList ++ ([' ', 'a', 's', ' '] ++ rest.toList) := by simp
  have hmark : " as ".toList = [' ', 'a', 's', ' '] := by decide
  rw [breakOn?, hchars, hmark, hbreak]
  simp

theorem breakAt?_isSome (mark before rest : List Char) :
    (breakAt? mark (before ++ (mark ++ rest))).isSome = true := by
  induction before with
  | nil =>
    cases htext : mark ++ rest with
    | nil => simp [breakAt?, (List.append_eq_nil_iff.mp htext).1]
    | cons c text =>
      rw [List.nil_append, breakAt?, stripPrefix?_eq_some_iff.mpr htext.symm]
      rfl
  | cons c before ih =>
    rw [List.cons_append, breakAt?]
    split
    · rfl
    · rw [Option.isSome_map, ih]

theorem exists_breakOn? (mark before rest : String) :
    ∃ first second, breakOn? mark (before ++ mark ++ rest) = some (first, second) := by
  have hsome : (breakOn? mark (before ++ mark ++ rest)).isSome = true := by
    rw [breakOn?, Option.isSome_map, String.toList_append, String.toList_append, List.append_assoc]
    exact breakAt?_isSome _ _ _
  obtain ⟨⟨first, second⟩, hbreak⟩ := Option.isSome_iff_exists.mp hsome
  exact ⟨first, second, hbreak⟩

end Text

/-- What an import in a Python module binds: the alias behind the first `as`, of the source if the
whole of it is imported, else of the item. -/
inductive Import.Binds (module : String) : Import → AliasBinding → Prop
  | whole {source target name : String} (hcut : Text.Cut " as " source target name) :
      Binds module ⟨source, ""⟩ ⟨name, ⟨ImportPath.absolute module target, ""⟩⟩
  | partly {source item target name : String} (hitem : item ≠ "")
      (hcut : Text.Cut " as " item target name) :
      Binds module ⟨source, item⟩ ⟨name, ⟨ImportPath.absolute module source, target⟩⟩

theorem Import.binding?_eq_some_iff {module : String} {i : Import} {b : AliasBinding} :
    i.binding? module = some b ↔ i.Binds module b := by
  obtain ⟨source, item⟩ := i
  by_cases hitem : item = ""
  · subst hitem
    simp only [binding?]
    rw [if_pos (by decide), Option.map_eq_some_iff]
    constructor
    · rintro ⟨⟨target, name⟩, hcut, rfl⟩
      exact .whole (Text.breakOn?_eq_some_iff.mp hcut)
    · intro h
      cases h with
      | whole hcut => exact ⟨_, Text.breakOn?_eq_some_iff.mpr hcut, rfl⟩
      | partly hitem => exact absurd rfl hitem
  · simp only [binding?]
    rw [if_neg (by simpa using hitem), Option.map_eq_some_iff]
    constructor
    · rintro ⟨⟨target, name⟩, hcut, rfl⟩
      exact .partly hitem (Text.breakOn?_eq_some_iff.mp hcut)
    · intro h
      cases h with
      | whole => exact absurd rfl hitem
      | partly _ hcut => exact ⟨_, Text.breakOn?_eq_some_iff.mpr hcut, rfl⟩

namespace AliasTable

variable {t : AliasTable} {b : AliasBinding}

theorem find?_add (t : AliasTable) (b : AliasBinding) (name : String) :
    (t.add b).aliases.find? name =
      (t.aliases.find? name).or (if name = b.name then some b.entry else none) := by
  rw [add]
  by_cases hname : name = b.name
  · subst hname
    cases hfound : t.aliases.find? b.name with
    | none => simp [SortedMap.find?_insert]
    | some first =>
      by_cases hsame : first = b.entry <;> simp [hsame, hfound]
  · cases hfound : t.aliases.find? b.name with
    | none => simp [SortedMap.find?_insert, hname]
    | some first =>
      by_cases hsame : first = b.entry <;> simp [hsame, hname]

theorem conflicts_add_eq_nil_iff :
    (t.add b).conflicts = [] ↔
      t.conflicts = [] ∧ ∀ first, t.aliases.find? b.name = some first → first = b.entry := by
  rw [add]
  cases hfound : t.aliases.find? b.name with
  | none => simp
  | some first =>
    by_cases hsame : first = b.entry <;> simp [hsame]

theorem conflicts_foldl_eq_nil_iff {bindings : List AliasBinding} :
    (bindings.foldl add t).conflicts = [] ↔ t.conflicts = [] ∧
      (∀ b ∈ bindings, ∀ first, t.aliases.find? b.name = some first → first = b.entry) ∧
      ∀ b ∈ bindings, ∀ b' ∈ bindings, b.name = b'.name → b.entry = b'.entry := by
  induction bindings generalizing t with
  | nil => simp
  | cons b bindings ih =>
    rw [List.foldl_cons, ih, conflicts_add_eq_nil_iff]
    constructor
    · rintro ⟨⟨hconflicts, hfirst⟩, hbound, hrest⟩
      -- Behind `b` its name is bound, and what follows agrees with what it is bound to.
      have hagree : ∀ b' ∈ bindings, b.name = b'.name → b.entry = b'.entry := by
        intro b' hb' hname
        cases hfound : t.aliases.find? b.name with
        | none => exact hbound b' hb' b.entry (by simp [find?_add, ← hname, hfound])
        | some first =>
          have hboth := hbound b' hb' first (by simp [find?_add, ← hname, hfound])
          exact (hfirst first hfound).symm.trans hboth
      refine ⟨hconflicts, fun b' hb' first hfound => ?_, fun b₁ hb₁ b₂ hb₂ hname => ?_⟩
      · rcases List.mem_cons.mp hb' with rfl | hb'
        · exact hfirst first hfound
        · exact hbound b' hb' first (by simp [find?_add, hfound])
      · rcases List.mem_cons.mp hb₁ with rfl | hin₁ <;> rcases List.mem_cons.mp hb₂ with rfl | hin₂
        · rfl
        · exact hagree b₂ hin₂ hname
        · exact (hagree b₁ hin₁ hname.symm).symm
        · exact hrest b₁ hin₁ b₂ hin₂ hname
    · rintro ⟨hconflicts, hbound, hagree⟩
      refine ⟨⟨hconflicts, hbound b List.mem_cons_self⟩, fun b' hb' first hfound => ?_,
        fun b₁ hb₁ b₂ hb₂ => hagree b₁ (by simp [hb₁]) b₂ (by simp [hb₂])⟩
      rw [find?_add, Option.or_eq_some_iff] at hfound
      rcases hfound with hfound | ⟨-, hnew⟩
      · exact hbound b' (by simp [hb']) first hfound
      · split at hnew
        · rename_i hname
          exact (Option.some.inj hnew).symm.trans
            (hagree b List.mem_cons_self b' (by simp [hb']) hname.symm)
        · cases hnew

theorem verify_eq_ok_iff : t.verify = .ok () ↔ t.conflicts = [] := by
  rw [verify]
  split
  · rename_i hnone
    simp [hnone]
  · rename_i hsome
    simp [hsome]

theorem verify_foldl_eq_ok_iff (bindings : List AliasBinding) :
    (bindings.foldl add .empty).verify = .ok () ↔
      ∀ b ∈ bindings, ∀ b' ∈ bindings, b.name = b'.name → b.entry = b'.entry := by
  rw [verify_eq_ok_iff, conflicts_foldl_eq_nil_iff]
  simp [empty, SortedMap.find?, SortedMap.empty]

theorem find?_foldl_add (bindings : List AliasBinding) (t : AliasTable) (name : String) :
    (bindings.foldl add t).find? name = (t.find? name).or
      ((bindings.find? fun b => b.name = name).map AliasBinding.entry) := by
  induction bindings generalizing t with
  | nil => simp
  | cons b bindings ih =>
    rw [List.foldl_cons, ih, find?, find?_add, Option.or_assoc, List.find?_cons]
    by_cases hname : b.name = name
    · simp [hname, find?]
    · simp [hname, Ne.symm hname, find?]

theorem find?_foldl_of_agree {bindings : List AliasBinding}
    (hagree : ∀ b ∈ bindings, ∀ b' ∈ bindings, b.name = b'.name → b.entry = b'.entry)
    {name : String} {entry : AliasEntry} :
    (bindings.foldl add .empty).find? name = some entry ↔ ⟨name, entry⟩ ∈ bindings := by
  have hempty : empty.find? name = none := rfl
  rw [find?_foldl_add, hempty, Option.none_or, Option.map_eq_some_iff]
  constructor
  · rintro ⟨b, hfound, rfl⟩
    have hname : b.name = name := by simpa using List.find?_some hfound
    exact hname ▸ List.mem_of_find?_eq_some hfound
  · intro hin
    have hsome : (bindings.find? fun b => b.name = name).isSome = true := by
      rw [List.find?_isSome]
      exact ⟨_, hin, by simp⟩
    obtain ⟨b, hfound⟩ := Option.isSome_iff_exists.mp hsome
    have hname : b.name = name := by simpa using List.find?_some hfound
    exact ⟨b, hfound, hagree b (List.mem_of_find?_eq_some hfound) _ hin hname⟩

def ofModules (modules : List (String × Imports)) : AliasTable :=
  modules.foldl (fun t module => t.addImports module.1 module.2) .empty

def Bound (modules : List (String × Imports)) (b : AliasBinding) : Prop :=
  ∃ module ∈ modules, ∃ i, module.2.contains i = true ∧ i.Binds module.1 b

def bindings (modules : List (String × Imports)) : List AliasBinding :=
  modules.flatMap fun module => module.2.toList.filterMap (·.binding? module.1)

theorem ofModules_eq (modules : List (String × Imports)) :
    ofModules modules = (bindings modules).foldl add .empty := by
  rw [bindings, List.foldl_flatMap]
  rfl

theorem mem_bindings {modules : List (String × Imports)} {b : AliasBinding} :
    b ∈ bindings modules ↔ Bound modules b := by
  simp only [bindings, Bound, List.mem_flatMap, List.mem_filterMap, Imports.mem_toList,
    Import.binding?_eq_some_iff]

theorem verify_ofModules_iff (modules : List (String × Imports)) :
    (ofModules modules).verify = .ok () ↔
      ∀ b b', Bound modules b → Bound modules b' → b.name = b'.name → b.entry = b'.entry := by
  rw [ofModules_eq, verify_foldl_eq_ok_iff]
  simp only [mem_bindings]
  exact ⟨fun h b b' hb hb' => h b hb b' hb', fun h b hb b' hb' => h b b' hb hb'⟩

theorem find?_ofModules {modules : List (String × Imports)}
    (h : (ofModules modules).verify = .ok ()) {name : String} {entry : AliasEntry} :
    (ofModules modules).find? name = some entry ↔ Bound modules ⟨name, entry⟩ := by
  rw [ofModules_eq] at h ⊢
  rw [find?_foldl_of_agree ((verify_foldl_eq_ok_iff _).mp h), mem_bindings]

theorem bound_perm {modules modules' : List (String × Imports)} (h : modules'.Perm modules)
    {b : AliasBinding} : Bound modules' b ↔ Bound modules b := by
  simp only [Bound, h.mem_iff]

theorem ofModules_eq_ofModules {modules modules' : List (String × Imports)}
    (h : (ofModules modules).verify = .ok ()) (h' : (ofModules modules').verify = .ok ())
    (hbound : ∀ b, Bound modules' b ↔ Bound modules b) :
    ofModules modules' = ofModules modules := by
  have hfind : ∀ name, (ofModules modules').find? name = (ofModules modules).find? name := by
    intro name
    apply Option.ext
    intro entry
    rw [find?_ofModules h', find?_ofModules h, hbound]
  have haliases : (ofModules modules').aliases = (ofModules modules).aliases :=
    SortedMap.ext_of_find? hfind
  have hconflicts : (ofModules modules').conflicts = (ofModules modules).conflicts :=
    (verify_eq_ok_iff.mp h').trans (verify_eq_ok_iff.mp h).symm
  generalize ofModules modules' = table at haliases hconflicts
  generalize ofModules modules = table' at haliases hconflicts
  cases table
  cases table'
  cases haliases
  cases hconflicts
  rfl

/-- A table of some modules passes exactly when no alias is bound to two imports. One that passes
holds what is bound and nothing else, and the order of the modules does not matter to it. -/
theorem verify_iff_bound_once (modules : List (String × Imports)) :
    ((ofModules modules).verify = .ok () ↔
      ∀ b b', Bound modules b → Bound modules b' → b.name = b'.name → b.entry = b'.entry) ∧
    ((ofModules modules).verify = .ok () → ∀ name entry,
      (ofModules modules).find? name = some entry ↔ Bound modules ⟨name, entry⟩) ∧
    ∀ modules', modules'.Perm modules →
      ((ofModules modules').verify = .ok () ↔ (ofModules modules).verify = .ok ()) ∧
      ((ofModules modules).verify = .ok () → ofModules modules' = ofModules modules) := by
  refine ⟨verify_ofModules_iff modules, fun h name entry => find?_ofModules h,
    fun modules' hperm => ?_⟩
  have hbound : ∀ b, Bound modules' b ↔ Bound modules b := fun b => bound_perm hperm
  have hverify : (ofModules modules').verify = .ok () ↔ (ofModules modules).verify = .ok () := by
    rw [verify_ofModules_iff, verify_ofModules_iff]
    simp only [hbound]
  exact ⟨hverify, fun h => ofModules_eq_ofModules h (hverify.mpr h) hbound⟩

def twoDepths : List (String × Imports) := [
  ("acme", .ofList [⟨".core", "Engine as _Engine_1"⟩]),
  ("acme.widgets", .ofList [⟨"..core", "Engine as _Engine_1"⟩])]

theorem verify_twoDepths : (ofModules twoDepths).verify = .ok () :=
  Outcome.eq_ok_of_toOption (by decide +kernel)

theorem verify_iff_bound_once_two_depths :
    (ofModules twoDepths).verify = .ok () ∧
      Bound twoDepths ⟨"_Engine_1", ⟨"acme.core", "Engine"⟩⟩ ∧
      ofModules twoDepths.reverse = ofModules twoDepths := by
  obtain ⟨-, hfind, hperm⟩ := verify_iff_bound_once twoDepths
  refine ⟨verify_twoDepths, (hfind verify_twoDepths _ _).mp (by decide +kernel), ?_⟩
  exact (hperm _ twoDepths.reverse_perm).2 verify_twoDepths

end AliasTable

end Bindery
