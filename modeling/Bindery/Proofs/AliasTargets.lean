import Bindery.Proofs.AliasTable
import Bindery.Proofs.ImportPath
import Bindery.Proofs.ReferredTypes

/-!
# What aliases stand for

An alias is made of a name and eight digits of a digest. For an item of another module both come
from the item, and the digest covers the module and the item. For a package of another assembly the
name is that of the package with its dots made underscores, and the digest covers the assembly
alone. So two aliases that agree, although their digests tell all texts apart, belong to one item or
to packages of one assembly; and two packages whose names differ only in dots and underscores
share their alias.
-/

namespace Bindery

open Api Dotted

namespace Binding

theorem exists_bindings_of_collectAliases {m : Model} {table : AliasTable}
    (h : collectAliases m = .ok table) :
    ∃ bindings : List AliasBinding, table = bindings.foldl .add .empty ∧
      ∀ b, b ∈ bindings ↔ ∃ place ∈ m.modules, ∃ home imports i,
        m.pythonName place.fqn = .ok home ∧ moduleImports m place = .ok imports ∧
        imports.contains i = true ∧ i.binding? home.path = some b := by
  rw [collectAliases] at h
  generalize m.modules = places at h ⊢
  generalize AliasTable.empty = start at h ⊢
  induction places generalizing start with
  | nil =>
    obtain rfl := Outcome.pure_eq_ok.mp h
    exact ⟨[], rfl, by simp⟩
  | cons place places ih =>
    simp only [List.foldlM_cons, Outcome.bind_eq_ok, Outcome.pure_eq_ok] at h
    obtain ⟨_, ⟨home, hhome, imports, himports, rfl⟩, h⟩ := h
    obtain ⟨bindings, rfl, hbindings⟩ := ih _ h
    refine ⟨imports.toList.filterMap (·.binding? home.path) ++ bindings, ?_, fun b => ?_⟩
    · rw [List.foldl_append, AliasTable.addImports]
    · rw [List.mem_append, hbindings, List.mem_filterMap]
      constructor
      · rintro (⟨i, hi, hb⟩ | ⟨other, hother, hrest⟩)
        · exact ⟨place, List.mem_cons_self, home, imports, i, hhome, himports,
            Imports.mem_toList.mp hi, hb⟩
        · exact ⟨other, List.mem_cons_of_mem place hother, hrest⟩
      · rintro ⟨other, hother, home', imports', i, hhome', himports', hi, hb⟩
        rcases List.mem_cons.mp hother with rfl | hother
        · obtain rfl := Except.ok.inj (hhome.symm.trans hhome')
          obtain rfl := Except.ok.inj (himports.symm.trans himports')
          exact .inl ⟨i, Imports.mem_toList.mpr hi, hb⟩
        · exact .inr ⟨other, hother, home', imports', i, hhome', himports', hi, hb⟩

end Binding

/-- What a reference imports: an item of another module of the assembly, or a package of another
assembly as a whole. -/
inductive AliasTarget where
  | item (owner outermost : String)
  | package (assembly name : String)
  deriving DecidableEq

namespace AliasTarget

def hashed : AliasTarget → List String
  | item owner outermost => [owner, ".", outermost]
  | package assembly _ => [assembly, ".*"]

def spelled : AliasTarget → String
  | item _ outermost => outermost
  | package _ name => Text.replaceChar '.' '_' name

def handle (t : AliasTarget) : String := "_" ++ t.spelled ++ "_" ++ aliasSuffix t.hashed

def entry : AliasTarget → AliasEntry
  | item owner outermost => { source := owner, item := outermost }
  | package _ name => { source := name, item := "" }

def toImport (home : String) (t : AliasTarget) : Import :=
  match t with
  | item owner outermost =>
    { source := ImportPath.relative home owner, item := outermost ++ " as " ++ t.handle }
  | package _ name => { source := name ++ " as " ++ t.handle, item := "" }

/-- Two packages of one assembly whose names differ in dots and underscores only, or an item with
the name of the mark that stands for whole packages, in a module called like the assembly. -/
inductive Clashes : AliasTarget → AliasTarget → Prop
  | packages {assembly first second : String} (hne : first ≠ second)
      (halike : Text.replaceChar '.' '_' first = Text.replaceChar '.' '_' second) :
      Clashes (package assembly first) (package assembly second)
  | star {assembly : String} : Clashes (item assembly "*") (package assembly "*")

theorem length_aliasSuffix (parts : List String) : (aliasSuffix parts).toList.length = 8 := by
  have hword : ∀ w, (Text.Digest.hexWord w).length = 8 := by
    simp [Text.Digest.hexWord, Text.Digest.hexByte]
  have hhex : (Text.Digest.hex (String.join parts)).toList.length = 64 := by
    simp [Text.Digest.hex, Text.Digest.State.words, hword]
  simp [aliasSuffix, hhex]

theorem handle_inj {t t' : AliasTarget} (h : t.handle = t'.handle) :
    t.spelled = t'.spelled ∧ aliasSuffix t.hashed = aliasSuffix t'.hashed := by
  have hchars := congrArg String.toList h
  simp only [handle, String.toList_append, List.append_assoc] at hchars
  have hrest := List.append_cancel_left hchars
  rw [← List.append_assoc, ← List.append_assoc] at hrest
  obtain ⟨hspelled, hsuffix⟩ := List.append_inj' hrest
    (by rw [length_aliasSuffix, length_aliasSuffix])
  exact ⟨String.toList_inj.mp (List.append_cancel_right hspelled), String.toList_inj.mp hsuffix⟩

theorem join_hashed_item (owner outermost : String) :
    String.join (item owner outermost).hashed = owner ++ "." ++ outermost := by
  simp [hashed, String.join]

theorem join_hashed_package (assembly name : String) :
    String.join (package assembly name).hashed = assembly ++ "." ++ "*" := by
  rw [String.append_assoc]
  simp [hashed, String.join]

theorem replaceChar_eq_star {text : String} (h : Text.replaceChar '.' '_' text = "*") :
    text = "*" := by
  have hchars := congrArg String.toList h
  simp only [Text.replaceChar, String.toList_ofList] at hchars
  obtain ⟨c, hc, heq⟩ := List.map_eq_singleton_iff.mp hchars
  split at heq
  · exact absurd heq (by decide)
  · apply String.toList_inj.mp
    rw [hc, heq]
    rfl

theorem entry_eq_or_clashes {t t' : AliasTarget} (ht : ∀ owner outermost, t = item owner outermost →
    Undotted outermost) (ht' : ∀ owner outermost, t' = item owner outermost → Undotted outermost)
    (hspelled : t.spelled = t'.spelled) (hhashed : String.join t.hashed = String.join t'.hashed) :
    t.entry = t'.entry ∨ t.Clashes t' ∨ t'.Clashes t := by
  have hstar : Undotted "*" := by decide
  cases t with
  | item owner outermost =>
    cases t' with
    | item owner' outermost' =>
      rw [join_hashed_item, join_hashed_item] at hhashed
      obtain ⟨rfl, rfl⟩ := child_eq_child (ht _ _ rfl) (ht' _ _ rfl) hhashed
      exact .inl rfl
    | package assembly name =>
      rw [join_hashed_item, join_hashed_package] at hhashed
      obtain ⟨rfl, rfl⟩ := child_eq_child (ht _ _ rfl) hstar hhashed
      obtain rfl : name = "*" := replaceChar_eq_star hspelled.symm
      exact .inr (.inl .star)
  | package assembly name =>
    cases t' with
    | item owner outermost =>
      rw [join_hashed_item, join_hashed_package] at hhashed
      obtain ⟨rfl, rfl⟩ := child_eq_child hstar (ht' _ _ rfl) hhashed
      obtain rfl : name = "*" := replaceChar_eq_star hspelled
      exact .inr (.inr .star)
    | package assembly' name' =>
      rw [join_hashed_package, join_hashed_package] at hhashed
      obtain ⟨rfl, -⟩ := child_eq_child hstar hstar hhashed
      by_cases hsame : name = name'
      · exact .inl (hsame ▸ rfl)
      · exact .inr (.inl (.packages hsame hspelled))

theorem Clashes.handle_eq {t t' : AliasTarget} (h : t.Clashes t') : t.handle = t'.handle := by
  cases h with
  | packages hne halike => simp only [handle, hashed, spelled, halike]
  | @star assembly =>
    have hsuffix : aliasSuffix (item assembly "*").hashed =
        aliasSuffix (package assembly "*").hashed := by
      rw [aliasSuffix, aliasSuffix, join_hashed_item, join_hashed_package]
    rw [handle, handle, hsuffix]
    rfl

theorem Clashes.entry_ne {t t' : AliasTarget} (h : t.Clashes t') : t.entry ≠ t'.entry := by
  cases h with
  | packages hne halike => simpa [entry] using hne
  | star => simp [entry]

def aliased : AliasTarget → String
  | item _ outermost => outermost
  | package _ name => name

/-- What the import of a target is read back as. That is its alias and its absolute import, unless
the word `as` occurs in the imported name. -/
def recorded (t : AliasTarget) : Option AliasBinding :=
  (Text.breakOn? " as " (t.aliased ++ " as " ++ t.handle)).map fun cut =>
    match t with
    | item owner _ => { name := cut.2, entry := { source := owner, item := cut.1 } }
    | package _ _ => { name := cut.2, entry := { source := cut.1, item := "" } }

def Reachable (home : String) : AliasTarget → Prop
  | item owner _ => Proper home ∧ Proper owner
  | package _ name => name.toList.head? ≠ some '.'

theorem recorded_of_unblank {t : AliasTarget} (h : ' ' ∉ t.aliased.toList) :
    t.recorded = some { name := t.handle, entry := t.entry } := by
  rw [recorded, Text.breakOn?_as h]
  cases t with
  | item owner outermost => rfl
  | package assembly name => rfl

theorem head?_of_breakOn? {name handle first second : String} (hname : name.toList.head? ≠ some '.')
    (h : Text.breakOn? " as " (name ++ " as " ++ handle) = some (first, second)) :
    first.toList.head? ≠ some '.' := by
  have htext := congrArg String.toList (Text.breakOn?_eq_some_iff.mp h).1
  simp only [String.toList_append] at htext
  intro hdot
  have hhead : (name.toList ++ " as ".toList ++ handle.toList).head? = some '.' := by
    rw [htext]
    simp [List.head?_append, hdot]
  cases hcs : name.toList with
  | nil => simp [hcs] at hhead
  | cons c rest =>
    rw [hcs] at hname hhead
    exact hname hhead

theorem binding?_toImport {home : String} {t : AliasTarget} (h : t.Reachable home) :
    (t.toImport home).binding? home = t.recorded := by
  obtain ⟨first, second, hbreak⟩ := Text.exists_breakOn? " as " t.aliased t.handle
  rw [recorded, hbreak]
  cases t with
  | item owner outermost =>
    have hitem : (outermost ++ " as " ++ (item owner outermost).handle).isEmpty = false := by
      simp
    rw [aliased] at hbreak
    simp only [Import.binding?, toImport, hitem, hbreak, ImportPath.absolute_relative h.1 h.2]
    rfl
  | package assembly name =>
    have hfirst := ImportPath.absolute_of_head? home (head?_of_breakOn? h hbreak)
    rw [aliased] at hbreak
    simp only [Import.binding?, toImport, hbreak]
    simp [hfirst]

def IsReadBack (home : String) (t : AliasTarget) : Prop :=
  (t.toImport home).binding? home = some { name := t.handle, entry := t.entry }

theorem IsReadBack.binding?_eq {home : String} {t : AliasTarget} (h : t.IsReadBack home) :
    (t.toImport home).binding? home = some { name := t.handle, entry := t.entry } :=
  h

instance (home : String) (t : AliasTarget) : Decidable (t.IsReadBack home) :=
  inferInstanceAs (Decidable (_ = _))

/-- The names in the import of a target have no empty segments and no blanks. -/
def IsPlain (home : String) : AliasTarget → Prop
  | item owner outermost => Proper home ∧ Proper owner ∧ ' ' ∉ outermost.toList
  | package _ name => Proper name ∧ ' ' ∉ name.toList

theorem isReadBack_of_isPlain {home : String} {t : AliasTarget} (h : t.IsPlain home) :
    t.IsReadBack home := by
  have hplain : t.Reachable home ∧ ' ' ∉ t.aliased.toList := by
    cases t with
    | item owner outermost => exact ⟨⟨h.1, h.2.1⟩, h.2.2⟩
    | package assembly name => exact ⟨h.1.head?_ne_dot, h.2⟩
  rw [IsReadBack, binding?_toImport hplain.1, recorded_of_unblank hplain.2]

end AliasTarget

namespace Catalog

variable {c : Catalog} {fqn : String}

def target (c : Catalog) (module fqn : String) : Outcome (Option AliasTarget) := do
  let name ← c.pythonName fqn
  if name.assembly ≠ c.assembly.name then return some (.package name.assembly name.package)
  else
    let home ← c.pythonName module
    let owner ← c.pythonName (c.owner fqn)
    if owner.path = home.path then return none
    else
      let below ← pathBehind fqn owner.path true name.path
      return some (.item owner.path (head below))

theorem undotted_of_target {module owner outermost : String}
    (h : c.target module fqn = .ok (some (.item owner outermost))) : Undotted outermost := by
  simp only [target, Outcome.bind_eq_ok] at h
  obtain ⟨name, -, h⟩ := h
  split at h
  · cases h
  · simp only [Outcome.bind_eq_ok] at h
    obtain ⟨home, -, place, -, h⟩ := h
    split at h
    · cases h
    · simp only [Outcome.bind_eq_ok, Outcome.pure_eq_ok, Option.some.injEq,
        AliasTarget.item.injEq] at h
      obtain ⟨below, -, -, rfl⟩ := h
      exact undotted_head below

theorem needed?_eq_target {scope : Scope} {home : Package.PythonName} {r : Reference}
    (h : c.resolve scope fqn = .ok r) (hhome : c.pythonName scope.module = .ok home) :
    ∃ target?, c.target scope.module fqn = .ok target? ∧
      r.needed? = target?.map (AliasTarget.toImport home.path) := by
  simp only [target, Outcome.bind_eq_ok]
  cases resolves_of_resolve h with
  | @foreign name hname hforeign h =>
    simp only [resolveForeign, Outcome.bind_eq_ok, Outcome.pure_eq_ok] at h
    obtain ⟨_, -, rfl⟩ := h
    exact ⟨some (.package name.assembly name.package), ⟨name, hname, if_pos hforeign⟩, rfl⟩
  | @inside name home' owner hname hown hhome' howner hsame h =>
    obtain rfl := Except.ok.inj (hhome.symm.trans hhome')
    refine ⟨none, ⟨name, hname, ?_⟩, needed?_of_resolveLocal h⟩
    rw [if_neg (not_not_intro hown)]
    simp only [Outcome.bind_eq_ok]
    exact ⟨home, hhome, owner, howner, if_pos hsame⟩
  | @across name home' owner hname hown hhome' howner hother h =>
    obtain rfl := Except.ok.inj (hhome.symm.trans hhome')
    simp only [resolveAcross, Outcome.bind_eq_ok, Outcome.pure_eq_ok] at h
    obtain ⟨below, hbelow, rfl⟩ := h
    refine ⟨some (.item owner.path (head below)), ⟨name, hname, ?_⟩, rfl⟩
    rw [if_neg (not_not_intro hown)]
    simp only [Outcome.bind_eq_ok]
    refine ⟨home, hhome, owner, howner, ?_⟩
    rw [if_neg hother]
    exact Outcome.bind_eq_ok.mpr ⟨below, hbelow, rfl⟩

end Catalog

namespace Model

def Imports (m : Model) (home : String) (t : AliasTarget) : Prop :=
  ∃ place ∈ m.modules, ∃ name fqn, m.pythonName place.fqn = .ok name ∧ home = name.path ∧
    m.RefersWithin place.fqn fqn ∧ m.target place.fqn fqn = .ok (some t)

/-- No two of the texts that are hashed for aliases have the same digits. -/
def TellsApart (m : Model) : Prop :=
  ∀ home t home' t', m.Imports home t → m.Imports home' t' →
    aliasSuffix t.hashed = aliasSuffix t'.hashed →
      String.join t.hashed = String.join t'.hashed

end Model

namespace Binding

open Model

variable {m : Model} {a : Assembly} {dependencies : List Assembly} {table : AliasTable}

theorem exists_targets_of_collectAliases (hbuild : Model.build a dependencies = .ok m)
    (h : collectAliases m = .ok table) :
    ∃ bindings : List AliasBinding, table = bindings.foldl .add .empty ∧
      ∀ b, b ∈ bindings ↔
        ∃ home t, m.Imports home t ∧ (t.toImport home).binding? home = some b := by
  obtain ⟨bindings, rfl, hbindings⟩ := exists_bindings_of_collectAliases h
  refine ⟨bindings, rfl, fun b => (hbindings b).trans ?_⟩
  constructor
  · rintro ⟨place, hplace, home, imports, i, hhome, himports, hi, hb⟩
    have hcollects := collects_of_moduleImports hbuild hplace himports
    obtain ⟨fqn, r, hrefers, hr, hneeded⟩ := (hcollects.needed i).mp hi
    obtain ⟨target?, htarget, hsame⟩ := Catalog.needed?_eq_target hr hhome
    rw [hneeded] at hsame
    obtain ⟨t, rfl, rfl⟩ := Option.map_eq_some_iff.mp hsame.symm
    exact ⟨home.path, t, ⟨place, hplace, home, fqn, hhome, rfl, hrefers, htarget⟩, hb⟩
  · rintro ⟨_, t, ⟨place, hplace, home, fqn, hhome, rfl, hrefers, htarget⟩, hb⟩
    obtain ⟨imports, himports⟩ := moduleImports_of_collectAliases h hplace
    have hcollects := collects_of_moduleImports hbuild hplace himports
    obtain ⟨r, hr⟩ := hcollects.resolves fqn hrefers
    obtain ⟨target?, htarget', hsame⟩ := Catalog.needed?_eq_target hr hhome
    obtain rfl := Except.ok.inj (htarget.symm.trans htarget')
    have hi := (hcollects.needed _).mpr ⟨fqn, r, hrefers, hr, hsame⟩
    exact ⟨place, hplace, home, imports, _, hhome, himports, hi, hb⟩

/-- Where the digests tell apart what they are taken from, references that share an alias import
the same, unless their targets clash; and where imports are read back as they were meant, the
alias table passes exactly if no two targets clash. -/
theorem verify_eq_ok_iff_not_clashes (hbuild : Model.build a dependencies = .ok m)
    (hcollect : collectAliases m = .ok table) (hdigest : m.TellsApart) :
    (∀ home t home' t', m.Imports home t → m.Imports home' t' → t.handle = t'.handle →
      t.entry = t'.entry ∨ t.Clashes t' ∨ t'.Clashes t) ∧
    (∀ home t, m.Imports home t → t.IsPlain home → t.IsReadBack home) ∧
    ((∀ home t, m.Imports home t → t.IsReadBack home) →
      (table.verify = .ok () ↔
        ∀ home t home' t', m.Imports home t → m.Imports home' t' → ¬ t.Clashes t')) := by
  have hundotted : ∀ home t, m.Imports home t → ∀ owner outermost,
      t = .item owner outermost → Undotted outermost := by
    rintro home _ ⟨place, -, _, fqn, -, -, -, htarget⟩ owner outermost rfl
    exact Catalog.undotted_of_target htarget
  have hcases : ∀ home t home' t', m.Imports home t → m.Imports home' t' →
      t.handle = t'.handle → t.entry = t'.entry ∨ t.Clashes t' ∨ t'.Clashes t := by
    intro home t home' t' ht ht' hhandle
    obtain ⟨hspelled, hsuffix⟩ := AliasTarget.handle_inj hhandle
    exact AliasTarget.entry_eq_or_clashes (hundotted home t ht) (hundotted home' t' ht') hspelled
      (hdigest home t home' t' ht ht' hsuffix)
  refine ⟨hcases, fun home t _ => AliasTarget.isReadBack_of_isPlain, fun hread => ?_⟩
  obtain ⟨bindings, rfl, hbindings⟩ := exists_targets_of_collectAliases hbuild hcollect
  rw [AliasTable.verify_foldl_eq_ok_iff]
  constructor
  · intro hagree home t home' t' ht ht' hclash
    have hb := (hbindings _).mpr ⟨home, t, ht, (hread home t ht).binding?_eq⟩
    have hb' := (hbindings _).mpr ⟨home', t', ht', (hread home' t' ht').binding?_eq⟩
    exact hclash.entry_ne (hagree _ hb _ hb' hclash.handle_eq)
  · intro hnone b hb b' hb' hname
    obtain ⟨home, t, ht, hbinding⟩ := (hbindings b).mp hb
    obtain ⟨home', t', ht', hbinding'⟩ := (hbindings b').mp hb'
    rw [(hread home t ht).binding?_eq, Option.some.injEq] at hbinding
    rw [(hread home' t' ht').binding?_eq, Option.some.injEq] at hbinding'
    rw [← hbinding, ← hbinding'] at hname ⊢
    rcases hcases home t home' t' ht ht' hname with hsame | hclash | hclash
    · exact hsame
    · exact absurd hclash (hnone home t home' t' ht ht')
    · exact absurd hclash (hnone home' t' home t ht' ht)

def liftsNothing (d : Declaration) : Bool :=
  d.members.all fun
    | .method method => method.lifted.isNone
    | _ => true

def mentionedNames (c : Catalog) (d : Declaration) : List String :=
  d.bases ++ d.members.flatMap (fun
    | .method method => (method.returns :: method.arguments.map (·.type)).flatMap (·.mentions)
    | .property property => property.type.mentions
    | _ => []) ++ ((c.fields d.fqn).toOption.getD []).flatMap (·.type.mentions)

theorem mem_mentionedNames {c : Catalog} {d : Declaration} {fqn : String}
    (hd : liftsNothing d = true) (h : c.Refers d fqn) : fqn ∈ mentionedNames c d := by
  rw [mentionedNames, List.append_assoc, List.mem_append, List.mem_append]
  cases h with
  | base h => exact .inl h
  | @method method hmethod h =>
    refine .inr (.inl (List.mem_flatMap.mpr ⟨_, hmethod, List.mem_flatMap.mpr ?_⟩))
    cases h with
    | returns h => exact ⟨_, List.mem_cons_self, h⟩
    | argument ha h => exact ⟨_, List.mem_cons_of_mem _ (List.mem_map_of_mem ha), h⟩
    | lifted hlifted =>
      have hnone := List.all_eq_true.mp hd _ hmethod
      simp [hlifted] at hnone
  | property hproperty h => exact .inr (.inl (List.mem_flatMap.mpr ⟨_, hproperty, h⟩))
  | field hshape hfields hfield h =>
    refine .inr (.inr (List.mem_flatMap.mpr ⟨_, ?_, h⟩))
    rw [hfields]
    exact hfield

def importings (m : Model) : List (String × AliasTarget) :=
  m.modules.flatMap fun place =>
    (m.pythonName place.fqn).toOption.toList.flatMap fun home =>
      (m.symbols.symbols.flatMap (mentionedNames m.toCatalog)).filterMap fun fqn =>
        (m.target place.fqn fqn).toOption.join.map fun t => (home.path, t)

theorem mem_importings (hm : m.symbols.symbols.all liftsNothing = true) {home : String}
    {t : AliasTarget} (h : m.Imports home t) : (home, t) ∈ importings m := by
  obtain ⟨place, hplace, name, fqn, hname, rfl, ⟨d, hwithin, hrefers⟩, htarget⟩ := h
  have hd := hwithin.mem_symbols
  have hmentioned := mem_mentionedNames (List.all_eq_true.mp hm d hd) hrefers
  refine List.mem_flatMap.mpr ⟨place, hplace, List.mem_flatMap.mpr ⟨name, by simp [hname,
    Except.toOption], List.mem_filterMap.mpr ⟨fqn, List.mem_flatMap.mpr ⟨d, hd, hmentioned⟩, ?_⟩⟩⟩
  simp [htarget, Except.toOption]

def digestsDiffer (m : Model) : Bool :=
  (importings m).all fun (_, t) => (importings m).all fun (_, t') =>
    String.join t.hashed = String.join t'.hashed || aliasSuffix t.hashed ≠ aliasSuffix t'.hashed

theorem tellsApart_of_digestsDiffer (hm : m.symbols.symbols.all liftsNothing = true)
    (h : digestsDiffer m = true) : m.TellsApart := by
  intro home t home' t' ht ht' hsuffix
  have hpair := List.all_eq_true.mp (List.all_eq_true.mp h _ (mem_importings hm ht)) _
    (mem_importings hm ht')
  simpa [hsuffix] using hpair

def gadgetUser (first second : String) : Assembly :=
  (Assembly.ofModule "Acme" "1.0.0" "acme").withType
    (.class { ClassType.ofFqn "Acme.Gadget" with
      properties := [{ name := "first", type := .named first },
        { name := "second", type := .named second }] })

def library : Assembly :=
  (((((Assembly.ofModule "Base" "1.0.0" "base_lib").withSubmodule "Base.a_b" none).withSubmodule
    "Base.a" none).withSubmodule "Base.a.b" none).withType (.class (.ofFqn "Base.a_b.Flat"))).withType
    (.class (.ofFqn "Base.a.b.Deep"))

def tabled (a : Assembly) (dependencies : List Assembly) : Outcome (Model × AliasTable) := do
  let m ← Model.build a dependencies
  return (m, ← collectAliases m)

theorem tabled_eq_ok {table : AliasTable} (h : tabled a dependencies = .ok (m, table)) :
    Model.build a dependencies = .ok m ∧ collectAliases m = .ok table := by
  simp only [tabled, Outcome.bind_eq_ok, Outcome.pure_eq_ok, Prod.mk.injEq] at h
  obtain ⟨_, hbuild, _, hcollect, rfl, rfl⟩ := h
  exact ⟨hbuild, hcollect⟩

def aliasView (m : Model) : Bool × Bool × Bool × Bool :=
  (m.symbols.symbols.all liftsNothing, digestsDiffer m,
    (importings m).all fun (home, t) => decide (t.IsReadBack home),
    (importings m).all fun (_, t) => (importings m).all fun (_, t') =>
      t.entry = t'.entry || t.spelled ≠ t'.spelled)

def apartUser : Assembly :=
  (gadgetUser "Acme.core.Engine" "Base.a.b.Deep").withType (.class (.ofFqn "Acme.core.Engine"))

theorem aliasView_apart :
    ((tabled apartUser [library]).toOption.map fun (m, _) => aliasView m) =
      some (true, true, true, true) := by
  decide +kernel

theorem verify_eq_ok_iff_not_clashes_apart :
    ∃ m table, Model.build apartUser [library] = .ok m ∧ collectAliases m = .ok table ∧
      m.TellsApart ∧ table.verify = .ok () := by
  obtain ⟨⟨m, table⟩, htabled, hview⟩ := Outcome.exists_eq_ok_of_map aliasView_apart
  obtain ⟨hbuild, hcollect⟩ := tabled_eq_ok htabled
  obtain ⟨hlisted, hdigests, hread, hspelled⟩ : m.symbols.symbols.all liftsNothing = true ∧
      digestsDiffer m = true ∧
      ((importings m).all fun (home, t) => decide (t.IsReadBack home)) = true ∧
      ((importings m).all fun (_, t) => (importings m).all fun (_, t') =>
        t.entry = t'.entry || t.spelled ≠ t'.spelled) = true := by
    simpa only [aliasView, Prod.mk.injEq] using hview
  have hapart := tellsApart_of_digestsDiffer hlisted hdigests
  refine ⟨m, table, hbuild, hcollect, hapart, ?_⟩
  refine ((verify_eq_ok_iff_not_clashes hbuild hcollect hapart).2.2 fun home t ht => ?_).mpr ?_
  · exact of_decide_eq_true (List.all_eq_true.mp hread _ (mem_importings hlisted ht))
  · intro home t home' t' ht ht' hclash
    have hpair := List.all_eq_true.mp (List.all_eq_true.mp hspelled _ (mem_importings hlisted ht)) _
      (mem_importings hlisted ht')
    have hsame := (AliasTarget.handle_inj hclash.handle_eq).1
    simp [hsame, hclash.entry_ne] at hpair

theorem aliasView_clash :
    ((tabled (gadgetUser "Base.a_b.Flat" "Base.a.b.Deep") [library]).toOption.map
      fun (m, table) => (m.symbols.symbols.all liftsNothing, digestsDiffer m,
        table.verify.toOption)) = some (true, true, none) := by
  decide +kernel

theorem packages_share_alias :
    ∃ m table, Model.build (gadgetUser "Base.a_b.Flat" "Base.a.b.Deep") [library] = .ok m ∧
      collectAliases m = .ok table ∧ m.TellsApart ∧ table.verify ≠ .ok () := by
  obtain ⟨⟨m, table⟩, htabled, hview⟩ := Outcome.exists_eq_ok_of_map aliasView_clash
  obtain ⟨hbuild, hcollect⟩ := tabled_eq_ok htabled
  obtain ⟨hlisted, hdigests, hverify⟩ : m.symbols.symbols.all liftsNothing = true ∧
      digestsDiffer m = true ∧ table.verify.toOption = none := by
    simpa only [Prod.mk.injEq] using hview
  refine ⟨m, table, hbuild, hcollect, tellsApart_of_digestsDiffer hlisted hdigests, fun hok => ?_⟩
  rw [hok] at hverify
  cases hverify

end Binding

end Bindery
