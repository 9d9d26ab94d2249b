import Bindery.Distribution
import Bindery.Proofs.Collection
import Bindery.Proofs.Dotted
import Bindery.Proofs.Outcome
import Mathlib.Data.List.Dedup

/-!
# Files of a package

Every module of a package has a file of its own exactly if no two of their Python names lead to
one path. Where two do, the file map keeps the text of the later module and the earlier one is
gone; the map then holds fewer files than the package has modules.
-/

namespace Bindery

namespace Path

structure Plain (segment : String) : Prop where
  undivided : '/' ∉ segment.toList
  ne_empty : segment ≠ ""
  ne_here : segment ≠ "."
  ne_above : segment ≠ ".."

theorem Plain.not_isAbsolute {segment : String} (h : Plain segment) :
    isAbsolute ⟨segment⟩ = false := by
  rw [isAbsolute, Text.startsWith, Option.isSome_eq_false_iff, Option.isNone_iff_eq_none]
  by_contra hsome
  obtain ⟨rest, hrest⟩ := Option.ne_none_iff_exists'.mp hsome
  have htext : segment = "/" ++ rest := Text.after?_eq_some_iff.mp hrest
  exact h.undivided (by simp [htext])

theorem parts_append (outer inner : String) :
    parts ⟨outer ++ "/" ++ inner⟩ = parts ⟨outer⟩ ++ parts ⟨inner⟩ := by
  simp [parts, Text.split, List.splitOn_append_cons_self]

theorem Plain.parts {segment : String} (h : Plain segment) : parts ⟨segment⟩ = [segment] := by
  simp [Path.parts, Text.split, List.splitOn_eq_singleton h.undivided]

def named (parts : List String) : List Component := (parts.filter (!isIdle ·)).map component

theorem named_append_plain (parts : List String) {segment : String} (h : Plain segment) :
    named (parts ++ [segment]) = named parts ++ [.name segment] := by
  have hidle : isIdle segment = false := by simp [isIdle, h.ne_empty, h.ne_here]
  simp [named, hidle, component, h.ne_above]

theorem named_append_empty (parts : List String) : named (parts ++ [""]) = named parts := by
  simp [named, isIdle]

def componentsOf (isAbsolute : Bool) : List String → List Component
  | "" :: rest => (if isAbsolute then [.root] else []) ++ named rest
  | "." :: rest => .here :: named rest
  | parts => named parts

theorem components_eq (p : Path) : p.components = componentsOf p.isAbsolute p.parts := rfl

theorem componentsOf_append {isAbsolute : Bool} {parts : List String} (hne : parts ≠ [])
    {more : List String} {behind : List Component}
    (hmore : ∀ rest, named (rest ++ more) = named rest ++ behind) :
    componentsOf isAbsolute (parts ++ more) = componentsOf isAbsolute parts ++ behind := by
  cases parts with
  | nil => exact absurd rfl hne
  | cons first rest =>
    rw [List.cons_append]
    by_cases hempty : first = ""
    · subst hempty
      simp only [componentsOf, hmore, List.append_assoc]
    · by_cases hhere : first = "."
      · subst hhere
        simp only [componentsOf, hmore, List.cons_append]
      · have hplain : ∀ tail, componentsOf isAbsolute (first :: tail) = named (first :: tail) := by
          intro tail
          rw [componentsOf]
          · exact fun _ h => hempty (List.cons.inj h).1
          · exact fun _ h => hhere (List.cons.inj h).1
        rw [hplain, hplain, ← List.cons_append, hmore]

theorem isAbsolute_append {text : String} (hne : text ≠ "") (more : String) :
    isAbsolute ⟨text ++ more⟩ = isAbsolute ⟨text⟩ := by
  have hslash : ∀ whole : String, isAbsolute ⟨whole⟩ = true ↔ whole.toList.head? = some '/' := by
    intro whole
    rw [isAbsolute, Text.startsWith, Option.isSome_iff_exists, List.head?_eq_some_iff]
    constructor
    · rintro ⟨rest, hrest⟩
      obtain rfl := Text.after?_eq_some_iff.mp hrest
      exact ⟨rest.toList, by simp⟩
    · rintro ⟨rest, hrest⟩
      refine ⟨String.ofList rest, Text.after?_eq_some_iff.mpr (String.toList_inj.mp ?_)⟩
      simp [hrest]
  have hnonempty : text.toList ≠ [] := by simpa using hne
  rw [Bool.eq_iff_iff, hslash, hslash, String.toList_append,
    List.head?_append_of_ne_nil _ hnonempty]

theorem components_join (p : Path) {segment : String} (h : Plain segment) :
    (p.join ⟨segment⟩).components = p.components ++ [.name segment] := by
  have hadd : ∀ rest, named (rest ++ [segment]) = named rest ++ [.name segment] := fun rest =>
    named_append_plain rest h
  rw [join, h.not_isAbsolute, if_neg (by simp)]
  by_cases hempty : p.text = ""
  · -- Nothing stands before the segment.
    have hparts : componentsOf false [segment] = [.name segment] := by
      rw [componentsOf]
      · exact hadd []
      · exact fun _ heq => h.ne_empty (List.cons.inj heq).1
      · exact fun _ heq => h.ne_here (List.cons.inj heq).1
    have hp : p.components = [] := by
      obtain ⟨text⟩ := p
      obtain rfl : text = "" := hempty
      rfl
    rw [if_pos (by simp [hempty]), hempty, String.empty_append, hp, components_eq, h.parts,
      h.not_isAbsolute, hparts, List.nil_append]
  · by_cases hslash : p.text.toList.getLast? = some '/'
    · -- The path ends in a slash, and its last part is empty.
      obtain ⟨front, hfront⟩ := List.getLast?_eq_some_iff.mp hslash
      have htext : p.text = String.ofList front ++ "/" := by
        apply String.toList_inj.mp
        simp [hfront]
      have hsplit := parts_append (String.ofList front) ""
      rw [String.append_empty, ← htext] at hsplit
      have hlast : parts ⟨""⟩ = [""] := rfl
      have hne : parts ⟨String.ofList front⟩ ≠ [] := Text.split_ne_nil _ _
      have hwhole : p.components = componentsOf p.isAbsolute (parts ⟨String.ofList front⟩) := by
        have hkeep : ∀ rest, named (rest ++ [""]) = named rest ++ [] := fun rest => by
          rw [named_append_empty, List.append_nil]
        rw [components_eq, show p.parts = _ from hsplit, hlast, componentsOf_append hne hkeep,
          List.append_nil]
      rw [if_pos (by simp [hslash]), hwhole, components_eq, isAbsolute_append hempty, htext,
        parts_append, h.parts, componentsOf_append hne hadd]
      rw [← htext]
    · have hne : p.parts ≠ [] := Text.split_ne_nil _ _
      rw [if_neg (by simp [hempty, hslash]), components_eq, String.append_assoc,
        isAbsolute_append hempty, ← String.append_assoc, parts_append, h.parts,
        componentsOf_append hne hadd, ← components_eq]

theorem Component.key_injective : Function.Injective Component.key := by
  intro a b h
  have hchars : a.key.toList = b.key.toList := congrArg String.toList h
  cases a <;> cases b <;> simp [Component.key] at hchars ⊢
  exact String.toList_inj.mp hchars

theorem key_eq_iff {p q : Path} : p.key = q.key ↔ p.components = q.components :=
  (List.map_injective_iff.mpr Component.key_injective).eq_iff

theorem getLast?_components_join (p : Path) {segment : String} (h : Plain segment) :
    (p.join ⟨segment⟩).components.getLast? = some (.name segment) := by
  rw [components_join p h, List.getLast?_concat]

theorem components_foldl_join {segments : List String} (h : ∀ segment ∈ segments, Plain segment)
    (p : Path) :
    (segments.foldl (fun p segment => p.join ⟨segment⟩) p).components =
      p.components ++ segments.map .name := by
  induction segments generalizing p with
  | nil => simp
  | cons segment segments ih =>
    obtain ⟨hfirst, hrest⟩ := List.forall_mem_cons.mp h
    rw [List.foldl_cons, ih hrest, components_join p hfirst, List.map_cons, List.append_assoc,
      List.singleton_append]

end Path

namespace FileMap

variable {files : FileMap} {p : Path} {text : String}

def text? (files : FileMap) (p : Path) : Option String :=
  (files.entries.find? fun entry => entry.1.key = p.key).map Prod.snd

def keys (files : FileMap) : List (List String) := files.entries.map (·.1.key)

theorem text?_insert (files : FileMap) (p q : Path) (text : String) :
    (files.insert p text).text? q = if p.key = q.key then some text else files.text? q := by
  obtain ⟨entries⟩ := files
  show ((place p text entries).find? fun entry => entry.1.key = q.key).map Prod.snd =
    if p.key = q.key then some text
    else (entries.find? fun entry => entry.1.key = q.key).map Prod.snd
  induction entries with
  | nil => by_cases hkey : p.key = q.key <;> simp [place, hkey]
  | cons entry rest ih =>
    rw [place]
    by_cases hsame : entry.1.key = p.key
    · by_cases hkey : p.key = q.key <;> simp [hsame, hkey]
    · rw [if_neg hsame]
      by_cases hbefore : p.key < entry.1.key
      · rw [if_pos hbefore]
        by_cases hkey : p.key = q.key <;> simp [hkey]
      · rw [if_neg hbefore]
        by_cases hentry : entry.1.key = q.key
        · have hkey : p.key ≠ q.key := fun hkey => hsame (hentry.trans hkey.symm)
          simp [hentry, hkey]
        · simpa [hentry] using ih

theorem mem_keys_place {entries : List (Path × String)} {k : List String} :
    k ∈ (place p text entries).map (·.1.key) ↔ k = p.key ∨ k ∈ entries.map (·.1.key) := by
  induction entries with
  | nil => simp [place]
  | cons entry rest ih =>
    rw [place]
    by_cases hsame : entry.1.key = p.key
    · simp [hsame]
    · by_cases hbefore : p.key < entry.1.key
      · simp [hsame, hbefore]
      · rw [if_neg hsame, if_neg hbefore, List.map_cons, List.map_cons, List.mem_cons,
          List.mem_cons, ih]
        exact or_left_comm

theorem sorted_place {entries : List (Path × String)}
    (h : (entries.map (·.1.key)).Pairwise (· < ·)) :
    ((place p text entries).map (·.1.key)).Pairwise (· < ·) := by
  induction entries with
  | nil => simp [place]
  | cons entry rest ih =>
    rw [List.map_cons, List.pairwise_cons] at h
    rw [place]
    by_cases hsame : entry.1.key = p.key
    · simpa [hsame] using h
    · rw [if_neg hsame]
      by_cases hbefore : p.key < entry.1.key
      · rw [if_pos hbefore, List.map_cons, List.map_cons, List.pairwise_cons, List.pairwise_cons]
        refine ⟨fun k hk => ?_, h⟩
        rcases List.mem_cons.mp hk with rfl | hrest
        · exact hbefore
        · exact List.lt_trans hbefore (h.1 k hrest)
      · rw [if_neg hbefore, List.map_cons, List.pairwise_cons]
        refine ⟨fun k hk => ?_, ih h.2⟩
        rcases mem_keys_place.mp hk with rfl | hrest
        · by_contra hafter
          exact hsame (List.le_antisymm (List.not_lt.mp hafter) (List.not_lt.mp hbefore)).symm
        · exact h.1 k hrest

variable (entries : List (Path × String))

theorem text?_foldl_insert (files : FileMap) (q : Path) :
    (entries.foldl (fun files (p, text) => files.insert p text) files).text? q =
      ((entries.reverse.find? fun entry => entry.1.key = q.key).map Prod.snd).or
        (files.text? q) := by
  induction entries generalizing files with
  | nil => simp
  | cons entry rest ih =>
    rw [List.foldl_cons, ih, text?_insert, List.reverse_cons, List.find?_append]
    by_cases hkey : entry.1.key = q.key
    · cases rest.reverse.find? fun entry => entry.1.key = q.key <;> simp [hkey]
    · cases rest.reverse.find? fun entry => entry.1.key = q.key <;> simp [hkey]

theorem text?_ofList (q : Path) :
    (ofList entries).text? q =
      (entries.reverse.find? fun entry => entry.1.key = q.key).map Prod.snd := by
  have hempty : ({} : FileMap).text? q = none := rfl
  rw [ofList, text?_foldl_insert, hempty, Option.or_none]

theorem keys_foldl_insert (files : FileMap) (h : files.keys.Pairwise (· < ·)) :
    let result := entries.foldl (fun files (p, text) => files.insert p text) files
    result.keys.Pairwise (· < ·) ∧
      ∀ k, k ∈ result.keys ↔ k ∈ entries.map (·.1.key) ∨ k ∈ files.keys := by
  induction entries generalizing files with
  | nil => exact ⟨h, by simp⟩
  | cons entry rest ih =>
    obtain ⟨hsorted, hmem⟩ := ih (files.insert entry.1 entry.2) (sorted_place h)
    refine ⟨hsorted, fun k => ?_⟩
    have hinsert : k ∈ (files.insert entry.1 entry.2).keys ↔ k = entry.1.key ∨ k ∈ files.keys :=
      mem_keys_place
    rw [List.foldl_cons, hmem, hinsert, List.map_cons, List.mem_cons]
    tauto

theorem size_ofList : (ofList entries).size = (entries.map (·.1.key)).dedup.length := by
  obtain ⟨hsorted, hmem⟩ := keys_foldl_insert entries {} List.Pairwise.nil
  have hnodup : (ofList entries).keys.Nodup := by
    apply hsorted.imp
    intro k l hlt heq
    subst heq
    exact List.lt_irrefl k hlt
  have hperm : (ofList entries).keys.Perm (entries.map (·.1.key)).dedup := by
    rw [List.perm_ext_iff_of_nodup hnodup (List.nodup_dedup _)]
    intro k
    have hnone : k ∉ ({} : FileMap).keys := List.not_mem_nil
    rw [List.mem_dedup]
    exact (hmem k).trans (or_iff_left hnone)
  rw [← hperm.length_eq, keys, List.length_map]
  rfl

theorem text?_ofList_of_distinct {entries : List (Path × String)}
    (hdistinct : (entries.map (·.1.key)).Nodup) (hentry : (p, text) ∈ entries) :
    (ofList entries).text? p = some text := by
  rw [text?_ofList, find?_reverse_of_distinct hdistinct hentry, Option.map_some]

end FileMap

namespace Distribution

open Api Binding

theorem plain_init : Path.Plain "__init__.py" :=
  ⟨by decide, by decide, by decide, by decide⟩

theorem plain_typed : Path.Plain "py.typed" :=
  ⟨by decide, by decide, by decide, by decide⟩

theorem components_moduleFile {module : String}
    (h : ∀ segment ∈ Dotted.segments module, Path.Plain segment) :
    (moduleFile module).components =
      .name "src" :: (Dotted.segments module).map .name ++ [.name "__init__.py"] := by
  have hdirectory : (moduleDirectory module).components =
      .name "src" :: (Dotted.segments module).map .name :=
    Path.components_foldl_join h ⟨"src"⟩
  rw [moduleFile, Path.components_join _ plain_init, hdirectory]

theorem moduleFile_injective {module other : String}
    (h : ∀ segment ∈ Dotted.segments module, Path.Plain segment)
    (h' : ∀ segment ∈ Dotted.segments other, Path.Plain segment)
    (heq : (moduleFile module).key = (moduleFile other).key) : module = other := by
  have hcomponents := Path.key_eq_iff.mp heq
  rw [components_moduleFile h, components_moduleFile h'] at hcomponents
  have hnames : (Dotted.segments module).map Path.Component.name =
      (Dotted.segments other).map Path.Component.name :=
    (List.cons.inj (List.append_cancel_right hcomponents)).2
  have hsegments : Dotted.segments module = Dotted.segments other :=
    List.map_injective_iff.mpr (fun _ _ h => Path.Component.name.inj h) hnames
  rw [← Dotted.join_segments module, hsegments, Dotted.join_segments]

def modulePaths (rendered : List Rendered) : List (List String) :=
  rendered.map fun r => (moduleFile r.name).key

theorem nodup_modulePaths_iff {rendered : List Rendered}
    (hplain : ∀ r ∈ rendered, ∀ segment ∈ Dotted.segments r.name, Path.Plain segment) :
    (modulePaths rendered).Nodup ↔ (rendered.map (·.name)).Nodup := by
  have hpaths : modulePaths rendered =
      (rendered.map (·.name)).map fun name => (moduleFile name).key := by
    simp only [modulePaths, List.map_map, Function.comp_def]
  rw [hpaths]
  refine ⟨List.Nodup.of_map _, fun hdistinct => hdistinct.map_on ?_⟩
  intro name hname other hother heq
  obtain ⟨r, hr, rfl⟩ := List.mem_map.mp hname
  obtain ⟨r', hr', rfl⟩ := List.mem_map.mp hother
  exact moduleFile_injective (hplain r hr) (hplain r' hr') heq

theorem keys_files (m : Model) (root : Declaration) (rendered : List Rendered) :
    (files m root rendered).map (·.1.key) = modulePaths rendered ++
      [((moduleDirectory root.name).join ⟨"py.typed"⟩).key, Path.key ⟨"README.md"⟩] := by
  simp [files, modulePaths]

theorem disjoint_modulePaths (rendered : List Rendered) (root : Declaration) :
    (modulePaths rendered).Disjoint
      [((moduleDirectory root.name).join ⟨"py.typed"⟩).key, Path.key ⟨"README.md"⟩] := by
  intro k hmodule hother
  obtain ⟨r, -, rfl⟩ := List.mem_map.mp hmodule
  have hlast : (moduleFile r.name).components.getLast? = some (.name "__init__.py") :=
    Path.getLast?_components_join _ plain_init
  rcases List.mem_cons.mp hother with htyped | hreadme
  · rw [Path.key_eq_iff.mp htyped, Path.getLast?_components_join _ plain_typed] at hlast
    exact absurd hlast (by decide)
  · rw [Path.key_eq_iff.mp (List.mem_singleton.mp hreadme)] at hlast
    exact absurd hlast (by decide)

theorem nodup_otherPaths (root : Declaration) :
    [((moduleDirectory root.name).join ⟨"py.typed"⟩).key, Path.key ⟨"README.md"⟩].Nodup := by
  rw [List.nodup_cons, List.mem_singleton]
  refine ⟨fun heq => ?_, List.nodup_singleton _⟩
  have hlast : ((moduleDirectory root.name).join ⟨"py.typed"⟩).components.getLast? =
      some (.name "py.typed") := Path.getLast?_components_join _ plain_typed
  rw [Path.key_eq_iff.mp heq] at hlast
  exact absurd hlast (by decide)

theorem names_of_renderAll {m : Model} {checks : Bool} {rendered : List Rendered}
    (h : renderAll m checks = .ok rendered) :
    ∃ loader, m.loader = .ok loader ∧
      rendered.map (·.name) = loader :: m.modules.map (·.name) := by
  simp only [renderAll, Outcome.bind_eq_ok, Outcome.pure_eq_ok] at h
  obtain ⟨loader, hloader, script, -, modules, hmodules, rfl⟩ := h
  refine ⟨loader, hloader, ?_⟩
  rw [List.map_cons, Outcome.map_eq_map_of_mapM ?_ hmodules]
  intro place r hr
  simp only [Outcome.bind_eq_ok, Outcome.pure_eq_ok] at hr
  obtain ⟨_, -, rfl⟩ := hr
  rfl

/-- A package holds the text of every rendered module exactly if no two modules stand in one
place. In general the last text of every place is kept, and no fault is raised. -/
theorem generate_keeps_last {a : Assembly} {dependencies : List Assembly} {checks : Bool}
    {map : FileMap} (h : generate a dependencies checks = .ok map) :
    ∃ m root rendered loader, Model.build a dependencies = .ok m ∧
      m.declaration a.name = .ok root ∧ renderAll m checks = .ok rendered ∧
      m.loader = .ok loader ∧ rendered.map (·.name) = loader :: m.modules.map (·.name) ∧
      (∀ p, map.text? p = ((files m root rendered).reverse.find? fun file =>
        file.1.key = p.key).map Prod.snd) ∧
      map.size = (modulePaths rendered).dedup.length + 2 ∧
      (map.size = m.modules.length + 3 ↔ (modulePaths rendered).Nodup) ∧
      ((modulePaths rendered).Nodup → ∀ r ∈ rendered,
        map.text? (moduleFile r.name) = some r.text) ∧
      ((∀ r ∈ rendered, ∀ segment ∈ Dotted.segments r.name, Path.Plain segment) →
        ((modulePaths rendered).Nodup ↔ (loader :: m.modules.map (·.name)).Nodup)) := by
  simp only [generate, Outcome.bind_eq_ok, Outcome.pure_eq_ok] at h
  obtain ⟨m, hbuild, _, -, _, -, rendered, hrendered, root, hroot, rfl⟩ := h
  obtain ⟨loader, hloader, hnames⟩ := names_of_renderAll hrendered
  have hdisjoint := disjoint_modulePaths rendered root
  have hsize : (FileMap.ofList (files m root rendered)).size =
      (modulePaths rendered).dedup.length + 2 := by
    rw [FileMap.size_ofList, keys_files, hdisjoint.dedup_append,
      (nodup_otherPaths root).dedup, List.length_append]
    rfl
  have hlength : (modulePaths rendered).length = m.modules.length + 1 := by
    rw [modulePaths, List.length_map, ← List.length_map (·.name), hnames, List.length_cons,
      List.length_map]
  refine ⟨m, root, rendered, loader, hbuild, hroot, hrendered, hloader, hnames,
    FileMap.text?_ofList _, hsize, ?_, ?_, ?_⟩
  · rw [hsize, ← List.dedup_eq_self, ← (List.dedup_sublist _).length_eq, hlength]
    omega
  · intro hdistinct r hr
    have hkeys : ((files m root rendered).map (·.1.key)).Nodup := by
      rw [keys_files]
      exact List.Nodup.append hdistinct (nodup_otherPaths root) hdisjoint
    have hfile : (moduleFile r.name, r.text) ∈ files m root rendered :=
      List.mem_append_left _ (List.mem_map_of_mem hr)
    exact FileMap.text?_ofList_of_distinct hkeys hfile
  · intro hplain
    rw [nodup_modulePaths_iff hplain, hnames]

def twoSubmodules (left right : String) : Assembly :=
  ((((Assembly.ofModule "Acme" "1.0.0" "acme").withSubmodule ("Acme." ++ left) none).withSubmodule
    ("Acme." ++ right) none).withType (.class (.ofFqn ("Acme." ++ left ++ ".Left")))).withType
      (.class (.ofFqn ("Acme." ++ right ++ ".Right")))

theorem size_twoSubmodules_apart :
    (Model.build (twoSubmodules "left" "right") []).toOption.map (·.modules.length) = some 3 ∧
      (generate (twoSubmodules "left" "right") [] false).toOption.map FileMap.size = some 6 := by
  decide +kernel

theorem generate_keeps_last_apart :
    ∃ m rendered map, Model.build (twoSubmodules "left" "right") [] = .ok m ∧
      renderAll m false = .ok rendered ∧
      generate (twoSubmodules "left" "right") [] false = .ok map ∧
      map.size = m.modules.length + 3 ∧
      ∀ r ∈ rendered, map.text? (moduleFile r.name) = some r.text := by
  obtain ⟨hmodules, hfiles⟩ := size_twoSubmodules_apart
  obtain ⟨map, hmap, hsize⟩ := Outcome.exists_eq_ok_of_map hfiles
  obtain ⟨m', hbuild', hlength⟩ := Outcome.exists_eq_ok_of_map hmodules
  obtain ⟨m, root, rendered, loader, hbuild, -, hrendered, -, -, -, -, hall, htexts, -⟩ :=
    generate_keeps_last hmap
  obtain rfl : m' = m := Except.ok.inj (hbuild'.symm.trans hbuild)
  have hcount : map.size = m'.modules.length + 3 := by rw [hsize, hlength]
  exact ⟨m', rendered, map, hbuild, hrendered, hmap, hcount, htexts (hall.mp hcount)⟩

def survey (a : Assembly) : Outcome (ℕ × Bool × ℕ) := do
  let m ← Model.build a []
  let rendered ← renderAll m false
  let map ← generate a [] false
  return (m.modules.length, decide (modulePaths rendered).Nodup, map.size)

theorem survey_clash : survey (twoSubmodules "fooBar" "foo_bar") = .ok (3, false, 5) :=
  Outcome.eq_ok_of_toOption (by decide +kernel)

theorem submodules_share_file :
    ∃ m rendered map, Model.build (twoSubmodules "fooBar" "foo_bar") [] = .ok m ∧
      renderAll m false = .ok rendered ∧
      generate (twoSubmodules "fooBar" "foo_bar") [] false = .ok map ∧
      ¬ (modulePaths rendered).Nodup ∧ m.modules.length = 3 ∧ map.size = 5 := by
  have hsurvey := survey_clash
  simp only [survey, Outcome.bind_eq_ok, Outcome.pure_eq_ok, Prod.mk.injEq,
    decide_eq_false_iff_not] at hsurvey
  obtain ⟨m, hbuild, rendered, hrendered, map, hmap, hmodules, hshared, hsize⟩ := hsurvey
  exact ⟨m, rendered, map, hbuild, hrendered, hmap, hshared, hmodules, hsize⟩

end Distribution

end Bindery
