import Bindery.Namespaced.Name
import Bindery.Proofs.PackageLinks

/-!
# Reserved words in paths

The path of a name continues the Python module of its anchor with a component for each segment
behind it. A segment below the package is escaped last, so it never stays a reserved word. A
submodule is escaped first and turned to snake case after that, and a spelling that differs from a
reserved word in its case only passes the first step and becomes the word in the second. These
spellings are known: the word with a capital letter in front, or the word in capital letters.
-/

namespace Bindery

namespace Text

open CaseTable

/-- The Kelvin sign is the only character outside ASCII that is lowered to a letter of it. -/
def kelvin : Char := 'K'

theorem lowerShifts_leave_ascii :
    ∀ s ∈ lowerShifts, (s.run.first = kelvin.toNat ∧ s.run.last = kelvin.toNat) ∨
      0x80 ≤ (s.run.first : Int) + s.distance := by
  decide +kernel

theorem lowerSpecials_leave_ascii :
    ∀ s ∈ lowerSpecials, (s.2.map Char.ofNat).all Char.isAlpha = false := by
  decide +kernel

theorem toNat_lt_of_isAlpha {c : Char} (h : c.isAlpha = true) : c.toNat < 0x80 := by
  have hbounds : c.val ≤ 'Z'.val ∨ c.val ≤ 'z'.val := by
    rcases Bool.or_eq_true_iff.mp h with hupper | hlower
    · exact .inl (of_decide_eq_true hupper).2
    · exact .inr (of_decide_eq_true (Bool.and_eq_true_iff.mp hlower).2)
  rw [UInt32.le_iff_toNat_le, UInt32.le_iff_toNat_le] at hbounds
  have hz : 'z'.val.toNat = 122 := rfl
  have hZ : 'Z'.val.toNat = 90 := rfl
  have hval : c.toNat = c.val.toNat := rfl
  omega

theorem isAlpha_ofNat_of_le {n : ℕ} (h : 0x80 ≤ n) : (Char.ofNat n).isAlpha = false := by
  by_contra halpha
  rw [Bool.not_eq_false] at halpha
  rcases toNat_ofNat_or n with hn | hnull
  · have hascii := toNat_lt_of_isAlpha halpha
    omega
  · rw [hnull] at halpha
    exact absurd halpha (by decide)

def Lettered (c : Char) : Prop := c.isAlpha = true ∨ c = kelvin

theorem lettered_of_lowerChar {c : Char} (h : ∀ x ∈ lowerChar c, x.isAlpha = true) :
    Lettered c := by
  rw [lowerChar] at h
  split at h
  · rename_i hascii
    have hlower : c.toLower.isAlpha = true := h _ List.mem_cons_self
    refine .inl (forall_ascii (P := fun c => c.toLower.isAlpha = true → c.isAlpha = true) ?_
      (of_decide_eq_true hascii) hlower)
    decide
  · rename_i hascii
    rw [mapChar] at h
    split at h
    · rename_i image hfind
      have hnot := lowerSpecials_leave_ascii _ (List.mem_of_find?_eq_some hfind)
      rw [List.all_eq_true.mpr h] at hnot
      cases hnot
    · split at h
      · rename_i s hfind
        have hholds := List.find?_some hfind
        simp only [Run.holds, Bool.and_eq_true, decide_eq_true_eq] at hholds
        have hin : s ∈ lowerShifts := List.mem_of_find?_eq_some hfind
        rcases lowerShifts_leave_ascii s hin with ⟨hfirst, hlast⟩ | hfar
        · exact .inr (Char.toNat_inj.mp (by omega))
        · have hbehind : 0x80 ≤ ((c.toNat : Int) + s.distance).toNat := by omega
          exact absurd (h _ List.mem_cons_self) (by simp [isAlpha_ofNat_of_le hbehind])
      · exact .inl (h c List.mem_cons_self)

theorem Lettered.capital_or_small {c : Char} (h : Lettered c) :
    (isUpper c = true ∧ isLower c = false ∧ upperChar c = [c]) ∨
      (isUpper c = false ∧ isLower c = true ∧ lowerChar c = [c]) := by
  rcases h with halpha | rfl
  · refine forall_ascii (P := fun c => c.isAlpha = true →
      (isUpper c = true ∧ isLower c = false ∧ upperChar c = [c]) ∨
        (isUpper c = false ∧ isLower c = true ∧ lowerChar c = [c])) ?_
      (toNat_lt_of_isAlpha halpha) halpha
    decide +kernel
  · decide +kernel

theorem upperChar_toLower {c : Char} (halpha : c.isAlpha = true) (h : isUpper c = true) :
    lowerChar c = [c.toLower] ∧ upperChar c.toLower = [c] := by
  refine forall_ascii (P := fun c => c.isAlpha = true → isUpper c = true →
    lowerChar c = [c.toLower] ∧ upperChar c.toLower = [c]) ?_ (toNat_lt_of_isAlpha halpha) halpha h
  decide +kernel

theorem underscore_mem_lowerFrom {before text : List Char} (h : '_' ∈ text) :
    '_' ∈ lowerFrom before text := by
  induction text generalizing before with
  | nil => cases h
  | cons c text ih =>
    rw [lowerFrom, List.mem_append]
    rcases List.mem_cons.mp h with rfl | hin
    · rw [if_neg (by decide)]
      exact .inl (by decide)
    · exact .inr (ih hin)

end Text

namespace Identifier

open Text

theorem lowerChar_subset_snakeTail {previous c : Char} {text : List Char} (h : c ∈ text) :
    lowerChar c ⊆ snakeTail previous text := by
  induction text generalizing previous with
  | nil => cases h
  | cons d text ih =>
    have hlowered : lowerChar c ⊆ lowerChar d ++ snakeTail d text := by
      rcases List.mem_cons.mp h with rfl | hin
      · exact List.subset_append_left _ _
      · exact List.subset_append_of_subset_right _ (ih hin)
    rw [snakeTail]
    split
    · exact List.subset_cons_of_subset _ hlowered
    · exact hlowered

theorem small_or_capital_of_snakeTail {previous : Char} {text : List Char}
    (hprevious : Lettered previous) (htext : ∀ c ∈ text, Lettered c)
    (h : '_' ∉ snakeTail previous text) :
    (∀ c ∈ text, isLower c = true) ∨
      (isUpper previous = true ∧ ∀ c ∈ text, isUpper c = true) := by
  induction text generalizing previous with
  | nil => exact .inl (by simp)
  | cons c text ih =>
    obtain ⟨hc, hrest⟩ := List.forall_mem_cons.mp htext
    obtain ⟨hword, htail⟩ : startsWord previous c text.head? = false ∧ '_' ∉ snakeTail c text := by
      rw [snakeTail] at h
      split at h
      · exact absurd List.mem_cons_self h
      · rename_i hword
        exact ⟨by simpa using hword, fun hin => h (List.mem_append_right _ hin)⟩
    rcases hc.capital_or_small with ⟨hupper, -, -⟩ | ⟨hnot, hlower, -⟩
    · -- A capital letter stands behind capital letters and before capital letters.
      have hcapital : isUpper previous = true := by
        rcases hprevious.capital_or_small with ⟨hprev, -, -⟩ | ⟨-, hprev, -⟩
        · exact hprev
        · simp [startsWord, hupper, hprev] at hword
      refine .inr ⟨hcapital, List.forall_mem_cons.mpr ⟨hupper, ?_⟩⟩
      rcases ih hc hrest htail with hsmall | ⟨-, hall⟩
      · cases text with
        | nil => simp
        | cons d text => simp [startsWord, hupper, hcapital, hsmall d List.mem_cons_self] at hword
      · exact hall
    · rcases ih hc hrest htail with hsmall | ⟨hupper, -⟩
      · exact .inl (List.forall_mem_cons.mpr ⟨hlower, hsmall⟩)
      · exact absurd hupper (by simp [hnot])

theorem snakeTail_of_small {previous : Char} {text : List Char}
    (htext : ∀ c ∈ text, Lettered c) (h : ∀ c ∈ text, isLower c = true) :
    snakeTail previous text = text := by
  induction text generalizing previous with
  | nil => rfl
  | cons c text ih =>
    obtain ⟨hc, hrest⟩ := List.forall_mem_cons.mp htext
    obtain ⟨hlower, hsmall⟩ := List.forall_mem_cons.mp h
    rcases hc.capital_or_small with ⟨-, hnot, -⟩ | ⟨hnot, -, hkept⟩
    · exact absurd hlower (by simp [hnot])
    · rw [snakeTail, ih hrest hsmall, hkept, if_neg (by simp [startsWord, hnot])]
      rfl

theorem upperChars_of_capital {text : List Char} (htext : ∀ c ∈ text, Lettered c)
    (h : ∀ c ∈ text, isUpper c = true) : upperChars text = text := by
  induction text with
  | nil => rfl
  | cons c text ih =>
    obtain ⟨hc, hrest⟩ := List.forall_mem_cons.mp htext
    obtain ⟨hupper, hcapital⟩ := List.forall_mem_cons.mp h
    have htail : text.flatMap upperChar = text := ih hrest hcapital
    rcases hc.capital_or_small with ⟨-, -, hkept⟩ | ⟨hnot, -, -⟩
    · rw [upperChars, List.flatMap_cons, hkept, htail]
      rfl
    · exact absurd hupper (by simp [hnot])

theorem snakeChars_of_not_mem {text : List Char} (h : '_' ∉ text) :
    snakeChars text = snakeCore text := by
  simpa using (framed_of_not_mem h).snakeChars_eq

theorem underscore_mem_snakeChars {text : List Char} (h : '_' ∈ text) : '_' ∈ snakeChars text := by
  obtain ⟨core, leading, trailing, hframed⟩ := exists_framed text
  have hunder : '_' ∈ lowerChar '_' := by decide
  have hcore : '_' ∈ core → '_' ∈ snakeCore core := by
    intro hin
    cases core with
    | nil => cases hin
    | cons c rest =>
      rw [snakeCore]
      split
      · exact underscore_mem_lowerFrom hin
      · rcases List.mem_cons.mp hin with rfl | hrest
        · exact List.mem_append_left _ hunder
        · exact List.mem_append_right _ (lowerChar_subset_snakeTail hrest hunder)
  rw [hframed.text_eq, List.mem_append, List.mem_append] at h
  rw [hframed.snakeChars_eq, List.mem_append, List.mem_append]
  exact h.imp_right (.imp_left hcore)

theorem cases_of_snakeCore {text word : List Char} (hword : ∀ c ∈ word, c.isAlpha = true)
    (h : snakeCore text = word) :
    (upperChars text = text ∧ lowerChars text = word) ∨
      ∃ c rest, text = c :: rest ∧ Lettered c ∧ word = lowerChar c ++ rest := by
  cases text with
  | nil => exact .inl ⟨rfl, h⟩
  | cons c rest =>
    rw [snakeCore] at h
    split at h
    · rename_i hupper
      exact .inl ⟨hupper, h⟩
    · rename_i hupper
      subst h
      obtain ⟨hhead, htail⟩ := List.forall_mem_append.mp hword
      have hc : Lettered c := lettered_of_lowerChar hhead
      have hrest : ∀ d ∈ rest, Lettered d := fun d hd =>
        lettered_of_lowerChar fun x hx => htail x (lowerChar_subset_snakeTail hd hx)
      have hunder : '_' ∉ snakeTail c rest := fun hin => absurd (htail '_' hin) (by decide)
      rcases small_or_capital_of_snakeTail hc hrest hunder with hsmall | ⟨hcapital, hall⟩
      · exact .inr ⟨c, rest, rfl, hc, by rw [snakeTail_of_small hrest hsmall]⟩
      · exact absurd (upperChars_of_capital (List.forall_mem_cons.mpr ⟨hc, hrest⟩)
          (List.forall_mem_cons.mpr ⟨hcapital, hall⟩)) hupper

/-- A name that is `word` up to case: its first letter is a capital one, or all letters are. -/
def Disguises (name word : String) : Prop :=
  name ≠ word ∧
    (name = Namespaced.capitalize word ∨ (Text.upper name = name ∧ Text.lower name = word))

instance (name word : String) : Decidable (Disguises name word) :=
  inferInstanceAs (Decidable (_ ∧ _))

theorem reservedWords_letters : ∀ word ∈ reservedWords,
    word.toList.all Char.isAlpha = true ∧ word.toList.head? ≠ some 'k' := by
  decide +kernel

theorem reservedWords_not_capital : ∀ word ∈ reservedWords, Text.upper word ≠ word := by
  decide +kernel

theorem snake_escape_reservedWord :
    ∀ word ∈ reservedWords, snake (escape word) ∉ reservedWords := by
  decide +kernel

theorem snake_escape_capitalize : ∀ word ∈ reservedWords, Namespaced.capitalize word ≠ word →
    snake (escape (Namespaced.capitalize word)) ∈ reservedWords := by
  decide +kernel

theorem escape_not_mem_reservedWords (name : String) : escape name ∉ reservedWords := by
  have hfreed : ∀ word ∈ reservedWords, word ++ "_" ∉ reservedWords := by decide +kernel
  rw [escape]
  split
  · rename_i hin
    exact hfreed name hin
  · assumption

theorem escape_of_not_mem {name : String} (h : name ∉ reservedWords) : escape name = name :=
  if_neg h

theorem disguises_of_snake {name word : String} (hname : name ∉ reservedWords)
    (hword : word ∈ reservedWords) (h : snake name = word) : Disguises name word := by
  obtain ⟨hall, hk⟩ := reservedWords_letters word hword
  have hletters : ∀ c ∈ word.toList, c.isAlpha = true := List.all_eq_true.mp hall
  have hne : name ≠ word := fun heq => hname (heq ▸ hword)
  have hchars : snakeChars name.toList = word.toList := by
    rw [← h, snake, String.toList_ofList]
  have hunder : '_' ∉ name.toList := fun hin =>
    absurd (hletters '_' (hchars ▸ underscore_mem_snakeChars hin)) (by decide)
  rw [snakeChars_of_not_mem hunder] at hchars
  refine ⟨hne, ?_⟩
  rcases cases_of_snakeCore hletters hchars with ⟨hupper, hlower⟩ | ⟨c, rest, htext, hc, hsmall⟩
  · exact .inr ⟨by rw [Text.upper, hupper, String.ofList_toList],
      by rw [Text.lower, hlower, String.ofList_toList]⟩
  · rcases hc with halpha | rfl
    · rcases Lettered.capital_or_small (.inl halpha) with ⟨hcapital, -, -⟩ | ⟨-, -, hkept⟩
      · obtain ⟨hlower, hback⟩ := upperChar_toLower halpha hcapital
        rw [hlower] at hsmall
        refine .inl (String.toList_inj.mp ?_)
        rw [Namespaced.capitalize, hsmall, htext]
        simp [hback]
      · exact absurd (String.toList_inj.mp (by rw [htext, hsmall, hkept]; rfl)) hne
    · have hkelvin : lowerChar kelvin = ['k'] := by decide +kernel
      rw [hsmall, hkelvin] at hk
      exact absurd rfl hk

theorem snake_of_capital {name : String} (hupper : Text.upper name = name)
    (hunder : '_' ∉ name.toList) : snake name = Text.lower name := by
  have hchars : upperChars name.toList = name.toList := by
    rw [← String.toList_ofList (l := upperChars name.toList), ← Text.upper, hupper]
  rw [snake, snakeChars_of_not_mem hunder, Text.lower, snakeCore.eq_def, if_pos hchars]

theorem snake_escape_mem_reservedWords_iff {name : String} :
    snake (escape name) ∈ reservedWords ↔ ∃ word ∈ reservedWords, Disguises name word := by
  constructor
  · intro hin
    have hname : name ∉ reservedWords := fun h => snake_escape_reservedWord name h hin
    rw [escape_of_not_mem hname] at hin
    exact ⟨_, hin, disguises_of_snake hname hin rfl⟩
  · rintro ⟨word, hword, hne, rfl | ⟨hupper, hlower⟩⟩
    · exact snake_escape_capitalize word hword hne
    · have hname : name ∉ reservedWords := fun h => reservedWords_not_capital name h hupper
      have hunder : '_' ∉ name.toList := by
        intro hin
        have hlowered : '_' ∈ word.toList := by
          rw [← hlower, Text.lower, String.toList_ofList]
          exact underscore_mem_lowerFrom hin
        have hletters := List.all_eq_true.mp (reservedWords_letters word hword).1
        exact absurd (hletters '_' hlowered) (by decide)
      rw [escape_of_not_mem hname, snake_of_capital hupper hunder, hlower]
      exact hword

end Identifier

namespace Package

open Api Dotted Identifier

variable {assembly root : String} {submodules : SortedMap Submodule}

def plainNames (assembly : String) (submodules : SortedMap Submodule) (fqn : String) :
    List String :=
  (unanchored assembly submodules fqn).reverse.filter submodules.contains

def innerNames (assembly : String) (submodules : SortedMap Submodule) (fqn : String) :
    List String :=
  (unanchored assembly submodules fqn).reverse.filter fun name => !submodules.contains name

def packageWords (assembly : String) (submodules : SortedMap Submodule) (fqn : String) :
    List String :=
  (plainNames assembly submodules fqn).map fun name => snake (escape (last name))

def tailWords (assembly : String) (submodules : SortedMap Submodule) (fqn : String) :
    List String :=
  (innerNames assembly submodules fqn).map fun name => escape (last name)

theorem Lies.words {fqn : String} {package tail : List String}
    (h : Lies assembly root submodules fqn package tail) :
    ∃ anchor module, anchor? assembly root submodules fqn = some (anchor, module) ∧
      package = module :: packageWords assembly submodules fqn ∧
      tail.map escape = tailWords assembly submodules fqn := by
  induction h with
  | root =>
    refine ⟨assembly, root, by simp [anchor?], ?_⟩
    simp [packageWords, tailWords, plainNames, innerNames,
      unanchored_of_isAnchor (show isAnchor assembly submodules assembly = true by simp [isAnchor])]
  | @configured fqn _ python hne hfind hpython _ =>
    refine ⟨fqn, python.module, by simp [anchor?, hne, hfind, hpython], ?_⟩
    simp [packageWords, tailWords, plainNames, innerNames, unanchored_of_isAnchor
      (show isAnchor assembly submodules fqn = true by simp [isAnchor, hfind, hpython])]
  | @plain outer last _ _ _ hlast hne hfind hpython _ ih =>
    obtain ⟨anchor, module, hanchor, hpackage, htail⟩ := ih
    have hcontains : submodules.contains (outer ++ "." ++ last) = true := by
      simp [SortedMap.contains, hfind]
    have hopen : isAnchor assembly submodules (outer ++ "." ++ last) = false := by
      simp [isAnchor, hne, hfind, hpython]
    have hnames := unanchored_child hlast hopen
    refine ⟨anchor, module, ?_, ?_, ?_⟩
    · rw [anchor?_child hlast hne (by simp [hfind, hpython]), hanchor]
    · simp [packageWords, plainNames, hnames, hcontains, hpackage, last_child outer hlast]
    · simp [tailWords, innerNames, hnames, hcontains, htail]
  | @inner outer last _ _ hlast hne hfind _ ih =>
    obtain ⟨anchor, module, hanchor, hpackage, htail⟩ := ih
    have hcontains : submodules.contains (outer ++ "." ++ last) = false := by
      simp [SortedMap.contains, hfind]
    have hopen : isAnchor assembly submodules (outer ++ "." ++ last) = false := by
      simp [isAnchor, hne, hfind]
    have hnames := unanchored_child hlast hopen
    refine ⟨anchor, module, ?_, ?_, ?_⟩
    · rw [anchor?_child hlast hne (by simp [hfind]), hanchor]
    · simp [packageWords, plainNames, hnames, hcontains, hpackage]
    · simp [tailWords, innerNames, hnames, hcontains, htail, last_child outer hlast]

theorem undotted_packageWords {fqn word : String}
    (h : word ∈ packageWords assembly submodules fqn) : Undotted word := by
  obtain ⟨name, -, rfl⟩ := List.mem_map.mp h
  exact undotted_snake (undotted_escape (undotted_last name))

theorem undotted_tailWords {fqn word : String} (h : word ∈ tailWords assembly submodules fqn) :
    Undotted word := by
  obtain ⟨name, -, rfl⟩ := List.mem_map.mp h
  exact undotted_escape (undotted_last name)

theorem segments_join_cons {module : String} {words : List String}
    (h : ∀ word ∈ words, Undotted word) :
    segments (join (module :: words)) = segments module ++ words := by
  rw [segments_join (List.cons_ne_nil _ _), List.flatMap_cons,
    List.flatMap_congr fun word hword => segments_of_undotted (h word hword)]
  exact congrArg _ (List.flatMap_singleton' words)

/-- Of the words that a path adds to the module of its anchor, those below the package are never
reserved. Those of the package are not reserved either, unless a submodule disguises a reserved
word. -/
theorem reserved_words_iff {a : Assembly} {fqn : String} {name : PythonName}
    (h : pythonName a fqn = .ok name) :
    ∃ targets root anchor module, targetsOf a (head fqn) = .ok targets ∧
      moduleOf (head fqn) targets = .ok root ∧
      anchor? (head fqn) root targets.submodules fqn = some (anchor, module) ∧
      segments name.package = segments module ++ packageWords (head fqn) targets.submodules fqn ∧
      segments name.path = segments name.package ++ tailWords (head fqn) targets.submodules fqn ∧
      (∀ word ∈ tailWords (head fqn) targets.submodules fqn, word ∉ reservedWords) ∧
      ((∀ word ∈ packageWords (head fqn) targets.submodules fqn, word ∉ reservedWords) ↔
        ∀ outer ∈ plainNames (head fqn) targets.submodules fqn, ∀ word ∈ reservedWords,
          ¬ Disguises (last outer) word) := by
  obtain ⟨targets, root, package, tail, htargets, hroot, hlies, rfl⟩ := pythonName_eq_ok_iff.mp h
  obtain ⟨anchor, module, hanchor, rfl, htail⟩ := hlies.words
  refine ⟨targets, root, anchor, module, htargets, hroot, hanchor, ?_, ?_, ?_, ?_⟩
  · exact segments_join_cons fun word => undotted_packageWords
  · rw [htail]
    exact segments_join_cons fun word => undotted_tailWords
  · intro word hword
    obtain ⟨inner, -, rfl⟩ := List.mem_map.mp hword
    exact escape_not_mem_reservedWords (last inner)
  · simp only [packageWords, List.forall_mem_map, snake_escape_mem_reservedWords_iff]
    simp only [not_exists, not_and]

def oneSubmodule (segment : String) : Assembly :=
  (Assembly.ofModule "Acme" "1.0.0" "acme").withSubmodule ("Acme." ++ segment) none

theorem reserved_words_iff_lambda :
    ∃ name, pythonName (oneSubmodule "lambda") "Acme.lambda.None" = .ok name ∧
      name.path = "acme.lambda_.None_" ∧
      ∀ word ∈ packageWords "Acme" (oneSubmodule "lambda").submodules "Acme.lambda.None",
        word ∉ reservedWords := by
  have hname : pythonName (oneSubmodule "lambda") "Acme.lambda.None" =
      .ok { assembly := "Acme", package := "acme.lambda_", path := "acme.lambda_.None_" } :=
    Outcome.eq_ok_of_toOption (by decide +kernel)
  obtain ⟨targets, _, _, _, htargets, -, -, -, -, -, hiff⟩ := reserved_words_iff hname
  have hhead : head "Acme.lambda.None" = "Acme" := by decide +kernel
  have hown : targetsOf (oneSubmodule "lambda") "Acme" = .ok
      { targets := (oneSubmodule "lambda").targets
        submodules := (oneSubmodule "lambda").submodules } := if_pos rfl
  rw [hhead] at htargets hiff
  obtain rfl := Except.ok.inj (hown.symm.trans htargets)
  exact ⟨_, hname, rfl, hiff.mpr (by decide +kernel)⟩

theorem class_becomes_reserved :
    pythonName (oneSubmodule "Class") "Acme.Class.Thing" =
        .ok { assembly := "Acme", package := "acme.class", path := "acme.class.Thing" } ∧
      packageWords "Acme" (oneSubmodule "Class").submodules "Acme.Class.Thing" = ["class"] ∧
      "class" ∈ reservedWords ∧ Disguises "Class" "class" :=
  ⟨Outcome.eq_ok_of_toOption (by decide +kernel), by decide +kernel, by decide +kernel,
    by decide +kernel⟩

end Package

end Bindery
