import Bindery.Name.Identifier
import Bindery.Proofs.Dotted
import Mathlib.Data.Char

/-!
# Spelling of identifiers

Turning a name to snake case and freeing it from the reserved words never makes a dot and
never makes a text empty, so a segment stays a segment. Snake case changes the core of a text only,
which `Framed` sets apart from the underscores around it.
-/

namespace Bindery

namespace Text

open CaseTable

theorem lowerShifts_behind_dot :
    ∀ s ∈ lowerShifts, '.'.toNat < (s.run.first : Int) + s.distance := by
  decide +kernel

theorem lowerSpecials_dotless : ∀ s ∈ lowerSpecials, s.2 ≠ [] ∧ '.' ∉ s.2.map Char.ofNat := by
  decide +kernel

theorem toNat_ofNat_or (n : ℕ) : (Char.ofNat n).toNat = n ∨ Char.ofNat n = Char.ofNat 0 := by
  by_cases hvalid : n.isValidChar
  · have hchar : Char.ofNat n = Char.ofNatAux n hvalid := dif_pos hvalid
    exact .inl (congrArg Char.toNat hchar)
  · exact .inr (dif_neg hvalid)

theorem forall_ascii {P : Char → Prop} (h : ∀ n < 0x80, P (Char.ofNat n)) {c : Char}
    (hc : c.toNat < 0x80) : P c :=
  Char.ofNat_toNat c ▸ h c.toNat hc

theorem ofNat_ne_of_lt {x : Char} (hx : x ≠ Char.ofNat 0) {n : ℕ} (h : x.toNat < n) :
    Char.ofNat n ≠ x := by
  rintro rfl
  rcases toNat_ofNat_or n with hn | hnull
  · omega
  · exact hx hnull

/-- A character that no special mapping has, and that all shifted characters stand behind, is the
image of nothing but itself. -/
theorem not_mem_mapChar {x c : Char} {specials : List (ℕ × List ℕ)} {shifts : List Shift}
    (hx : x ≠ Char.ofNat 0) (hspecials : ∀ s ∈ specials, x ∉ s.2.map Char.ofNat)
    (hshifts : ∀ s ∈ shifts, x.toNat < (s.run.first : Int) + s.distance) (h : c ≠ x) :
    x ∉ mapChar specials shifts c := by
  rw [mapChar]
  split
  · rename_i image hfind
    exact hspecials _ (List.mem_of_find?_eq_some hfind)
  · split
    · rename_i s hfind
      have hfirst := hshifts s (List.mem_of_find?_eq_some hfind)
      have hholds := List.find?_some hfind
      simp only [Run.holds, Bool.and_eq_true, decide_eq_true_eq] at hholds
      simpa using (ofNat_ne_of_lt hx (by omega)).symm
    · simpa using h.symm

theorem toLower_ne_dot {c : Char} (h : c ≠ '.') : c.toLower ≠ '.' := by
  intro hdot
  unfold Char.toLower at hdot
  split at hdot
  · rename_i hupper
    have hval : c.val + ('a'.val - 'A'.val) = '.'.val := congrArg Char.val hdot
    have hlow : 'A'.val ≤ c.val := hupper.1
    have hhigh : c.val ≤ 'Z'.val := hupper.2
    have hn := congrArg UInt32.toNat hval
    simp [UInt32.le_iff_toNat_le] at hn hlow hhigh
    omega
  · exact h hdot

theorem lowerChar_ne_nil (c : Char) : lowerChar c ≠ [] := by
  rw [lowerChar]
  split
  · simp
  · rw [mapChar]
    split
    · rename_i image hfind
      simpa using (lowerSpecials_dotless _ (List.mem_of_find?_eq_some hfind)).1
    · split <;> simp

theorem dot_not_mem_lowerChar {c : Char} (h : c ≠ '.') : '.' ∉ lowerChar c := by
  rw [lowerChar]
  split
  · simpa using (toLower_ne_dot h).symm
  · exact not_mem_mapChar (by decide) (fun s hs => (lowerSpecials_dotless s hs).2)
      lowerShifts_behind_dot h

theorem dot_not_mem_lowerFrom (before : List Char) {text : List Char} (h : '.' ∉ text) :
    '.' ∉ lowerFrom before text := by
  induction text generalizing before with
  | nil => simp [lowerFrom]
  | cons c text ih =>
    have hc : c ≠ '.' := fun hc => h (hc ▸ List.mem_cons_self)
    have htext := ih (c :: before) fun hin => h (List.mem_cons_of_mem c hin)
    have himage := dot_not_mem_lowerChar hc
    rw [lowerFrom]
    split
    · split <;> simpa using htext
    · simp [himage, htext]

theorem lowerFrom_ne_nil (before : List Char) {text : List Char} (h : text ≠ []) :
    lowerFrom before text ≠ [] := by
  cases text with
  | nil => exact absurd rfl h
  | cons c text =>
    have hc := lowerChar_ne_nil c
    rw [lowerFrom]
    split
    · split <;> simp
    · simp [hc]

end Text

namespace Identifier

open Dotted (Undotted)

theorem dot_not_mem_snakeTail (previous : Char) {text : List Char} (h : '.' ∉ text) :
    '.' ∉ snakeTail previous text := by
  induction text generalizing previous with
  | nil => simp [snakeTail]
  | cons c text ih =>
    have hc : c ≠ '.' := fun hc => h (hc ▸ List.mem_cons_self)
    have htext := ih c fun hin => h (List.mem_cons_of_mem c hin)
    have himage := Text.dot_not_mem_lowerChar hc
    rw [snakeTail]
    split
    · simp [himage, htext]
    · simp [himage, htext]

theorem dot_not_mem_snakeCore {core : List Char} (h : '.' ∉ core) : '.' ∉ snakeCore core := by
  cases core with
  | nil => simp [snakeCore, Text.lowerChars, Text.lowerFrom]
  | cons c rest =>
    have hc : c ≠ '.' := fun hc => h (hc ▸ List.mem_cons_self)
    have hrest := dot_not_mem_snakeTail c fun hin => h (List.mem_cons_of_mem c hin)
    rw [snakeCore]
    split
    · exact Text.dot_not_mem_lowerFrom [] h
    · simp [Text.dot_not_mem_lowerChar hc, hrest]

theorem snakeCore_ne_nil {core : List Char} (h : core ≠ []) : snakeCore core ≠ [] := by
  cases core with
  | nil => exact absurd rfl h
  | cons c rest =>
    rw [snakeCore]
    split
    · exact Text.lowerFrom_ne_nil [] h
    · simp [Text.lowerChar_ne_nil c]

/-- A text is its core with underscores around it. Those of a text without a core are leading. -/
structure Framed (text core : List Char) (leading trailing : ℕ) : Prop where
  text_eq : text = List.replicate leading '_' ++ (core ++ List.replicate trailing '_')
  head : core.head? ≠ some '_'
  last : core.getLast? ≠ some '_'
  trailing_eq : core = [] → trailing = 0

section Framed

variable {text core : List Char} {leading trailing : ℕ}

theorem exists_framed (text : List Char) :
    ∃ core leading trailing, Framed text core leading trailing := by
  obtain ⟨leading, rest, rfl, hhead⟩ := Text.exists_eq_run '_' text
  obtain ⟨trailing, back, hback, hlast⟩ := Text.exists_eq_run '_' rest.reverse
  have hrest : rest = back.reverse ++ List.replicate trailing '_' := by
    rw [← List.reverse_reverse rest, hback, List.reverse_append, List.reverse_replicate]
  refine ⟨back.reverse, leading, trailing, by rw [hrest], ?_, by simpa using hlast, ?_⟩
  · intro hunder
    exact hhead (by rw [hrest, List.head?_append, hunder]; rfl)
  · intro hnil
    rw [hrest, hnil, List.nil_append, List.head?_replicate] at hhead
    by_contra hne
    exact hhead (if_neg hne)

theorem framed_of_not_mem (h : '_' ∉ text) : Framed text text 0 0 where
  text_eq := by simp
  head hhead := h (List.mem_of_head? hhead)
  last hlast := h (List.mem_of_getLast? hlast)
  trailing_eq _ := rfl

theorem Framed.mem (h : Framed text core leading trailing) {c : Char} (hc : c ∈ core) :
    c ∈ text := by
  simp [h.text_eq, hc]

theorem Framed.span_eq (h : Framed text core leading trailing) :
    text.takeWhile (· = '_') = List.replicate leading '_' ∧
      text.dropWhile (· = '_') = core ++ List.replicate trailing '_' := by
  have hinner : (core ++ List.replicate trailing '_').head? ≠ some '_' := by
    cases core with
    | nil => simp [h.trailing_eq rfl]
    | cons c rest => exact h.head
  rw [h.text_eq]
  exact Text.span_run '_' leading hinner

theorem Framed.snakeChars_eq (h : Framed text core leading trailing) :
    snakeChars text =
      List.replicate leading '_' ++ (snakeCore core ++ List.replicate trailing '_') := by
  have hback : core.reverse.head? ≠ some '_' := by simpa using h.last
  have hreverse : (core ++ List.replicate trailing '_').reverse =
      List.replicate trailing '_' ++ core.reverse := by simp
  simp only [snakeChars, h.span_eq, hreverse, Text.span_run '_' trailing hback,
    List.reverse_reverse, List.append_assoc]

end Framed

theorem undotted_snake {name : String} (h : Undotted name) : Undotted (snake name) := by
  obtain ⟨core, leading, trailing, hframed⟩ := exists_framed name.toList
  have hcore : '.' ∉ core := fun hin => h (hframed.mem hin)
  simp [Undotted, snake, hframed.snakeChars_eq, dot_not_mem_snakeCore hcore]

theorem snake_ne_empty {name : String} (h : name ≠ "") : snake name ≠ "" := by
  obtain ⟨core, leading, trailing, hframed⟩ := exists_framed name.toList
  intro hempty
  have hchars : snakeChars name.toList = [] := by simpa [snake] using hempty
  rw [hframed.snakeChars_eq, List.append_eq_nil_iff, List.append_eq_nil_iff] at hchars
  obtain ⟨hleading, hcore, htrailing⟩ := hchars
  have hne : core ≠ [] := by
    rintro rfl
    exact h (by simpa [hleading, htrailing] using hframed.text_eq)
  exact snakeCore_ne_nil hne hcore

theorem undotted_escape {name : String} (h : Undotted name) : Undotted (escape name) := by
  rw [escape]
  split
  · simpa [Undotted] using h
  · exact h

theorem escape_ne_empty {name : String} (h : name ≠ "") : escape name ≠ "" := by
  rw [escape]
  split
  · simp
  · exact h

theorem snake_escape_eq_empty_iff {segment : String} :
    snake (escape segment) = "" ↔ segment = "" := by
  refine ⟨fun h => ?_, fun h => ?_⟩
  · by_contra hne
    exact snake_ne_empty (escape_ne_empty hne) h
  · rw [h]
    decide +kernel

end Identifier

end Bindery
