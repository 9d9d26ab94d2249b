import Bindery.Name.Dotted
import Mathlib.Data.List.Basic
import Mathlib.Data.List.Induction
import Mathlib.Data.List.TakeWhile
import Mathlib.Logic.Function.Iterate

/-!
# Theory of dotted names

Every name is either a single segment or a segment behind a dot and another name. The
functions on names are described along these two cases, and `Dotted.inductionOn` proves things
of all names in the same way.
-/

namespace Bindery.Text

theorem span_run (c : Char) (n : ℕ) {rest : List Char} (h : rest.head? ≠ some c) :
    (List.replicate n c ++ rest).takeWhile (· = c) = List.replicate n c ∧
      (List.replicate n c ++ rest).dropWhile (· = c) = rest := by
  have hstop : rest.takeWhile (· = c) = [] ∧ rest.dropWhile (· = c) = rest := by
    cases rest with
    | nil => exact ⟨rfl, rfl⟩
    | cons d rest =>
      have hd : d ≠ c := fun hd => h (congrArg some hd)
      simp [hd]
  rw [List.takeWhile_append_of_pos (by simp), List.dropWhile_append_of_pos (by simp), hstop.1,
    hstop.2, List.append_nil]
  exact ⟨rfl, rfl⟩

theorem exists_eq_run (c : Char) (text : List Char) :
    ∃ n rest, text = List.replicate n c ++ rest ∧ rest.head? ≠ some c := by
  have hrun : text.takeWhile (· = c) = List.replicate (text.takeWhile (· = c)).length c :=
    List.eq_replicate_of_mem fun d hd => by simpa using List.mem_takeWhile_imp hd
  refine ⟨(text.takeWhile (· = c)).length, text.dropWhile (· = c), ?_, ?_⟩
  · rw [← hrun, List.takeWhile_append_dropWhile]
  · intro hhead
    have hfalse := List.head?_dropWhile_not (· = c) text
    simp [hhead] at hfalse

end Bindery.Text

namespace Bindery.Dotted

def Undotted (text : String) : Prop := '.' ∉ text.toList

instance (text : String) : Decidable (Undotted text) :=
  inferInstanceAs (Decidable ('.' ∉ text.toList))

theorem toList_child (outer inner : String) :
    (outer ++ "." ++ inner).toList = outer.toList ++ '.' :: inner.toList := by
  simp

theorem child_inj_left {outer inner inner' : String}
    (h : outer ++ "." ++ inner = outer ++ "." ++ inner') : inner = inner' := by
  have hl := congrArg String.toList h
  rw [toList_child, toList_child] at hl
  exact String.toList_inj.mp (List.cons.inj (List.append_cancel_left hl)).2

theorem not_undotted_child (outer inner : String) : ¬ Undotted (outer ++ "." ++ inner) := by
  simp [Undotted]

theorem exists_child {name : String} (h : ¬ Undotted name) :
    ∃ outer last, Undotted last ∧ name = outer ++ "." ++ last := by
  have hdot : '.' ∈ name.toList.reverse := by
    simpa [Undotted] using h
  obtain ⟨l, r, hsplit, hl⟩ := List.eq_append_cons_of_mem hdot
  refine ⟨String.ofList r.reverse, String.ofList l.reverse, by simpa [Undotted] using hl, ?_⟩
  apply String.toList_inj.mp
  have hrev := congrArg List.reverse hsplit
  simpa using hrev

theorem length_lt_child (outer inner : String) :
    outer.toList.length < (outer ++ "." ++ inner).toList.length := by
  rw [toList_child]
  simp

/-- Induction on names, from the outermost segment on. -/
theorem inductionOn {P : String → Prop} (single : ∀ name, Undotted name → P name)
    (child : ∀ outer last, Undotted last → P outer → P (outer ++ "." ++ last))
    (name : String) : P name := by
  induction hn : name.toList.length using Nat.strong_induction_on generalizing name with
  | _ n ih =>
    by_cases h : Undotted name
    · exact single name h
    · obtain ⟨outer, last, hlast, rfl⟩ := exists_child h
      have hlt := length_lt_child outer last
      exact child outer last hlast (ih outer.toList.length (by omega) outer rfl)

theorem segments_of_undotted {name : String} (h : Undotted name) : segments name = [name] := by
  simp [segments, Text.split, List.splitOn_eq_singleton h]

theorem segments_append (outer inner : String) :
    segments (outer ++ "." ++ inner) = segments outer ++ segments inner := by
  simp only [segments, Text.split, toList_child, List.splitOn_append_cons_self, List.map_append]

theorem segments_child (outer : String) {last : String} (h : Undotted last) :
    segments (outer ++ "." ++ last) = segments outer ++ [last] := by
  rw [segments_append, segments_of_undotted h]

theorem segments_ne_nil (name : String) : segments name ≠ [] := Text.split_ne_nil '.' name

theorem undotted_of_mem_segments {name segment : String} (h : segment ∈ segments name) :
    Undotted segment := by
  induction name using inductionOn with
  | single name hn =>
    rw [segments_of_undotted hn, List.mem_singleton] at h
    exact h ▸ hn
  | child outer last hlast ih =>
    rw [segments_child outer hlast, List.mem_append, List.mem_singleton] at h
    rcases h with h | rfl
    · exact ih h
    · exact hlast

theorem join_singleton (segment : String) : join [segment] = segment :=
  String.intercalate_singleton

theorem join_append {outer inner : List String} (ho : outer ≠ []) (hi : inner ≠ []) :
    join (outer ++ inner) = join outer ++ "." ++ join inner :=
  String.intercalate_append_of_ne_nil ho hi

theorem join_snoc {outer : List String} (ho : outer ≠ []) (last : String) :
    join (outer ++ [last]) = join outer ++ "." ++ last := by
  rw [join_append ho (List.cons_ne_nil _ _), join_singleton]

theorem segments_join {parts : List String} (hne : parts ≠ []) :
    segments (join parts) = parts.flatMap segments := by
  induction parts using List.reverseRecOn with
  | nil => exact absurd rfl hne
  | append_singleton outer last ih =>
    by_cases ho : outer = []
    · simp [ho, join_singleton]
    · rw [join_snoc ho, segments_append, ih ho]
      simp

def Proper (name : String) : Prop := "" ∉ segments name

instance (name : String) : Decidable (Proper name) :=
  inferInstanceAs (Decidable ("" ∉ segments name))

theorem proper_child {outer inner : String} :
    Proper (outer ++ "." ++ inner) ↔ Proper outer ∧ Proper inner := by
  simp [Proper, segments_append]

theorem proper_of_undotted {name : String} (h : Undotted name) : Proper name ↔ name ≠ "" := by
  simp [Proper, segments_of_undotted h, eq_comm]

theorem proper_join {parts : List String} (hne : parts ≠ []) :
    Proper (join parts) ↔ ∀ part ∈ parts, Proper part := by
  simp [Proper, segments_join hne]

theorem not_proper_empty : ¬ Proper "" := by
  rw [proper_of_undotted (by simp [Undotted])]
  exact fun h => h rfl

theorem Proper.ne_empty {name : String} (h : Proper name) : name ≠ "" := by
  rintro rfl
  exact not_proper_empty h

theorem Proper.head?_ne_dot {name : String} (h : Proper name) : name.toList.head? ≠ some '.' := by
  intro hdot
  obtain ⟨rest, hrest⟩ := List.head?_eq_some_iff.mp hdot
  have hname : name = "" ++ "." ++ String.ofList rest := by
    apply String.toList_inj.mp
    simpa using hrest
  rw [hname, proper_child] at h
  exact not_proper_empty h.1

def parts (name : String) : List String := (segments name).filter (· ≠ "")

theorem parts_child (outer inner : String) :
    parts (outer ++ "." ++ inner) = parts outer ++ parts inner := by
  rw [parts, segments_append, List.filter_append]
  rfl

theorem parts_empty : parts "" = [] := by
  rw [parts, segments_of_undotted (by simp [Undotted])]
  rfl

theorem parts_of_proper {name : String} (h : Proper name) : parts name = segments name := by
  rw [parts, List.filter_eq_self]
  intro segment hsegment
  simpa using fun hempty : segment = "" => h (hempty ▸ hsegment)

theorem parts_of_undotted {name : String} (h : Undotted name) (hne : name ≠ "") :
    parts name = [name] := by
  rw [parts_of_proper ((proper_of_undotted h).mpr hne), segments_of_undotted h]

theorem spec_of_mem_parts {name part : String} (h : part ∈ parts name) :
    Undotted part ∧ part ≠ "" := by
  obtain ⟨hin, hne⟩ := List.mem_filter.mp h
  exact ⟨undotted_of_mem_segments hin, by simpa using hne⟩

theorem segments_join_of_undotted {texts : List String} (hne : texts ≠ [])
    (h : ∀ text ∈ texts, Undotted text) : segments (join texts) = texts := by
  rw [segments_join hne, List.flatMap_congr fun text htext => segments_of_undotted (h text htext)]
  exact List.flatMap_singleton' texts

theorem proper_join_of_spec {texts : List String} (hne : texts ≠ [])
    (h : ∀ text ∈ texts, Undotted text ∧ text ≠ "") : Proper (join texts) := by
  rw [proper_join hne]
  exact fun text htext => (proper_of_undotted (h text htext).1).mpr (h text htext).2

def IsPath (name : String) : Prop := name = "" ∨ Proper name

instance (name : String) : Decidable (IsPath name) :=
  inferInstanceAs (Decidable (name = "" ∨ Proper name))

theorem head_of_undotted {name : String} (h : Undotted name) : head name = name := by
  simp [head, segments_of_undotted h]

theorem head_append (outer inner : String) : head (outer ++ "." ++ inner) = head outer := by
  rw [head, head, segments_append]
  cases hs : segments outer with
  | nil => exact absurd hs (segments_ne_nil outer)
  | cons s rest => rfl

theorem undotted_head (name : String) : Undotted (head name) := by
  cases hs : segments name with
  | nil => exact absurd hs (segments_ne_nil name)
  | cons first rest =>
    have hfirst : head name = first := by simp [head, hs]
    have hin : first ∈ segments name := by simp [hs]
    exact hfirst ▸ undotted_of_mem_segments hin

theorem exists_eq_head_append (name : String) : ∃ rest, name = head name ++ rest := by
  induction name using inductionOn with
  | single name h => exact ⟨"", by rw [head_of_undotted h, String.append_empty]⟩
  | child outer last _ ih =>
    obtain ⟨rest, hrest⟩ := ih
    refine ⟨rest ++ "." ++ last, ?_⟩
    rw [head_append, ← String.append_assoc, ← String.append_assoc, ← hrest]

theorem last_of_undotted {name : String} (h : Undotted name) : last name = name := by
  simp [last, segments_of_undotted h]

theorem last_child (outer : String) {inner : String} (h : Undotted inner) :
    last (outer ++ "." ++ inner) = inner := by
  simp [last, segments_child outer h]

theorem undotted_last (name : String) : Undotted (last name) := by
  by_cases hundotted : Undotted name
  · rwa [last_of_undotted hundotted]
  · obtain ⟨outer, inner, hinner, rfl⟩ := exists_child hundotted
    rwa [last_child outer hinner]

theorem Proper.last_ne_empty {name : String} (h : Proper name) : last name ≠ "" := by
  by_cases hundotted : Undotted name
  · rw [last_of_undotted hundotted]
    exact h.ne_empty
  · obtain ⟨outer, inner, hinner, rfl⟩ := exists_child hundotted
    rw [last_child outer hinner]
    exact (proper_child.mp h).2.ne_empty

def depth (name : String) : ℕ := name.toList.count '.'

theorem depth_child (outer : String) {last : String} (h : Undotted last) :
    depth (outer ++ "." ++ last) = depth outer + 1 := by
  rw [depth, toList_child, List.count_append, List.count_cons_self, List.count_eq_zero.mpr h]
  rfl

theorem Undotted.ne_dot {name : String} (h : Undotted name) :
    ∀ c ∈ name.toList.reverse, decide (c ≠ '.') = true := by
  intro c hc
  simp only [decide_eq_true_eq]
  rintro rfl
  exact h (List.mem_reverse.mp hc)

theorem parent_of_undotted {name : String} (h : Undotted name) : parent name = "" := by
  rw [parent, List.dropWhile_eq_nil_iff.mpr h.ne_dot]
  rfl

theorem reverse_toList_child (outer inner : String) :
    (outer ++ "." ++ inner).toList.reverse =
      inner.toList.reverse ++ '.' :: outer.toList.reverse := by
  rw [toList_child]
  simp

theorem parent_child (outer : String) {last : String} (h : Undotted last) :
    parent (outer ++ "." ++ last) = outer := by
  rw [parent, reverse_toList_child, List.dropWhile_append_of_pos h.ne_dot]
  simp

theorem child_eq_child {outer outer' last last' : String} (hlast : Undotted last)
    (hlast' : Undotted last') (h : outer ++ "." ++ last = outer' ++ "." ++ last') :
    outer = outer' ∧ last = last' := by
  have houter : outer = outer' := by
    rw [← parent_child outer hlast, h, parent_child outer' hlast']
  exact ⟨houter, child_inj_left (houter ▸ h)⟩

theorem parent_join_snoc (texts : List String) {last : String} (hlast : Undotted last) :
    parent (join (texts ++ [last])) = join texts := by
  by_cases hnil : texts = []
  · rw [hnil, List.nil_append, join_singleton, parent_of_undotted hlast]
    rfl
  · rw [join_snoc hnil, parent_child _ hlast]

theorem join_snoc_eq_child_iff {texts : List String}
    (h : ∀ text ∈ texts, Undotted text ∧ text ≠ "") (outer : String) {last : String}
    (hlast : Undotted last) :
    join (texts ++ [last]) = outer ++ "." ++ last ↔ Proper outer ∧ segments outer = texts := by
  constructor
  · intro heq
    have hne : texts ≠ [] := by
      intro hnil
      rw [hnil, List.nil_append, join_singleton] at heq
      exact not_undotted_child outer last (heq ▸ hlast)
    rw [join_snoc hne] at heq
    rw [← (child_eq_child hlast hlast heq).1]
    exact ⟨proper_join_of_spec hne h, segments_join_of_undotted hne fun text hin => (h text hin).1⟩
  · intro hsegments
    rw [← hsegments.2, join_snoc (segments_ne_nil outer), join_segments]

theorem parentsOf_append {cs rest : List Char} (h : '.' ∉ cs) :
    parentsOf (cs ++ '.' :: rest) = String.ofList rest.reverse :: parentsOf rest := by
  induction cs with
  | nil => simp [parentsOf]
  | cons c cs ih =>
    have hc : c ≠ '.' := fun hc => h (hc ▸ List.mem_cons_self)
    rw [List.cons_append, parentsOf, if_neg hc, ih fun hin => h (List.mem_cons_of_mem c hin)]

theorem ancestors_child (outer : String) {last : String} (h : Undotted last) :
    ancestors (outer ++ "." ++ last) = outer :: ancestors outer := by
  rw [ancestors, reverse_toList_child, parentsOf_append (by simpa [Undotted] using h)]
  simp [ancestors]

theorem ancestors_of_undotted {name : String} (h : Undotted name) : ancestors name = [""] := by
  have hcs : ∀ cs : List Char, '.' ∉ cs → parentsOf cs = [""] := by
    intro cs hcs
    induction cs with
    | nil => rfl
    | cons c cs ih =>
      have hc : c ≠ '.' := fun hc => hcs (hc ▸ List.mem_cons_self)
      rw [parentsOf, if_neg hc, ih fun hin => hcs (List.mem_cons_of_mem c hin)]
  exact hcs _ (by simpa [Undotted] using h)

theorem parent_empty : parent "" = "" := rfl

theorem iterate_parent_empty (n : ℕ) : parent^[n] "" = "" := by
  induction n with
  | zero => rfl
  | succ n ih => rw [Function.iterate_succ_apply, parent_empty, ih]

theorem length_parent_lt {name : String} (h : name ≠ "") :
    (parent name).toList.length < name.toList.length := by
  by_cases hundotted : Undotted name
  · rw [parent_of_undotted hundotted, String.toList_empty, List.length_nil]
    exact List.length_pos_iff.mpr (by simpa using h)
  · obtain ⟨outer, last, hlast, rfl⟩ := exists_child hundotted
    rw [parent_child outer hlast]
    exact length_lt_child outer last

theorem length_iterate_parent_le (n : ℕ) (name : String) :
    (parent^[n] name).toList.length ≤ name.toList.length := by
  induction n generalizing name with
  | zero => exact le_rfl
  | succ n ih =>
    by_cases hempty : name = ""
    · rw [hempty, iterate_parent_empty]
    · have hlt := length_parent_lt hempty
      have hrest := ih (parent name)
      rw [Function.iterate_succ_apply]
      omega

theorem eq_empty_of_iterate_parent {name : String} {n : ℕ} (h : parent^[n + 1] name = name) :
    name = "" := by
  by_contra hne
  have hlt := length_parent_lt hne
  have hrest := length_iterate_parent_le n (parent name)
  rw [← Function.iterate_succ_apply, h] at hrest
  omega

theorem mem_ancestors_iff {name outer : String} :
    outer ∈ ancestors name ↔ ∃ n, parent^[n + 1] name = outer := by
  induction name using inductionOn with
  | single name hundotted =>
    have hempty : ∀ n, parent^[n + 1] name = "" := fun n => by
      rw [Function.iterate_succ_apply, parent_of_undotted hundotted, iterate_parent_empty]
    simp [ancestors_of_undotted hundotted, hempty, eq_comm]
  | child inner last hlast ih =>
    have hstep : ∀ n, parent^[n + 1] (inner ++ "." ++ last) = parent^[n] inner := fun n => by
      rw [Function.iterate_succ_apply, parent_child inner hlast]
    simp only [ancestors_child inner hlast, List.mem_cons, ih, hstep]
    constructor
    · rintro (rfl | ⟨n, hn⟩)
      · exact ⟨0, rfl⟩
      · exact ⟨n + 1, hn⟩
    · rintro ⟨n, hn⟩
      cases n with
      | zero => exact .inl hn.symm
      | succ n => exact .inr ⟨n, hn⟩

theorem below?_eq_some_iff {name other rest : String} :
    below? name other = some rest ↔ other = name ++ "." ++ rest :=
  Text.after?_eq_some_iff

theorem isBelow_iff {name other : String} :
    isBelow name other = true ↔ ∃ rest, other = name ++ "." ++ rest := by
  simp only [isBelow, Option.isSome_iff_exists, below?_eq_some_iff]

theorem ne_of_isBelow {name other : String} (h : isBelow name other = true) : other ≠ name := by
  obtain ⟨rest, rfl⟩ := isBelow_iff.mp h
  intro heq
  have hlength := length_lt_child name rest
  rw [heq] at hlength
  exact lt_irrefl _ hlength

end Bindery.Dotted
