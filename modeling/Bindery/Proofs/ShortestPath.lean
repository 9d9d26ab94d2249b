import Bindery.Proofs.ImportPath

/-!
# Shortest relative paths

A relative path gives up those segments of the package where it starts that its target does not
begin with, and leads down the rest of the target. What both packages begin with is counted in whole
segments, so a segment that is only the beginning of another one is not shared. Every other path
from there to the target is at least as long.
-/

namespace Bindery

namespace Dotted

theorem join_parts {name : String} (h : IsPath name) : join (parts name) = name := by
  rcases h with rfl | h
  · rw [parts_empty]
    rfl
  · rw [parts_of_proper h, join_segments]

theorem parts_join (texts : List String) : parts (join texts) = texts.flatMap parts := by
  induction texts using List.reverseRecOn with
  | nil => exact parts_empty
  | append_singleton outer last ih =>
    by_cases hnil : outer = []
    · simp [hnil, join_singleton]
    · rw [join_snoc hnil, parts_child, ih, List.flatMap_append, List.flatMap_singleton]

theorem exists_parts_eq_concat {name : String} (h : IsPath name) (hne : name ≠ "") :
    IsPath (parent name) ∧ ∃ last, parts name = parts (parent name) ++ [last] := by
  have hproper : Proper name := h.resolve_left hne
  by_cases hundotted : Undotted name
  · rw [parent_of_undotted hundotted, parts_empty, parts_of_undotted hundotted hne]
    exact ⟨.inl rfl, name, rfl⟩
  · obtain ⟨outer, last, hlast, rfl⟩ := exists_child hundotted
    obtain ⟨houter, hinner⟩ := proper_child.mp hproper
    rw [parent_child outer hlast, parts_child, parts_of_undotted hlast hinner.ne_empty]
    exact ⟨.inr houter, last, rfl⟩

theorem length_join_drop_le (texts : List String) (n : ℕ) :
    (join (texts.drop n)).length ≤ (join texts).length := by
  by_cases hfront : texts.take n = []
  · have hall := List.take_append_drop n texts
    rw [hfront, List.nil_append] at hall
    rw [hall]
  by_cases hrest : texts.drop n = []
  · rw [hrest]
    exact Nat.zero_le _
  · have hjoin := join_append hfront hrest
    rw [List.take_append_drop] at hjoin
    rw [hjoin, String.length_append]
    omega

end Dotted

namespace ImportPath

open Dotted

/-- What two lists begin with alike, as far as they do. -/
def LongestCommon (shared one other : List String) : Prop :=
  ∀ front, front <+: shared ↔ front <+: one ∧ front <+: other

theorem longestCommon_of_prefix {one other : List String} (h : one <+: other) :
    LongestCommon one one other :=
  fun _ => ⟨fun hfront => ⟨hfront, hfront.trans h⟩, And.left⟩

theorem LongestCommon.concat {shared one other : List String} (h : LongestCommon shared one other)
    {last : String} (hnot : ¬ one ++ [last] <+: other) :
    LongestCommon shared (one ++ [last]) other := by
  intro front
  rw [h front, List.prefix_concat_iff]
  constructor
  · exact fun ⟨hone, hother⟩ => ⟨.inr hone, hother⟩
  · rintro ⟨rfl | hone, hother⟩
    · exact absurd hother hnot
    · exact ⟨hone, hother⟩

theorem LongestCommon.prefix_left {shared one other : List String}
    (h : LongestCommon shared one other) : shared <+: one :=
  ((h shared).mp List.prefix_rfl).1

def answer (again : String → String) (home target : String) : String :=
  if target = home then "."
  else if home = "" then "." ++ target
  else match below? home target with
    | some rest => "." ++ rest
    | none => "." ++ again (parent home)

/-- The path from `home` is a dot and the path from `outer`. -/
def GoesOn (target outer home : String) : Prop :=
  target ≠ home ∧ home ≠ "" ∧ isBelow home target = false ∧ outer = parent home

theorem wellFounded_goesOn (target : String) : WellFounded (GoesOn target) := by
  refine Subrelation.wf ?_ (measure fun home : String => home.toList.length).wf
  rintro outer home ⟨-, hhome, -, rfl⟩
  exact length_parent_lt hhome

theorem climb_empty (target : String) (outer : List String) :
    climb target ("" :: outer) = "." ++ target := by
  rw [climb]
  split
  · rename_i hempty
    rw [hempty]
    rfl
  · rw [if_pos rfl]

theorem climb_ancestors {home target : String} (hhome : home ≠ "") :
    climb target (ancestors home) = relative (parent home) target := by
  by_cases hundotted : Undotted home
  · rw [ancestors_of_undotted hundotted, parent_of_undotted hundotted, relative, climb_empty,
      climb_empty]
  · obtain ⟨outer, last, hlast, rfl⟩ := exists_child hundotted
    rw [ancestors_child outer hlast, parent_child outer hlast, relative]

theorem relative_eq_answer (home target : String) :
    relative home target = answer (relative · target) home target := by
  rw [answer]
  split
  · rename_i hself
    rw [hself, relative_self]
  · rename_i hself
    split
    · rename_i hempty
      rw [relative, climb, if_neg hself, if_pos hempty]
    · rename_i hhome
      split
      · rename_i rest hrest
        rw [below?_eq_some_iff.mp hrest, relative_of_below hhome]
      · rename_i hnone
        rw [relative_of_not_below hhome hself (by simp [isBelow, hnone]), climb_ancestors hhome]

theorem relative_of_goesOn {home outer target : String} (h : GoesOn target outer home) :
    relative home target = "." ++ relative outer target := by
  obtain ⟨hself, hhome, hbelow, rfl⟩ := h
  rw [relative_of_not_below hhome hself (by simp [hbelow]), climb_ancestors hhome]

theorem eq_or_isBelow_of_prefix {home target : String} (hhome : Proper home)
    (htarget : IsPath target) (h : parts home <+: parts target) :
    target = home ∨ isBelow home target = true := by
  obtain ⟨rest, hrest⟩ := h
  have hjoin := join_parts htarget
  rw [← hrest, parts_of_proper hhome] at hjoin
  by_cases hnil : rest = []
  · rw [hnil, List.append_nil, join_segments] at hjoin
    exact .inl hjoin.symm
  · rw [join_append (segments_ne_nil home) hnil, join_segments] at hjoin
    exact .inr (isBelow_iff.mpr ⟨join rest, hjoin.symm⟩)

/-- The path that gives up all but `kept` segments of `home` and leads down the segments of `target`
behind as many. -/
def keeping (kept : ℕ) (home target : String) : String :=
  Text.repeated ((parts home).length - kept + 1) '.' ++ join ((parts target).drop kept)

theorem keeping_all {home target rest : String} (hparts : parts target = parts home ++ parts rest)
    (hrest : IsPath rest) : keeping (parts home).length home target = "." ++ rest := by
  rw [keeping, Nat.sub_self, hparts, List.drop_left, join_parts hrest]
  rfl

theorem keeping_concat {home outer last target : String} {kept : ℕ}
    (hparts : parts home = parts outer ++ [last]) (hkept : kept ≤ (parts outer).length) :
    keeping kept home target = "." ++ keeping kept outer target := by
  have hlength : (parts home).length - kept + 1 = (parts outer).length - kept + 1 + 1 := by
    rw [hparts, List.length_append, List.length_singleton]
    omega
  rw [keeping, keeping, hlength, repeated_succ]

theorem relative_eq_keeping {home target : String} (hhome : IsPath home) (htarget : IsPath target) :
    ∃ shared, LongestCommon shared (parts home) (parts target) ∧
      relative home target = keeping shared.length home target := by
  -- Induction along the climb from `home`, which ends above or at the target.
  induction home using (wellFounded_goesOn target).induction with
  | _ home ih =>
    by_cases hempty : home = ""
    · rw [hempty, parts_empty]
      refine ⟨[], longestCommon_of_prefix List.nil_prefix, ?_⟩
      have hall : parts target = parts "" ++ parts target := by rw [parts_empty, List.nil_append]
      have hkeeping := keeping_all hall htarget
      rw [parts_empty] at hkeeping
      rw [relative, climb_empty, hkeeping]
    have hproper : Proper home := hhome.resolve_left hempty
    by_cases hself : target = home
    · have hall : parts target = parts home ++ parts "" := by
        rw [hself, parts_empty, List.append_nil]
      refine ⟨parts home, longestCommon_of_prefix (hall ▸ List.prefix_append _ _), ?_⟩
      rw [keeping_all hall (.inl rfl), hself, relative_self]
      rfl
    cases hbelow : isBelow home target with
    | true =>
      obtain ⟨rest, rfl⟩ := isBelow_iff.mp hbelow
      have hrest : Proper rest := (proper_child.mp (htarget.resolve_left (by simp))).2
      refine ⟨parts home,
        longestCommon_of_prefix (parts_child home rest ▸ List.prefix_append _ _), ?_⟩
      rw [keeping_all (parts_child home rest) (.inr hrest), relative_of_below hempty]
    | false =>
      -- The package around shares as much, since the last segment is not shared.
      have hgoesOn : GoesOn target (parent home) home := ⟨hself, hempty, hbelow, rfl⟩
      obtain ⟨hparent, last, hlast⟩ := exists_parts_eq_concat hhome hempty
      have hnot : ¬ parts (parent home) ++ [last] <+: parts target := by
        intro hprefixed
        rcases eq_or_isBelow_of_prefix hproper htarget (hlast ▸ hprefixed) with heq | htrue
        · exact hself heq
        · rw [hbelow] at htrue
          cases htrue
      obtain ⟨shared, hshared, hpath⟩ := ih (parent home) hgoesOn hparent
      refine ⟨shared, hlast ▸ hshared.concat hnot, ?_⟩
      rw [relative_of_goesOn hgoesOn, hpath,
        keeping_concat hlast hshared.prefix_left.length_le]

theorem exists_eq_dots {source : String} (h : source.toList.head? = some '.') :
    ∃ ups down, source = Text.repeated (ups + 1) '.' ++ down ∧
      down.toList.head? ≠ some '.' := by
  obtain ⟨dots, down, hsplit, hdown⟩ := Text.exists_eq_run '.' source.toList
  cases dots with
  | zero =>
    rw [hsplit] at h
    exact absurd h hdown
  | succ ups =>
    refine ⟨ups, String.ofList down, ?_, by simpa using hdown⟩
    apply String.toList_inj.mp
    rw [hsplit, Text.repeated, String.toList_append, String.toList_ofList, String.toList_ofList]

theorem flatMap_parts_take (name : String) (n : ℕ) :
    ((parts name).take n).flatMap parts = (parts name).take n := by
  rw [List.flatMap_congr fun text htext => ?_]
  · exact List.flatMap_singleton' _
  · obtain ⟨hundotted, hne⟩ := spec_of_mem_parts (List.mem_of_mem_take htext)
    exact parts_of_undotted hundotted hne

theorem isPath_of_join_snoc {kept : List String} {down : String} (hdown : down ≠ "")
    (h : IsPath (join (kept ++ [down]))) : IsPath down := by
  have hne : join (kept ++ [down]) ≠ "" := by
    intro hempty
    have hlength := length_join_drop_le (kept ++ [down]) kept.length
    rw [List.drop_left, join_singleton, hempty] at hlength
    exact hdown (String.length_eq_zero_iff.mp (Nat.le_zero.mp hlength))
  exact .inr ((proper_join (by simp)).mp (h.resolve_left hne) down (by simp))

theorem length_keeping_le {home target : String} (htarget : IsPath target) {shared : List String}
    (hshared : LongestCommon shared (parts home) (parts target)) {ups : ℕ} {down : String}
    (hdown : down.toList.head? ≠ some '.')
    (h : absolute home (Text.repeated (ups + 1) '.' ++ down) = target) :
    (keeping shared.length home target).length ≤ (Text.repeated (ups + 1) '.' ++ down).length := by
  rw [absolute_climbing home ups hdown] at h
  have hlength := List.length_take_of_le (Nat.sub_le (parts home).length ups)
  have hprefixed := List.take_prefix ((parts home).length - ups) (parts home)
  have hflat := flatMap_parts_take home ((parts home).length - ups)
  generalize (parts home).take ((parts home).length - ups) = kept at h hlength hprefixed hflat
  have hpath : IsPath down := by
    by_cases hempty : down = ""
    · exact .inl hempty
    · rw [if_neg hempty] at h
      exact isPath_of_join_snoc hempty (h ▸ htarget)
  have hparts : parts target = kept ++ parts down := by
    rw [← h, parts_join, List.flatMap_append, hflat]
    by_cases hempty : down = ""
    · rw [if_pos hempty, hempty, parts_empty]
      rfl
    · rw [if_neg hempty, List.flatMap_singleton]
  have hkept : kept.length ≤ shared.length :=
    ((hshared kept).mpr ⟨hprefixed, hparts ▸ List.prefix_append _ _⟩).length_le
  have hrest : (join ((parts target).drop shared.length)).length ≤ down.length := by
    rw [hparts, List.drop_append, List.drop_eq_nil_of_le hkept, List.nil_append]
    exact (length_join_drop_le _ _).trans_eq (by rw [join_parts hpath])
  simp only [keeping, Text.repeated, String.length_append, String.length_ofList,
    List.length_replicate]
  omega

/-- Of the segments where it starts, a relative path keeps exactly those that its target begins with
as well, and no other path leads to the target with fewer characters. The climb by which it is found
ends, wherever it starts. -/
theorem relative_shortest :
    (∀ home target, IsPath home → IsPath target →
      ∃ shared, LongestCommon shared (parts home) (parts target) ∧
        relative home target =
          Text.repeated ((parts home).length - shared.length + 1) '.' ++
            join ((parts target).drop shared.length) ∧
        ∀ source, source.toList.head? = some '.' → absolute home source = target →
          (relative home target).length ≤ source.length) ∧
    (∀ target, WellFounded (GoesOn target)) ∧
    ∀ home target, relative home target = answer (relative · target) home target := by
  refine ⟨fun home target hhome htarget => ?_, wellFounded_goesOn, relative_eq_answer⟩
  obtain ⟨shared, hshared, hpath⟩ := relative_eq_keeping hhome htarget
  refine ⟨shared, hshared, hpath, fun source hsource hleads => ?_⟩
  obtain ⟨ups, down, rfl, hdown⟩ := exists_eq_dots hsource
  rw [hpath]
  exact length_keeping_le htarget hshared hdown hleads

theorem relative_shortest_siblings :
    IsPath "A.B.C.D" ∧ IsPath "A.B.CD" ∧ relative "A.B.C.D" "A.B.CD" = "...CD" ∧
      ∃ shared, LongestCommon shared (parts "A.B.C.D") (parts "A.B.CD") ∧
        relative "A.B.C.D" "A.B.CD" =
          Text.repeated ((parts "A.B.C.D").length - shared.length + 1) '.' ++
            join ((parts "A.B.CD").drop shared.length) := by
  have hhome : IsPath "A.B.C.D" := by decide +kernel
  have htarget : IsPath "A.B.CD" := by decide +kernel
  obtain ⟨shared, hshared, hpath, -⟩ := relative_shortest.1 _ _ hhome htarget
  exact ⟨hhome, htarget, by decide +kernel, shared, hshared, hpath⟩

end ImportPath

end Bindery
