import Bindery.Name.ImportPath
import Bindery.Proofs.Dotted

/-!
# Theory of import paths

A relative path is some dots and the segments that lead down from the package they name. Each
dot behind the first one gives up a segment of the package where the path starts, so following
the path from there leads to the package it was made for.
-/

namespace Bindery.ImportPath

open Dotted

/-- The package that is reached from `home` by climbing `ups` times and then going down. -/
def follow (home : String) (ups : ℕ) (down : String) : String :=
  let base := segments home
  join (base.take (base.length - ups) ++ if down = "" then [] else [down])

theorem absolute_climbing (home : String) (ups : ℕ) {down : String}
    (hdown : down.toList.head? ≠ some '.') :
    absolute home (Text.repeated (ups + 1) '.' ++ down) =
      join ((parts home).take ((parts home).length - ups) ++ if down = "" then [] else [down]) := by
  have hchars : (Text.repeated (ups + 1) '.' ++ down).toList =
      List.replicate (ups + 1) '.' ++ down.toList := by
    simp [Text.repeated]
  obtain ⟨hdots, hbehind⟩ := Text.span_run '.' (ups + 1) hdown
  rw [absolute, hchars, hdots, hbehind, String.ofList_toList]
  simp [parts]

theorem absolute_inside (home : String) {down : String} (hdown : Undotted down) :
    absolute home ("." ++ down) = join (parts home ++ if down = "" then [] else [down]) := by
  have hhead : down.toList.head? ≠ some '.' := fun hdot => hdown (List.mem_of_head? hdot)
  have hclimb := absolute_climbing home 0 hhead
  rwa [Nat.sub_zero, List.take_length] at hclimb

theorem absolute_dot (home : String) : absolute home "." = join (parts home) := by
  have hempty : Undotted "" := by simp [Undotted]
  have hinside := absolute_inside home hempty
  rwa [if_pos rfl, List.append_nil, String.append_empty] at hinside

theorem absolute_dots {home down : String} (hhome : Proper home)
    (hdown : down.toList.head? ≠ some '.') (ups : ℕ) :
    absolute home (Text.repeated (ups + 1) '.' ++ down) = follow home ups down := by
  rw [absolute_climbing home ups hdown, parts_of_proper hhome]
  rfl

theorem follow_zero_empty (home : String) : follow home 0 "" = home := by
  simp [follow, join_segments]

theorem follow_zero {home down : String} (h : down ≠ "") :
    follow home 0 down = home ++ "." ++ down := by
  simp only [follow, Nat.sub_zero, List.take_length, if_neg h]
  rw [join_snoc (segments_ne_nil home), join_segments]

theorem follow_all {home down : String} (hhome : Undotted home) (h : down ≠ "") :
    follow home 1 down = down := by
  simp [follow, segments_of_undotted hhome, h, join_singleton]

theorem follow_child (outer : String) {last : String} (hlast : Undotted last) (ups : ℕ)
    (down : String) : follow (outer ++ "." ++ last) (ups + 1) down = follow outer ups down := by
  have htake : (segments outer ++ [last]).take ((segments outer ++ [last]).length - (ups + 1)) =
      (segments outer).take ((segments outer).length - ups) := by
    rw [List.length_append, List.length_singleton, Nat.add_sub_add_right]
    exact List.take_append_of_le_length (Nat.sub_le _ _)
  simp only [follow, segments_child outer hlast, htake]

theorem relative_of_not_below {home target : String} (hhome : home ≠ "") (hne : target ≠ home)
    (hbelow : ¬ isBelow home target = true) :
    relative home target = "." ++ climb target (ancestors home) := by
  have hnone : below? home target = none := by
    simpa [isBelow] using hbelow
  rw [relative, climb, if_neg hne, if_neg hhome, hnone]

theorem relative_self (home : String) : relative home home = "." := by
  rw [relative, climb, if_pos rfl]

theorem relative_of_below {home : String} (hhome : home ≠ "") (rest : String) :
    relative home (home ++ "." ++ rest) = "." ++ rest := by
  have hne : home ++ "." ++ rest ≠ home := by
    intro heq
    have hlt := length_lt_child home rest
    rw [heq] at hlt
    omega
  rw [relative, climb, if_neg hne, if_neg hhome, below?_eq_some_iff.mpr rfl]

theorem repeated_succ (n : ℕ) (text : String) :
    "." ++ (Text.repeated n '.' ++ text) = Text.repeated (n + 1) '.' ++ text := by
  apply String.toList_inj.mp
  simp [Text.repeated, List.replicate_succ]

def Leads (home target : String) : Prop :=
  ∃ ups down, relative home target = Text.repeated (ups + 1) '.' ++ down ∧
    down.toList.head? ≠ some '.' ∧ follow home ups down = target

theorem leads_self (home : String) : Leads home home :=
  ⟨0, "", relative_self home, by simp, follow_zero_empty home⟩

theorem leads_of_below {home rest : String} (hhome : home ≠ "") (hrest : Proper rest) :
    Leads home (home ++ "." ++ rest) :=
  ⟨0, rest, relative_of_below hhome rest, hrest.head?_ne_dot, follow_zero hrest.ne_empty⟩

theorem leads_of_proper {home target : String} (hhome : Proper home) (htarget : Proper target) :
    Leads home target := by
  induction home using Dotted.inductionOn with
  | single home hundotted =>
    by_cases hself : target = home
    · exact hself ▸ leads_self home
    by_cases hbelow : isBelow home target = true
    · obtain ⟨rest, rfl⟩ := isBelow_iff.mp hbelow
      exact leads_of_below hhome.ne_empty (proper_child.mp htarget).2
    refine ⟨1, target, ?_, htarget.head?_ne_dot, follow_all hundotted htarget.ne_empty⟩
    rw [relative_of_not_below hhome.ne_empty hself hbelow, ancestors_of_undotted hundotted, climb,
      if_neg htarget.ne_empty, if_pos rfl]
    exact repeated_succ 1 target
  | child outer last hlast ih =>
    by_cases hself : target = outer ++ "." ++ last
    · exact hself ▸ leads_self _
    by_cases hbelow : isBelow (outer ++ "." ++ last) target = true
    · obtain ⟨rest, rfl⟩ := isBelow_iff.mp hbelow
      exact leads_of_below hhome.ne_empty (proper_child.mp htarget).2
    -- The climb goes on as if it had started in the package around.
    obtain ⟨ups, down, hpath, hdown, hfollow⟩ := ih (proper_child.mp hhome).1
    refine ⟨ups + 1, down, ?_, hdown, by rw [follow_child outer hlast, hfollow]⟩
    rw [relative_of_not_below hhome.ne_empty hself hbelow, ancestors_child outer hlast, ← relative,
      hpath]
    exact repeated_succ (ups + 1) down

theorem absolute_relative {home target : String} (hhome : Proper home) (htarget : Proper target) :
    absolute home (relative home target) = target := by
  obtain ⟨ups, down, hpath, hdown, hfollow⟩ := leads_of_proper hhome htarget
  rw [hpath, absolute_dots hhome hdown, hfollow]

theorem head?_relative (home target : String) :
    (relative home target).toList.head? = some '.' := by
  rw [relative, climb]
  split
  · rfl
  · split
    · simp
    · split <;> simp

theorem relative_empty {home : String} (hhome : Proper home) :
    relative home "" = Text.repeated ((segments home).length + 1) '.' := by
  have hbelow : ∀ outer : String, ¬ isBelow outer "" = true := by
    intro outer hbelow
    obtain ⟨rest, hrest⟩ := isBelow_iff.mp hbelow
    exact absurd (congrArg String.toList hrest) (by simp)
  induction home using Dotted.inductionOn with
  | single home hundotted =>
    rw [relative_of_not_below hhome.ne_empty hhome.ne_empty.symm (hbelow home),
      ancestors_of_undotted hundotted, segments_of_undotted hundotted]
    rfl
  | child outer last hlast ih =>
    rw [relative_of_not_below hhome.ne_empty hhome.ne_empty.symm (hbelow _),
      ancestors_child outer hlast, ← relative, ih (proper_child.mp hhome).1,
      segments_child outer hlast, List.length_append, List.length_singleton]
    simpa using repeated_succ ((segments outer).length + 1) ""

theorem absolute_relative_empty {home : String} (hhome : Proper home) :
    absolute home (relative home "") = "" := by
  have hpath : relative home "" = Text.repeated ((segments home).length + 1) '.' ++ "" := by
    rw [relative_empty hhome, String.append_empty]
  rw [hpath, absolute_climbing home _ (by simp), parts_of_proper hhome, Nat.sub_self]
  rfl

theorem absolute_empty_relative {target : String} (htarget : IsPath target) :
    absolute "" (relative "" target) = target := by
  rcases htarget with rfl | htarget
  · rw [relative_self]
    rfl
  · have hrelative : relative "" target = Text.repeated 1 '.' ++ target := by
      rw [relative, climb, if_neg htarget.ne_empty, if_pos rfl]
      rfl
    rw [hrelative, absolute_climbing "" 0 htarget.head?_ne_dot, if_neg htarget.ne_empty,
      parts_empty]
    exact join_singleton target

/-- A relative path starts with a dot, and following it from where it starts leads to the name it
was made for. Either name may be empty. -/
theorem relative_inverse {home target : String} (hhome : IsPath home) (htarget : IsPath target) :
    (relative home target).toList.head? = some '.' ∧
      absolute home (relative home target) = target := by
  refine ⟨head?_relative home target, ?_⟩
  rcases hhome with rfl | hhome
  · exact absolute_empty_relative htarget
  · rcases htarget with rfl | htarget
    · exact absolute_relative_empty hhome
    · exact absolute_relative hhome htarget

theorem relative_inverse_common_prefix :
    IsPath "A.B" ∧ IsPath "A.BC" ∧ relative "A.B" "A.BC" = "..BC" ∧
      absolute "A.B" (relative "A.B" "A.BC") = "A.BC" :=
  ⟨by decide +kernel, by decide +kernel, by decide +kernel,
    (relative_inverse (by decide +kernel) (by decide +kernel)).2⟩

theorem absolute_of_head? (home : String) {source : String}
    (h : source.toList.head? ≠ some '.') : absolute home source = source := by
  have hnone : source.toList.takeWhile (· = '.') = [] := by
    cases hcs : source.toList with
    | nil => rfl
    | cons c rest =>
      rw [hcs] at h
      simpa using h
  simp [absolute, hnone]

end Bindery.ImportPath
