import Bindery.Name.Identifier
import Mathlib.Data.List.Nodup
import Mathlib.Data.List.Perm.Subperm

/-!
# Fresh names

A name that is in use gets underscores until it is not. The first free candidate is found, because
the candidates are distinct and so no more of them are in use than there are names in use. Two names
end up as one exactly if the underscores behind one of them lead to the other.
-/

namespace Bindery.Identifier

variable {name one other : String} {inUse : List String} {m n : ℕ}

def suffixed (name : String) (n : ℕ) : String := name ++ Text.repeated n '_'

theorem toList_suffixed (name : String) (n : ℕ) :
    (suffixed name n).toList = name.toList ++ List.replicate n '_' := by
  simp [suffixed, Text.repeated]

@[simp]
theorem suffixed_zero (name : String) : suffixed name 0 = name := by
  apply String.toList_inj.mp
  simp [toList_suffixed]

theorem suffixed_suffixed (name : String) (m n : ℕ) :
    suffixed (suffixed name m) n = suffixed name (m + n) := by
  apply String.toList_inj.mp
  simp [toList_suffixed]

theorem append_underscore (name : String) : name ++ "_" = suffixed name 1 := rfl

theorem suffixed_right_injective (name : String) : Function.Injective (suffixed name) := by
  intro m n h
  have hlength := congrArg (List.length ∘ String.toList) h
  simpa [toList_suffixed] using hlength

theorem suffixed_left_injective (n : ℕ) : Function.Injective (suffixed · n) := by
  intro one other h
  have hchars := congrArg String.toList h
  simp only [toList_suffixed] at hchars
  exact String.toList_inj.mp (List.append_cancel_right hchars)

theorem le_length_of_taken (h : ∀ k < n, suffixed name k ∈ inUse) : n ≤ inUse.length := by
  have hdistinct : ((List.range n).map (suffixed name)).Nodup :=
    List.nodup_range.map (suffixed_right_injective name)
  have hsubset : (List.range n).map (suffixed name) ⊆ inUse := by
    intro candidate hcandidate
    obtain ⟨k, hk, rfl⟩ := List.mem_map.mp hcandidate
    exact h k (List.mem_range.mp hk)
  simpa using (hdistinct.subperm hsubset).length_le

/-- The least number of underscores that makes a name free. -/
structure FirstFree (name : String) (inUse : List String) (n : ℕ) : Prop where
  taken : ∀ k < n, suffixed name k ∈ inUse
  free : suffixed name n ∉ inUse

theorem FirstFree.unique (hm : FirstFree name inUse m) (hn : FirstFree name inUse n) : m = n := by
  rcases Nat.lt_trichotomy m n with hlt | heq | hgt
  · exact absurd (hn.taken m hlt) hm.free
  · exact heq
  · exact absurd (hm.taken n hgt) hn.free

theorem firstFree_add_iff :
    FirstFree name inUse (m + n) ↔
      (∀ k < m, suffixed name k ∈ inUse) ∧ FirstFree (suffixed name m) inUse n := by
  constructor
  · intro h
    refine ⟨fun k hk => h.taken k (by omega), fun k hk => ?_, ?_⟩
    · rw [suffixed_suffixed]
      exact h.taken _ (by omega)
    · rw [suffixed_suffixed]
      exact h.free
  · rintro ⟨hfirst, hrest⟩
    refine ⟨fun k hk => ?_, ?_⟩
    · rcases Nat.lt_or_ge k m with hlt | hge
      · exact hfirst k hlt
      · obtain ⟨j, rfl⟩ := Nat.exists_eq_add_of_le hge
        rw [← suffixed_suffixed]
        exact hrest.taken j (by omega)
    · rw [← suffixed_suffixed]
      exact hrest.free

theorem exists_go_eq (name : String) (inUse : List String) (fuel : ℕ) :
    ∃ n, uniquify.go inUse fuel name = suffixed name n ∧ (∀ k < n, suffixed name k ∈ inUse) ∧
      (suffixed name n ∉ inUse ∨ n = fuel) := by
  induction fuel generalizing name with
  | zero => exact ⟨0, (suffixed_zero name).symm, by simp, .inr rfl⟩
  | succ fuel ih =>
    rw [uniquify.go]
    by_cases hin : name ∈ inUse
    · obtain ⟨n, hgo, htaken, hstop⟩ := ih (name ++ "_")
      simp only [append_underscore, suffixed_suffixed] at hgo htaken hstop
      refine ⟨1 + n, ?_, ?_, ?_⟩
      · rw [if_pos hin, append_underscore, hgo]
      · intro k hk
        cases k with
        | zero => rwa [suffixed_zero]
        | succ k =>
          rw [Nat.add_comm]
          exact htaken k (by omega)
      · exact hstop.imp_right fun hfuel => by omega
    · exact ⟨0, by rw [if_neg hin, suffixed_zero], by simp, .inl (by rwa [suffixed_zero])⟩

theorem exists_firstFree (name : String) (inUse : List String) :
    ∃ n, FirstFree name inUse n ∧ uniquify name inUse = suffixed name n := by
  obtain ⟨n, hgo, htaken, hstop⟩ := exists_go_eq name inUse inUse.length
  refine ⟨n, ⟨htaken, fun hin => ?_⟩, hgo⟩
  have hall : ∀ k < n + 1, suffixed name k ∈ inUse := by
    intro k hk
    rcases Nat.lt_succ_iff_lt_or_eq.mp hk with hlt | rfl
    · exact htaken k hlt
    · exact hin
  have hlength := le_length_of_taken hall
  rcases hstop with hfree | hfuel
  · exact hfree hin
  · omega

theorem uniquify_eq_suffixed (h : FirstFree name inUse n) :
    uniquify name inUse = suffixed name n := by
  obtain ⟨k, hk, heq⟩ := exists_firstFree name inUse
  rw [heq, hk.unique h]

theorem uniquify_not_mem (name : String) (inUse : List String) : uniquify name inUse ∉ inUse := by
  obtain ⟨n, hn, heq⟩ := exists_firstFree name inUse
  rw [heq]
  exact hn.free

def Reaches (inUse : List String) (one other : String) : Prop :=
  ∃ n, other = suffixed one (n + 1) ∧ ∀ k ≤ n, suffixed one k ∈ inUse

theorem Reaches.ne (h : Reaches inUse one other) : one ≠ other := by
  obtain ⟨n, rfl, -⟩ := h
  intro hsame
  rw [← suffixed_zero one, suffixed_suffixed] at hsame
  exact absurd (suffixed_right_injective one hsame) (by omega)

theorem Reaches.uniquify_eq (h : Reaches inUse one other) :
    uniquify one inUse = uniquify other inUse := by
  obtain ⟨n, rfl, htaken⟩ := h
  obtain ⟨m, hm, heq⟩ := exists_firstFree one inUse
  have hlt : n < m := by
    by_contra hle
    exact hm.free (htaken m (by omega))
  obtain ⟨rest, rfl⟩ := Nat.exists_eq_add_of_le (Nat.succ_le_of_lt hlt)
  have hrest : FirstFree (suffixed one (n + 1)) inUse rest := (firstFree_add_iff.mp hm).2
  rw [heq, uniquify_eq_suffixed hrest, suffixed_suffixed]

theorem reaches_of_suffixed_eq (hm : FirstFree one inUse m) (hle : n ≤ m) (hne : one ≠ other)
    (h : suffixed one m = suffixed other n) : Reaches inUse one other := by
  obtain ⟨steps, rfl⟩ := Nat.exists_eq_add_of_le' hle
  rw [← suffixed_suffixed] at h
  have hother : suffixed one steps = other := suffixed_left_injective n h
  cases steps with
  | zero => exact absurd ((suffixed_zero one).symm.trans hother) hne
  | succ steps => exact ⟨steps, hother.symm, fun k hk => hm.taken k (by omega)⟩

theorem uniquify_eq_uniquify_iff (hne : one ≠ other) :
    uniquify one inUse = uniquify other inUse ↔
      Reaches inUse one other ∨ Reaches inUse other one := by
  constructor
  · intro h
    obtain ⟨m, hm, hone⟩ := exists_firstFree one inUse
    obtain ⟨n, hn, hother⟩ := exists_firstFree other inUse
    rw [hone, hother] at h
    rcases Nat.le_total n m with hle | hle
    · exact .inl (reaches_of_suffixed_eq hm hle hne h)
    · exact .inr (reaches_of_suffixed_eq hn hle hne.symm h.symm)
  · rintro (h | h)
    · exact h.uniquify_eq
    · exact h.uniquify_eq.symm

end Bindery.Identifier
