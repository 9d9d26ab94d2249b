import Bindery.Proofs.FreshNames
import Bindery.Proofs.ReservedWords

/-!
# The search for a free name

The search for a free name tries the name, then the name with one underscore, and so on; nothing in
it says when to stop but a name that is free. It stops all the same, after at most as many
underscores as there are names in use, and `uniquify` gives the name where it stops. A name that is
no reserved word never becomes one on the way.
-/

namespace Bindery.Identifier

variable {name result : String} {inUse : List String} {passes n : ℕ}

/-- A run of the search from `name`, which ends with `result` after so many underscores. -/
inductive Search (inUse : List String) : String → ℕ → String → Prop
  | free {name : String} (h : name ∉ inUse) : Search inUse name 0 name
  | taken {name result : String} {passes : ℕ} (h : name ∈ inUse)
      (hrest : Search inUse (name ++ "_") passes result) : Search inUse name (passes + 1) result

theorem firstFree_zero_iff : FirstFree name inUse 0 ↔ name ∉ inUse := by
  constructor
  · intro h
    rw [← suffixed_zero name]
    exact h.free
  · intro h
    exact ⟨by simp, by rwa [suffixed_zero]⟩

theorem firstFree_succ_iff :
    FirstFree name inUse (n + 1) ↔ name ∈ inUse ∧ FirstFree (name ++ "_") inUse n := by
  rw [Nat.add_comm, firstFree_add_iff, append_underscore]
  simp

theorem Search.firstFree (h : Search inUse name passes result) :
    FirstFree name inUse passes ∧ result = suffixed name passes := by
  induction h with
  | free hfree => exact ⟨firstFree_zero_iff.mpr hfree, (suffixed_zero _).symm⟩
  | taken htaken _ ih =>
    obtain ⟨hrest, hresult⟩ := ih
    refine ⟨firstFree_succ_iff.mpr ⟨htaken, hrest⟩, ?_⟩
    rw [hresult, append_underscore, suffixed_suffixed, Nat.add_comm]

theorem FirstFree.search (h : FirstFree name inUse passes) :
    Search inUse name passes (suffixed name passes) := by
  induction passes generalizing name with
  | zero =>
    rw [suffixed_zero]
    exact .free (firstFree_zero_iff.mp h)
  | succ passes ih =>
    obtain ⟨htaken, hrest⟩ := firstFree_succ_iff.mp h
    have hrun := ih hrest
    rw [append_underscore, suffixed_suffixed, Nat.add_comm] at hrun
    exact .taken htaken hrun

/-- The search from `name` stops, in one way only, and its result is the first free candidate. -/
structure Settled (inUse : List String) (name : String) (passes : ℕ) (result : String) :
    Prop where
  search_iff : ∀ n found, Search inUse name n found ↔ n = passes ∧ found = result
  spelled : result = suffixed name passes
  free : result ∉ inUse
  least : ∀ k < passes, suffixed name k ∈ inUse
  passes_le : passes ≤ inUse.length

theorem FirstFree.settled (h : FirstFree name inUse passes) :
    Settled inUse name passes (suffixed name passes) where
  search_iff n found := by
    constructor
    · intro hrun
      obtain ⟨hfirst, hfound⟩ := hrun.firstFree
      obtain rfl := hfirst.unique h
      exact ⟨rfl, hfound⟩
    · rintro ⟨rfl, rfl⟩
      exact h.search
  spelled := rfl
  free := h.free
  least := h.taken
  passes_le := le_length_of_taken h.taken

theorem exists_settled (name : String) (inUse : List String) :
    ∃ passes, Settled inUse name passes (uniquify name inUse) := by
  obtain ⟨passes, hfirst, heq⟩ := exists_firstFree name inUse
  rw [heq]
  exact ⟨passes, hfirst.settled⟩

theorem suffixed_not_mem_reservedWords (h : name ∉ reservedWords) (n : ℕ) :
    suffixed name n ∉ reservedWords := by
  cases n with
  | zero => rwa [suffixed_zero]
  | succ n =>
    intro hin
    have hletters := List.all_eq_true.mp (reservedWords_letters _ hin).1
    have hunder : '_' ∈ (suffixed name (n + 1)).toList := by simp [toList_suffixed]
    exact absurd (hletters '_' hunder) (by decide)

/-- The search settles for every name and every list of names in use, and so does the naming of
parameters, which searches from the escaped name in snake case. -/
theorem search_settles (name : String) (inUse : List String) :
    (∃ passes, Settled inUse name passes (uniquify name inUse)) ∧
      (∃ passes, Settled inUse (escape (snake name)) passes (parameter name inUse)) ∧
      parameter name inUse ∉ reservedWords := by
  obtain ⟨passes, hsettled⟩ : ∃ passes,
      Settled inUse (escape (snake name)) passes (parameter name inUse) :=
    exists_settled (escape (snake name)) inUse
  refine ⟨exists_settled name inUse, ⟨passes, hsettled⟩, ?_⟩
  rw [hsettled.spelled]
  exact suffixed_not_mem_reservedWords (escape_not_mem_reservedWords (snake name)) passes

example : parameter "Lambda" ["lambda_", "lambda", "lambda_"] = "lambda__" := by decide +kernel

end Bindery.Identifier
