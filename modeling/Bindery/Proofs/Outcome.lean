import Bindery.Fault
import Mathlib.Data.List.Forall2

/-!
# Successful and failed outcomes

A computation that may fail succeeds exactly when each of its parts does, and fails with the
fault of the first part that does not. These lemmas take a run apart, one part at a time.
-/

namespace Bindery.Outcome

universe u

variable {α β : Type u}

theorem ok_bind (a : α) (f : α → Outcome β) : (Except.ok a : Outcome α) >>= f = f a := rfl

theorem error_bind (fault : Fault) (f : α → Outcome β) :
    (Except.error fault : Outcome α) >>= f = .error fault := rfl

theorem bind_eq_ok {x : Outcome α} {f : α → Outcome β} {b : β} :
    x >>= f = .ok b ↔ ∃ a, x = .ok a ∧ f a = .ok b := by
  cases x with
  | error e => simp [bind, Except.bind]
  | ok a => simp [bind, Except.bind]

theorem bind_eq_error {x : Outcome α} {f : α → Outcome β} {fault : Fault} :
    x >>= f = .error fault ↔ x = .error fault ∨ ∃ a, x = .ok a ∧ f a = .error fault := by
  cases x with
  | error e => simp [bind, Except.bind]
  | ok a => simp [bind, Except.bind]

theorem pure_eq_ok {a b : α} : (pure a : Outcome α) = .ok b ↔ a = b :=
  Except.ok.injEq a b ▸ Iff.rfl

theorem map_eq_error_iff {x : Outcome α} {f : α → β} {fault : Fault} :
    x.map f = .error fault ↔ x = .error fault := by
  cases x with
  | error e => simp [Except.map]
  | ok a => simp [Except.map]

theorem exists_eq_ok_iff_map {x : Outcome α} : (∃ a, x = .ok a) ↔ x.map (fun _ => ()) = .ok () := by
  cases x with
  | error e => simp [Except.map]
  | ok a => simp [Except.map]

theorem eq_ok_of_toOption {x : Outcome α} {a : α} (h : x.toOption = some a) : x = .ok a := by
  cases x with
  | error e => simp [Except.toOption] at h
  | ok b => exact congrArg Except.ok (Option.some.inj h)

theorem eq_ok_get {x : Outcome α} (h : x.toOption.isSome = true) : x = .ok (x.toOption.get h) :=
  eq_ok_of_toOption (Option.some_get h).symm

theorem exists_eq_ok_of_map {x : Outcome α} {f : α → β} {b : β} (h : x.toOption.map f = some b) :
    ∃ a, x = .ok a ∧ f a = b := by
  obtain ⟨a, ha, hb⟩ := Option.map_eq_some_iff.mp h
  exact ⟨a, eq_ok_of_toOption ha, hb⟩

theorem mapM_eq_ok {f : α → Outcome β} {xs : List α} {ys : List β} :
    xs.mapM f = .ok ys ↔ List.Forall₂ (fun x y => f x = .ok y) xs ys := by
  induction xs generalizing ys with
  | nil =>
    rw [List.mapM_nil, pure_eq_ok, List.forall₂_nil_left_iff]
    exact eq_comm
  | cons x xs ih =>
    simp only [List.mapM_cons, bind_eq_ok, pure_eq_ok, List.forall₂_cons_left_iff, ih]
    constructor
    · rintro ⟨y, hy, zs, hzs, rfl⟩
      exact ⟨y, zs, hy, hzs, rfl⟩
    · rintro ⟨y, zs, hy, hzs, rfl⟩
      exact ⟨y, hy, zs, hzs, rfl⟩

theorem exists_mem_of_mapM {f : α → Outcome β} {xs : List α} {ys : List β}
    (h : xs.mapM f = .ok ys) {y : β} (hy : y ∈ ys) : ∃ x ∈ xs, f x = .ok y := by
  induction mapM_eq_ok.mp h with
  | nil => exact absurd hy List.not_mem_nil
  | @cons x z xs zs hx hrest ih =>
    rcases List.mem_cons.mp hy with rfl | hy
    · exact ⟨x, List.mem_cons_self, hx⟩
    · obtain ⟨x', hin, hx'⟩ := ih (mapM_eq_ok.mpr hrest) hy
      exact ⟨x', List.mem_cons_of_mem x hin, hx'⟩

theorem exists_mem_mapM {f : α → Outcome β} {xs : List α} {ys : List β}
    (h : xs.mapM f = .ok ys) {x : α} (hx : x ∈ xs) : ∃ y ∈ ys, f x = .ok y := by
  induction mapM_eq_ok.mp h with
  | nil => exact absurd hx List.not_mem_nil
  | @cons z y xs ys hz hrest ih =>
    rcases List.mem_cons.mp hx with rfl | hx
    · exact ⟨y, List.mem_cons_self, hz⟩
    · obtain ⟨y', hin, hy'⟩ := ih (mapM_eq_ok.mpr hrest) hx
      exact ⟨y', List.mem_cons_of_mem y hin, hy'⟩

theorem map_eq_map_of_mapM {γ : Type u} {f : α → Outcome β} {g : β → γ} {g' : α → γ}
    (hf : ∀ x y, f x = .ok y → g y = g' x) {xs : List α} {ys : List β}
    (h : xs.mapM f = .ok ys) : ys.map g = xs.map g' := by
  induction mapM_eq_ok.mp h with
  | nil => rfl
  | cons hy hrest ih =>
    rw [List.map_cons, List.map_cons, hf _ _ hy, ih (mapM_eq_ok.mpr hrest)]

theorem exists_fault_of_mapM {f : α → Outcome β} {xs : List α} {fault : Fault}
    (h : xs.mapM f = .error fault) : ∃ x ∈ xs, f x = .error fault := by
  induction xs with
  | nil => cases h
  | cons x xs ih =>
    rw [List.mapM_cons] at h
    rcases bind_eq_error.mp h with hx | ⟨y, -, h⟩
    · exact ⟨x, List.mem_cons_self, hx⟩
    · rcases bind_eq_error.mp h with hrest | ⟨ys, -, hpure⟩
      · obtain ⟨z, hz, hfault⟩ := ih hrest
        exact ⟨z, List.mem_cons_of_mem x hz, hfault⟩
      · cases hpure

theorem exists_step_of_foldlM {f : β → α → Outcome β} {xs : List α} {start last : β}
    (h : xs.foldlM f start = .ok last) {x : α} (hx : x ∈ xs) : ∃ b b', f b x = .ok b' := by
  induction xs generalizing start with
  | nil => exact absurd hx List.not_mem_nil
  | cons first xs ih =>
    rw [List.foldlM_cons] at h
    obtain ⟨middle, hfirst, hrest⟩ := bind_eq_ok.mp h
    rcases List.mem_cons.mp hx with rfl | hx
    · exact ⟨start, middle, hfirst⟩
    · exact ih hrest hx

theorem exists_fault_of_foldlM {f : β → α → Outcome β} {xs : List α} {start : β} {fault : Fault}
    (h : xs.foldlM f start = .error fault) : ∃ x ∈ xs, ∃ b, f b x = .error fault := by
  induction xs generalizing start with
  | nil => cases h
  | cons first xs ih =>
    rw [List.foldlM_cons] at h
    rcases bind_eq_error.mp h with hfirst | ⟨middle, -, hrest⟩
    · exact ⟨first, List.mem_cons_self, start, hfirst⟩
    · obtain ⟨x, hx, hfault⟩ := ih hrest
      exact ⟨x, List.mem_cons_of_mem first hx, hfault⟩

theorem exists_mapM_eq_ok {f : α → Outcome β} {xs : List α} (h : ∀ x ∈ xs, ∃ y, f x = .ok y) :
    ∃ ys, xs.mapM f = .ok ys := by
  induction xs with
  | nil => exact ⟨[], rfl⟩
  | cons x xs ih =>
    obtain ⟨y, hy⟩ := h x List.mem_cons_self
    obtain ⟨ys, hys⟩ := ih fun z hz => h z (List.mem_cons_of_mem x hz)
    exact ⟨y :: ys, mapM_eq_ok.mpr (.cons hy (mapM_eq_ok.mp hys))⟩

end Bindery.Outcome
