import Bindery.Model.Inheritance
import Bindery.Proofs.Collection
import Bindery.Proofs.Outcome

/-!
# Theory of inheritance

A struct inherits from its bases and from all that these inherit from. The walk that goes depth
first enters all of these structs, unless it fails, and no others; the walk that goes breadth
first meets no others either. So the fields that a lifted struct stands for belong to structs that
were entered.
-/

namespace Bindery.Catalog

open Api

variable {c : Catalog}

/-- A struct inherits from itself, from its bases, and from what these inherit from. -/
inductive Inherits (c : Catalog) (start : String) : String → Prop
  | self : Inherits c start start
  | base {fqn base : String} {struct : InterfaceType} (h : Inherits c start fqn)
      (hstruct : c.struct fqn = .ok struct) (hbase : base ∈ struct.interfaces) :
      Inherits c start base

def keys (c : Catalog) : List String := c.assembly.types.keys ++ c.dependencies.keys

def unseen (c : Catalog) (seen : List String) : ℕ := (c.keys.filter (· ∉ seen)).length

theorem mem_keys_of_struct {fqn : String} {struct : InterfaceType} (h : c.struct fqn = .ok struct) :
    fqn ∈ c.keys := by
  obtain ⟨entry, hentry, -⟩ := Outcome.bind_eq_ok.mp h
  have hsome : (c.entry? fqn).isSome = true := by
    rw [Catalog.entry] at hentry
    split at hentry
    · rename_i found hfound
      simp [hfound]
    · cases hentry
  rw [keys, List.mem_append, ← OrderedMap.contains_iff, ← OrderedMap.contains_iff]
  simpa [ entry?, OrderedMap.contains] using hsome

theorem unseen_mono {seen seen' : List String} (h : seen ⊆ seen') :
    c.unseen seen' ≤ c.unseen seen := by
  refine (List.monotone_filter_right c.keys ?_).length_le
  intro fqn hfqn
  simp only [decide_eq_true_eq] at hfqn ⊢
  exact fun hin => hfqn (h hin)

theorem unseen_cons_lt {fqn : String} {seen : List String} (hkey : fqn ∈ c.keys)
    (hnew : fqn ∉ seen) : c.unseen (fqn :: seen) < c.unseen seen := by
  have hsplit : c.keys.filter (· ∉ fqn :: seen) =
      (c.keys.filter (· ∉ seen)).filter (· ≠ fqn) := by
    rw [List.filter_filter]
    refine List.filter_congr fun name _ => ?_
    simp [not_or]
  rw [unseen, unseen, hsplit, List.length_filter_lt_length_iff_exists]
  exact ⟨fqn, List.mem_filter.mpr ⟨hkey, by simpa using hnew⟩, by simp⟩

theorem unseen_nil_lt : c.unseen [] < c.size + 1 := by
  have hle := List.length_filter_le (fun fqn => decide (fqn ∉ ([] : List String))) c.keys
  have hkeys : c.keys.length = c.size := by
    simp [keys, size, OrderedMap.keys, OrderedMap.size]
  rw [unseen]
  omega

def walkStep (c : Catalog) (fuel : ℕ) (state : List Visit × List String) (fqn : String) :
    List Visit × List String :=
  if fqn ∈ state.2 then state
  else match c.struct fqn with
    | .error fault => (state.1 ++ [.fail fault], fqn :: state.2)
    | .ok struct =>
      let inner := c.walk fuel struct.interfaces (fqn :: state.2)
      (state.1 ++ .enter fqn struct :: inner.1 ++ [.leave fqn struct], inner.2)

theorem walk_succ (fuel : ℕ) (names seen : List String) :
    c.walk (fuel + 1) names seen = names.foldl (c.walkStep fuel) ([], seen) := rfl

theorem walkStep_of_struct {fuel : ℕ} {state : List Visit × List String} {fqn : String}
    (hnew : fqn ∉ state.2) {struct : InterfaceType} (hstruct : c.struct fqn = .ok struct)
    {inner : List Visit × List String}
    (hinner : c.walk fuel struct.interfaces (fqn :: state.2) = inner) :
    c.walkStep fuel state fqn =
      (state.1 ++ .enter fqn struct :: inner.1 ++ [.leave fqn struct], inner.2) := by
  rw [walkStep, if_neg hnew, hstruct, ← hinner]

/-- What a walk has done since `seen`: every name that is new was entered, and its bases were
seen, unless the walk has failed. -/
structure Explored (c : Catalog) (seen : List String) (state : List Visit × List String) :
    Prop where
  grows : seen ⊆ state.2
  entered : ∀ fqn ∈ state.2, fqn ∉ seen → (∃ fault, .fail fault ∈ state.1) ∨
    ∃ struct, c.struct fqn = .ok struct ∧ .enter fqn struct ∈ state.1 ∧
      struct.interfaces ⊆ state.2

theorem Explored.step {fuel : ℕ} {seen : List String} {state : List Visit × List String}
    (hinner : ∀ names seen, c.unseen seen < fuel →
      Explored c seen (c.walk fuel names seen) ∧ names ⊆ (c.walk fuel names seen).2)
    (hfuel : c.unseen state.2 ≤ fuel) (h : Explored c seen state) (fqn : String) :
    Explored c seen (c.walkStep fuel state fqn) ∧ fqn ∈ (c.walkStep fuel state fqn).2 ∧
      state.2 ⊆ (c.walkStep fuel state fqn).2 := by
  by_cases hseen : fqn ∈ state.2
  · rw [walkStep, if_pos hseen]
    exact ⟨h, hseen, List.Subset.refl _⟩
  · cases hstruct : c.struct fqn with
    | error fault =>
      have hgrows : state.2 ⊆ fqn :: state.2 := List.subset_cons_self fqn state.2
      rw [walkStep, if_neg hseen, hstruct]
      refine ⟨⟨List.Subset.trans h.grows hgrows, fun _ _ _ => .inl ⟨fault, ?_⟩⟩, ?_, hgrows⟩
      · exact List.mem_append_right _ List.mem_cons_self
      · exact List.mem_cons_self
    | ok struct =>
      have hless : c.unseen (fqn :: state.2) < fuel :=
        (unseen_cons_lt (mem_keys_of_struct hstruct) hseen).trans_le hfuel
      obtain ⟨hexplored, hbases⟩ := hinner struct.interfaces (fqn :: state.2) hless
      rw [walkStep_of_struct hseen hstruct rfl]
      generalize c.walk fuel struct.interfaces (fqn :: state.2) = inner at hexplored hbases ⊢
      have hgrows : state.2 ⊆ inner.2 :=
        List.Subset.trans (List.subset_cons_self fqn state.2) hexplored.grows
      refine ⟨⟨List.Subset.trans h.grows hgrows, fun name hname hnew => ?_⟩, ?_, hgrows⟩
      · by_cases hbefore : name ∈ state.2
        · -- The name was met before this step.
          rcases h.entered name hbefore hnew with ⟨fault, hfault⟩ | ⟨found, hfound, henter, hsub⟩
          · exact .inl ⟨fault, by simp [hfault]⟩
          · exact .inr ⟨found, hfound, by simp [henter], List.Subset.trans hsub hgrows⟩
        · by_cases hself : name = fqn
          · -- It is the struct of this step, whose bases were all met inside.
            subst hself
            exact .inr ⟨struct, hstruct, by simp, hbases⟩
          · -- It was met below the struct of this step.
            have hfresh : name ∉ fqn :: state.2 := by simp [hself, hbefore]
            rcases hexplored.entered name hname hfresh with
              ⟨fault, hfault⟩ | ⟨found, hfound, henter, hsub⟩
            · exact .inl ⟨fault, by simp [hfault]⟩
            · exact .inr ⟨found, hfound, by simp [henter], hsub⟩
      · exact hexplored.grows List.mem_cons_self

theorem Explored.foldl {fuel : ℕ} {seen : List String} {state : List Visit × List String}
    (hinner : ∀ names seen, c.unseen seen < fuel →
      Explored c seen (c.walk fuel names seen) ∧ names ⊆ (c.walk fuel names seen).2)
    (hfuel : c.unseen state.2 ≤ fuel) (h : Explored c seen state) (names : List String) :
    Explored c seen (names.foldl (c.walkStep fuel) state) ∧
      names ⊆ (names.foldl (c.walkStep fuel) state).2 ∧
      state.2 ⊆ (names.foldl (c.walkStep fuel) state).2 := by
  induction names generalizing state with
  | nil => exact ⟨h, List.nil_subset _, List.Subset.refl _⟩
  | cons fqn names ih =>
    obtain ⟨hstep, hfqn, hgrows⟩ := h.step hinner hfuel fqn
    obtain ⟨hrest, hnames, hmore⟩ := ih ((unseen_mono hgrows).trans hfuel) hstep
    rw [List.foldl_cons]
    exact ⟨hrest, List.cons_subset.mpr ⟨hmore hfqn, hnames⟩, List.Subset.trans hgrows hmore⟩

theorem explored_walk (fuel : ℕ) : ∀ names seen, c.unseen seen < fuel →
    Explored c seen (c.walk fuel names seen) ∧ names ⊆ (c.walk fuel names seen).2 := by
  induction fuel with
  | zero => intro names seen h; exact absurd h (Nat.not_lt_zero _)
  | succ fuel ih =>
    intro names seen h
    have hstart : Explored c seen ([], seen) :=
      ⟨List.Subset.refl _, fun name hname hnew => absurd hname hnew⟩
    obtain ⟨hexplored, hnames, -⟩ := hstart.foldl ih (Nat.lt_succ_iff.mp h) names
    rw [walk_succ]
    exact ⟨hexplored, hnames⟩

theorem entered_of_inherits {start fqn : String} (hok : ∀ fault, .fail fault ∉ c.visits start)
    (h : Inherits c start fqn) :
    ∃ struct, c.struct fqn = .ok struct ∧ .enter fqn struct ∈ c.visits start := by
  obtain ⟨hexplored, hstart⟩ := explored_walk (c.size + 1) [start] [] unseen_nil_lt
  have hentered : ∀ name ∈ (c.walk (c.size + 1) [start] []).2, ∃ struct,
      c.struct name = .ok struct ∧ .enter name struct ∈ c.visits start ∧
        struct.interfaces ⊆ (c.walk (c.size + 1) [start] []).2 := by
    intro name hname
    rcases hexplored.entered name hname List.not_mem_nil with ⟨fault, hfault⟩ | hstruct
    · exact absurd hfault (hok fault)
    · exact hstruct
  have hmet : fqn ∈ (c.walk (c.size + 1) [start] []).2 := by
    induction h with
    | self => exact hstart List.mem_cons_self
    | base _ hstruct hbase ih =>
      obtain ⟨struct, hstruct', -, hsub⟩ := hentered _ ih
      obtain rfl := Except.ok.inj (hstruct.symm.trans hstruct')
      exact hsub hbase
  obtain ⟨struct, hstruct, henter, -⟩ := hentered fqn hmet
  exact ⟨struct, hstruct, henter⟩

def EntersInherited (c : Catalog) (start : String) (visits : List Visit) : Prop :=
  ∀ fqn struct, .enter fqn struct ∈ visits → Inherits c start fqn ∧ c.struct fqn = .ok struct

theorem EntersInherited.step {start fqn : String} {fuel : ℕ} {state : List Visit × List String}
    (hinner : ∀ names seen, (∀ name ∈ names, Inherits c start name) →
      EntersInherited c start (c.walk fuel names seen).1)
    (hfqn : Inherits c start fqn) (h : EntersInherited c start state.1) :
    EntersInherited c start (c.walkStep fuel state fqn).1 := by
  by_cases hseen : fqn ∈ state.2
  · rwa [walkStep, if_pos hseen]
  · cases hstruct : c.struct fqn with
    | error fault =>
      rw [walkStep, if_neg hseen, hstruct]
      intro name found henter
      exact h name found (by simpa using henter)
    | ok struct =>
      have hbases := hinner struct.interfaces (fqn :: state.2) fun base hbase =>
        .base hfqn hstruct hbase
      rw [walkStep_of_struct hseen hstruct rfl]
      intro name found henter
      simp only [List.mem_append, List.mem_cons, List.not_mem_nil, Visit.enter.injEq, or_false,
        reduceCtorEq] at henter
      rcases henter with hbefore | ⟨rfl, rfl⟩ | hinside
      · exact h name found hbefore
      · exact ⟨hfqn, hstruct⟩
      · exact hbases name found hinside

theorem entersInherited_walk {start : String} (fuel : ℕ) : ∀ names seen,
    (∀ name ∈ names, Inherits c start name) →
      EntersInherited c start (c.walk fuel names seen).1 := by
  induction fuel with
  | zero =>
    intro names seen _ fqn struct henter
    exact absurd henter List.not_mem_nil
  | succ fuel ih =>
    intro names seen hnames
    have hfold : ∀ state : List Visit × List String, EntersInherited c start state.1 →
        EntersInherited c start (names.foldl (c.walkStep fuel) state).1 := by
      induction names with
      | nil => exact fun state h => h
      | cons fqn names ihNames =>
        intro state h
        obtain ⟨hfqn, hrest⟩ := List.forall_mem_cons.mp hnames
        exact ihNames hrest _ (h.step ih hfqn)
    exact hfold ([], seen) fun fqn struct henter => absurd henter List.not_mem_nil

theorem inherits_of_entered {start fqn : String} {struct : InterfaceType}
    (h : .enter fqn struct ∈ c.visits start) :
    Inherits c start fqn ∧ c.struct fqn = .ok struct := by
  refine entersInherited_walk (c.size + 1) [start] [] ?_ fqn struct h
  intro name hname
  obtain rfl := List.mem_singleton.mp hname
  exact .self

theorem unknownOf_spec (known names : List String) :
    (unknownOf known names).Nodup ∧
      ∀ name, name ∈ unknownOf known names ↔ name ∈ names ∧ name ∉ known := by
  have hfold : ∀ new : List String, new.Nodup →
      (names.foldl (fun new name =>
        if name ∈ known ∨ name ∈ new then new else new ++ [name]) new).Nodup ∧
      ∀ name, name ∈ names.foldl (fun new name =>
        if name ∈ known ∨ name ∈ new then new else new ++ [name]) new ↔
          name ∈ new ∨ name ∈ names ∧ name ∉ known := by
    induction names with
    | nil => exact fun new hnew => ⟨hnew, by simp⟩
    | cons first names ih =>
      intro new hnew
      rw [List.foldl_cons]
      by_cases hold : first ∈ known ∨ first ∈ new
      · rw [if_pos hold]
        refine ⟨(ih new hnew).1, fun name => ((ih new hnew).2 name).trans ?_⟩
        grind
      · rw [if_neg hold]
        have hmore : (new ++ [first]).Nodup := by
          rw [← List.concat_eq_append, List.nodup_concat]
          exact ⟨fun hin => hold (.inr hin), hnew⟩
        refine ⟨(ih _ hmore).1, fun name => ((ih _ hmore).2 name).trans ?_⟩
        grind
  simpa [unknownOf] using hfold [] List.nodup_nil

theorem unknownOf_subset (known names : List String) : unknownOf known names ⊆ names :=
  fun name hname => (((unknownOf_spec known names).2 name).mp hname).1

theorem inherits_of_layers {start : String} {fuel : ℕ} {waiting known : List String}
    {layers : List (String × InterfaceType)} (h : c.layers fuel waiting known = .ok layers)
    (hwaiting : ∀ fqn ∈ waiting, Inherits c start fqn) :
    ∀ layer ∈ layers, Inherits c start layer.1 ∧ c.struct layer.1 = .ok layer.2 := by
  induction fuel generalizing waiting known layers with
  | zero =>
    obtain rfl := Except.ok.inj h
    simp
  | succ fuel ih =>
    cases waiting with
    | nil =>
      obtain rfl := Except.ok.inj h
      simp
    | cons fqn waiting =>
      simp only [Catalog.layers, Outcome.bind_eq_ok, Outcome.pure_eq_ok] at h
      obtain ⟨struct, hstruct, deeper, hdeeper, rfl⟩ := h
      have hfqn := hwaiting fqn List.mem_cons_self
      have hnext : ∀ name ∈ waiting ++ unknownOf known struct.interfaces,
          Inherits c start name := by
        intro name hname
        rcases List.mem_append.mp hname with hin | hin
        · exact hwaiting name (List.mem_cons_of_mem fqn hin)
        · exact .base hfqn hstruct (unknownOf_subset known _ hin)
      intro layer hlayer
      rcases List.mem_cons.mp hlayer with rfl | hin
      · exact ⟨hfqn, hstruct⟩
      · exact ih hdeeper hnext layer hin

theorem any_name_iff {fields : List Field} {name : String} :
    fields.any (·.name = name) = true ↔ name ∈ fields.map (·.name) := by
  simp

theorem mem_addNewFields {fields : List Field} {layer : String × InterfaceType} {field : Field}
    (h : field ∈ addNewFields fields layer) :
    field ∈ fields ∨ field.name ∉ fields.map (·.name) ∧
      ∃ p ∈ layer.2.properties, field = .ofProperty p layer.1 := by
  rw [addNewFields] at h
  generalize layer.2.properties = properties at h ⊢
  induction properties generalizing fields with
  | nil => exact .inl h
  | cons p properties ih =>
    rw [List.foldl_cons] at h
    split at h
    · rcases ih h with hold | ⟨hname, q, hq, heq⟩
      · exact .inl hold
      · exact .inr ⟨hname, q, List.mem_cons_of_mem p hq, heq⟩
    · rename_i hnew
      rcases ih h with hin | ⟨hname, q, hq, heq⟩
      · rcases List.mem_append.mp hin with hold | hlast
        · exact .inl hold
        · obtain rfl := List.mem_singleton.mp hlast
          exact .inr ⟨fun hname => hnew (any_name_iff.mpr hname), p, List.mem_cons_self, rfl⟩
      · refine .inr ⟨fun hold => hname ?_, q, List.mem_cons_of_mem p hq, heq⟩
        rw [List.map_append]
        exact List.mem_append_left _ hold

theorem mem_liftedFields {start : String} {fields : List Field}
    (h : c.liftedFields start = .ok fields) {field : Field} (hfield : field ∈ fields) :
    ∃ fqn struct, Inherits c start fqn ∧ c.struct fqn = .ok struct ∧
      ∃ p ∈ struct.properties, field = .ofProperty p fqn := by
  simp only [liftedFields, Outcome.bind_eq_ok, Outcome.pure_eq_ok] at h
  obtain ⟨layers, hlayers, rfl⟩ := h
  have hstart : ∀ fqn ∈ [start], Inherits c start fqn := by
    intro fqn hfqn
    obtain rfl := List.mem_singleton.mp hfqn
    exact .self
  have hdeclared : ∀ (layers : List (String × InterfaceType)) (fields : List Field),
      field ∈ layers.foldl addNewFields fields → field ∈ fields ∨
        ∃ layer ∈ layers, ∃ p ∈ layer.2.properties, field = .ofProperty p layer.1 := by
    intro layers
    induction layers with
    | nil => exact fun fields hin => .inl hin
    | cons layer layers ih =>
      intro fields hin
      rcases ih _ hin with hnew | ⟨later, hlater, hp⟩
      · rcases mem_addNewFields hnew with hold | ⟨-, hp⟩
        · exact .inl hold
        · exact .inr ⟨layer, List.mem_cons_self, hp⟩
      · exact .inr ⟨later, List.mem_cons_of_mem layer hlater, hp⟩
  rcases hdeclared layers [] hfield with hnone | ⟨layer, hlayer, hp⟩
  · exact absurd hnone List.not_mem_nil
  · obtain ⟨hinherits, hstruct⟩ := inherits_of_layers hlayers hstart layer hlayer
    exact ⟨layer.1, layer.2, hinherits, hstruct, hp⟩

end Bindery.Catalog
