import Bindery.Proofs.BaseWalks

/-!
# Runs of the walks through bases

The two walks stop at the number of types, so they are functions whatever the bases are. A run of a
walk is the same walk without that bound: it is a finite derivation, and there is at most one from
every start. Both walks have a run from every start, with the result that they compute, so the bound
never cuts them short, not even where structs inherit from themselves.

A run that does not fail meets exactly the structs that the first one inherits from, and one that
fails has met a base that is missing or no struct.
-/

namespace Bindery.Catalog

open Api

variable {c : Catalog}

/-- A run from the names in turn: from what was seen before it to what was seen behind it. -/
inductive DepthFirst (c : Catalog) : List String → List String → List Visit → List String → Prop
  | done {seen : List String} : DepthFirst c [] seen [] seen
  | again {fqn : String} {names seen last : List String} {visits : List Visit}
      (hseen : fqn ∈ seen) (h : DepthFirst c names seen visits last) :
      DepthFirst c (fqn :: names) seen visits last
  | missing {fqn : String} {names seen last : List String} {visits : List Visit} {fault : Fault}
      (hnew : fqn ∉ seen) (hstruct : c.struct fqn = .error fault)
      (h : DepthFirst c names (fqn :: seen) visits last) :
      DepthFirst c (fqn :: names) seen (.fail fault :: visits) last
  | struct {fqn : String} {names seen middle last : List String} {inner visits : List Visit}
      {struct : InterfaceType} (hnew : fqn ∉ seen) (hstruct : c.struct fqn = .ok struct)
      (hinner : DepthFirst c struct.interfaces (fqn :: seen) inner middle)
      (h : DepthFirst c names middle visits last) :
      DepthFirst c (fqn :: names) seen
        (.enter fqn struct :: inner ++ .leave fqn struct :: visits) last

theorem DepthFirst.unique {names seen last last' : List String} {visits visits' : List Visit}
    (h : DepthFirst c names seen visits last) (h' : DepthFirst c names seen visits' last') :
    visits = visits' ∧ last = last' := by
  induction h generalizing visits' last' with
  | done =>
    cases h'
    exact ⟨rfl, rfl⟩
  | again hseen _ ih =>
    cases h' with
    | again _ h' => exact ih h'
    | missing hnew => exact absurd hseen hnew
    | struct hnew => exact absurd hseen hnew
  | missing hnew hstruct _ ih =>
    cases h' with
    | again hseen => exact absurd hseen hnew
    | missing _ hstruct' h' =>
      obtain rfl := Except.error.inj (hstruct.symm.trans hstruct')
      obtain ⟨rfl, rfl⟩ := ih h'
      exact ⟨rfl, rfl⟩
    | struct _ hstruct' => cases hstruct.symm.trans hstruct'
  | struct hnew hstruct _ _ ihInner ih =>
    cases h' with
    | again hseen => exact absurd hseen hnew
    | missing _ hstruct' => cases hstruct.symm.trans hstruct'
    | struct _ hstruct' hinner' h' =>
      obtain rfl := Except.ok.inj (hstruct.symm.trans hstruct')
      obtain ⟨rfl, rfl⟩ := ihInner hinner'
      obtain ⟨rfl, rfl⟩ := ih h'
      exact ⟨rfl, rfl⟩

theorem DepthFirst.grows {names seen last : List String} {visits : List Visit}
    (h : DepthFirst c names seen visits last) : seen ⊆ last := by
  induction h with
  | done => exact List.Subset.refl _
  | again _ _ ih => exact ih
  | missing _ _ _ ih => exact List.Subset.trans (List.subset_cons_self _ _) ih
  | struct _ _ _ _ ihInner ih =>
    exact List.Subset.trans (List.subset_cons_self _ _) (List.Subset.trans ihInner ih)

theorem depthFirst_foldl {fuel : ℕ}
    (hinner : ∀ names seen, c.unseen seen < fuel →
      DepthFirst c names seen (c.walk fuel names seen).1 (c.walk fuel names seen).2)
    (names : List String) (state : List Visit × List String) (hfuel : c.unseen state.2 ≤ fuel) :
    ∃ visits last, names.foldl (c.walkStep fuel) state = (state.1 ++ visits, last) ∧
      DepthFirst c names state.2 visits last := by
  induction names generalizing state with
  | nil => exact ⟨[], state.2, by simp, .done⟩
  | cons fqn names ih =>
    rw [List.foldl_cons]
    by_cases hseen : fqn ∈ state.2
    · obtain ⟨visits, last, hfold, hrun⟩ := ih state hfuel
      rw [walkStep, if_pos hseen]
      exact ⟨visits, last, hfold, .again hseen hrun⟩
    · cases hstruct : c.struct fqn with
      | error fault =>
        have hstep : c.walkStep fuel state fqn = (state.1 ++ [.fail fault], fqn :: state.2) := by
          rw [walkStep, if_neg hseen, hstruct]
        have hless : c.unseen (fqn :: state.2) ≤ fuel :=
          (unseen_mono (List.subset_cons_self _ _)).trans hfuel
        obtain ⟨visits, last, hfold, hrun⟩ :=
          ih (state.1 ++ [.fail fault], fqn :: state.2) hless
        rw [hstep, hfold]
        exact ⟨.fail fault :: visits, last, by simp, .missing hseen hstruct hrun⟩
      | ok struct =>
        have hless : c.unseen (fqn :: state.2) < fuel :=
          (unseen_cons_lt (mem_keys_of_struct hstruct) hseen).trans_le hfuel
        have hbases := hinner struct.interfaces (fqn :: state.2) hless
        rw [walkStep_of_struct hseen hstruct rfl]
        generalize c.walk fuel struct.interfaces (fqn :: state.2) = inner at hbases ⊢
        obtain ⟨visits, last, hfold, hrun⟩ := ih
          (state.1 ++ .enter fqn struct :: inner.1 ++ [.leave fqn struct], inner.2)
          ((unseen_mono hbases.grows).trans hless.le)
        rw [hfold]
        exact ⟨_, last, by simp, .struct hseen hstruct hbases hrun⟩

theorem depthFirst_walk (fuel : ℕ) : ∀ names seen, c.unseen seen < fuel →
    DepthFirst c names seen (c.walk fuel names seen).1 (c.walk fuel names seen).2 := by
  induction fuel with
  | zero => exact fun _ _ h => absurd h (Nat.not_lt_zero _)
  | succ fuel ih =>
    intro names seen h
    obtain ⟨visits, last, hfold, hrun⟩ :=
      depthFirst_foldl ih names ([], seen) (Nat.lt_succ_iff.mp h)
    rw [walk_succ, hfold]
    exact hrun

theorem depthFirst_iff {start : String} {visits : List Visit} {last : List String} :
    DepthFirst c [start] [] visits last ↔ c.walk (c.size + 1) [start] [] = (visits, last) := by
  have hrun := depthFirst_walk (c.size + 1) [start] [] (unseen_nil_lt (c := c))
  constructor
  · intro h
    obtain ⟨hvisits, hlast⟩ := hrun.unique h
    exact Prod.ext hvisits hlast
  · intro h
    rwa [h] at hrun

theorem depthFirst_visits (c : Catalog) (start : String) :
    ∃ last, DepthFirst c [start] [] (c.visits start) last :=
  ⟨_, depthFirst_iff.mpr rfl⟩

theorem mem_left {visits : List Visit} {fqn : String} {struct : InterfaceType} :
    (fqn, struct) ∈ left visits ↔ .leave fqn struct ∈ visits := by
  rw [left, List.mem_filterMap]
  constructor
  · rintro ⟨visit, hvisit, hleft⟩
    cases visit with
    | enter _ _ => cases hleft
    | leave _ _ =>
      obtain ⟨rfl, rfl⟩ := Prod.mk.inj (Option.some.inj hleft)
      exact hvisit
    | fail _ => cases hleft
  · exact fun h => ⟨_, h, rfl⟩

theorem DepthFirst.mem_left_iff {names seen last : List String} {visits : List Visit}
    (h : DepthFirst c names seen visits last) {fqn : String} {struct : InterfaceType} :
    (fqn, struct) ∈ left visits ↔ .enter fqn struct ∈ visits := by
  rw [mem_left]
  induction h with
  | done => simp
  | again _ _ ih => exact ih
  | missing _ _ _ ih => simpa using ih
  | struct _ _ _ _ ihInner ih =>
    simp only [List.cons_append, List.mem_cons, List.mem_append, ihInner, ih, Visit.enter.injEq,
      Visit.leave.injEq, reduceCtorEq, false_or]
    tauto

theorem DepthFirst.exists_missing {start : String} {names seen last : List String}
    {visits : List Visit} (h : DepthFirst c names seen visits last)
    (hnames : ∀ name ∈ names, Inherits c start name) {fault : Fault}
    (hfault : .fail fault ∈ visits) :
    ∃ fqn, Inherits c start fqn ∧ c.struct fqn = .error fault := by
  induction h with
  | done => exact absurd hfault List.not_mem_nil
  | again _ _ ih => exact ih (List.forall_mem_cons.mp hnames).2 hfault
  | missing _ hstruct _ ih =>
    obtain ⟨hfqn, hnames⟩ := List.forall_mem_cons.mp hnames
    rcases List.mem_cons.mp hfault with hfirst | hrest
    · obtain rfl := Visit.fail.inj hfirst
      exact ⟨_, hfqn, hstruct⟩
    · exact ih hnames hrest
  | struct _ hstruct _ _ ihInner ih =>
    obtain ⟨hfqn, hnames⟩ := List.forall_mem_cons.mp hnames
    simp only [List.cons_append, List.mem_cons, List.mem_append, reduceCtorEq, false_or] at hfault
    rcases hfault with hinside | hrest
    · exact ihInner (fun base hbase => .base hfqn hstruct hbase) hinside
    · exact ih hnames hrest

/-- A run that takes the first waiting struct and lets its unknown bases wait. -/
inductive BreadthFirst (c : Catalog) :
    List String → List String → Outcome (List (String × InterfaceType)) → Prop
  | done {known : List String} : BreadthFirst c [] known (.ok [])
  | missing {fqn : String} {waiting known : List String} {fault : Fault}
      (hstruct : c.struct fqn = .error fault) :
      BreadthFirst c (fqn :: waiting) known (.error fault)
  | struct {fqn : String} {waiting known new : List String} {struct : InterfaceType}
      {deeper : Outcome (List (String × InterfaceType))} (hstruct : c.struct fqn = .ok struct)
      (hnew : unknownOf known struct.interfaces = new)
      (h : BreadthFirst c (waiting ++ new) (known ++ new) deeper) :
      BreadthFirst c (fqn :: waiting) known (deeper.map ((fqn, struct) :: ·))

theorem BreadthFirst.unique {waiting known : List String}
    {layers layers' : Outcome (List (String × InterfaceType))}
    (h : BreadthFirst c waiting known layers) (h' : BreadthFirst c waiting known layers') :
    layers = layers' := by
  induction h generalizing layers' with
  | done =>
    cases h'
    rfl
  | missing hstruct =>
    cases h' with
    | missing hstruct' => rw [Except.error.inj (hstruct.symm.trans hstruct')]
    | struct hstruct' => cases hstruct.symm.trans hstruct'
  | struct hstruct hnew _ ih =>
    cases h' with
    | missing hstruct' => cases hstruct.symm.trans hstruct'
    | struct hstruct' hnew' h' =>
      obtain rfl := Except.ok.inj (hstruct.symm.trans hstruct')
      obtain rfl := hnew.symm.trans hnew'
      rw [ih h']

theorem breadthFirst_layers {fuel : ℕ} (popped waiting : List String)
    (hfuel : c.unseen popped < fuel) (hdistinct : (popped ++ waiting).Nodup) :
    BreadthFirst c waiting (popped ++ waiting) (c.layers fuel waiting (popped ++ waiting)) := by
  induction fuel generalizing popped waiting with
  | zero => exact absurd hfuel (Nat.not_lt_zero _)
  | succ fuel ih =>
    cases waiting with
    | nil => exact .done
    | cons fqn waiting =>
      cases hstruct : c.struct fqn with
      | error fault =>
        have hlayers : c.layers (fuel + 1) (fqn :: waiting) (popped ++ fqn :: waiting) =
            .error fault := by
          rw [Catalog.layers, hstruct]
          rfl
        rw [hlayers]
        exact .missing hstruct
      | ok struct =>
        obtain ⟨hnodup, hmem⟩ := unknownOf_spec (popped ++ fqn :: waiting) struct.interfaces
        generalize hunknown : unknownOf (popped ++ fqn :: waiting) struct.interfaces = new
          at hnodup hmem
        have hknown : popped ++ fqn :: waiting ++ new = popped ++ [fqn] ++ (waiting ++ new) := by
          simp
        have hlayers : c.layers (fuel + 1) (fqn :: waiting) (popped ++ fqn :: waiting) =
            (c.layers fuel (waiting ++ new) (popped ++ [fqn] ++ (waiting ++ new))).map
              ((fqn, struct) :: ·) := by
          rw [Catalog.layers, hstruct, ← hknown, ← hunknown]
          rfl
        have hfqn : fqn ∉ popped := by
          intro hpopped
          exact (List.nodup_append.mp hdistinct).2.2 fqn hpopped fqn List.mem_cons_self rfl
        -- A struct waits once at most, so fewer types are left when it is popped.
        have hless : c.unseen (popped ++ [fqn]) < fuel := by
          have hmono : c.unseen (popped ++ [fqn]) ≤ c.unseen (fqn :: popped) :=
            unseen_mono (by simp)
          have hcons := unseen_cons_lt (mem_keys_of_struct hstruct) hfqn
          omega
        rw [hlayers]
        refine .struct hstruct hunknown ?_
        rw [hknown]
        refine ih (popped ++ [fqn]) (waiting ++ new) hless ?_
        rw [← hknown]
        refine List.nodup_append.mpr ⟨hdistinct, hnodup, ?_⟩
        rintro name hin _ hnew rfl
        exact ((hmem name).mp hnew).2 hin

theorem breadthFirst_iff {start : String} {layers : Outcome (List (String × InterfaceType))} :
    BreadthFirst c [start] [start] layers ↔ c.layers (c.size + 1) [start] [start] = layers := by
  have hrun := breadthFirst_layers (c := c) [] [start] unseen_nil_lt (List.nodup_singleton start)
  rw [List.nil_append] at hrun
  constructor
  · exact fun h => hrun.unique h
  · rintro rfl
    exact hrun

theorem BreadthFirst.exists_missing {start : String} {waiting known : List String}
    {layers : Outcome (List (String × InterfaceType))} (h : BreadthFirst c waiting known layers)
    (hwaiting : ∀ name ∈ waiting, Inherits c start name) {fault : Fault}
    (hfault : layers = .error fault) :
    ∃ fqn, Inherits c start fqn ∧ c.struct fqn = .error fault := by
  induction h with
  | done => cases hfault
  | missing hstruct =>
    obtain rfl := Except.error.inj hfault
    exact ⟨_, hwaiting _ List.mem_cons_self, hstruct⟩
  | struct hstruct hnew _ ih =>
    obtain ⟨hfqn, hwaiting⟩ := List.forall_mem_cons.mp hwaiting
    refine ih (fun name hname => ?_) (Outcome.map_eq_error_iff.mp hfault)
    rcases List.mem_append.mp hname with hbefore | hin
    · exact hwaiting name hbefore
    · exact .base hfqn hstruct (unknownOf_subset _ _ (hnew ▸ hin))

theorem BreadthFirst.closed {waiting known : List String}
    {layers : Outcome (List (String × InterfaceType))} (h : BreadthFirst c waiting known layers)
    {taken : List (String × InterfaceType)} (hok : layers = .ok taken) :
    waiting ⊆ taken.map Prod.fst ∧ ∀ layer ∈ taken, c.struct layer.1 = .ok layer.2 ∧
      layer.2.interfaces ⊆ known ++ taken.map Prod.fst := by
  induction h generalizing taken with
  | done =>
    obtain rfl := Except.ok.inj hok
    simp
  | missing => cases hok
  | @struct fqn waiting known new struct deeper hstruct hnew _ ih =>
    cases deeper with
    | error fault => cases hok
    | ok deeper =>
      obtain rfl : (fqn, struct) :: deeper = taken := Except.ok.inj hok
      obtain ⟨hwaiting, hclosed⟩ := ih rfl
      obtain ⟨hbefore, hin⟩ := List.append_subset.mp hwaiting
      have hmem := (unknownOf_spec known struct.interfaces).2
      rw [hnew] at hmem
      refine ⟨List.cons_subset.mpr ⟨by simp, fun name hname => ?_⟩, fun layer hlayer => ?_⟩
      · exact List.mem_cons_of_mem _ (hbefore hname)
      · rcases List.mem_cons.mp hlayer with rfl | hdeeper
        · refine ⟨hstruct, fun base hbase => ?_⟩
          by_cases hknown : base ∈ known
          · exact List.mem_append_left _ hknown
          · exact List.mem_append_right _
              (List.mem_cons_of_mem _ (hin ((hmem base).mpr ⟨hbase, hknown⟩)))
        · obtain ⟨hfound, hbases⟩ := hclosed layer hdeeper
          refine ⟨hfound, fun base hbase => ?_⟩
          rcases List.mem_append.mp (hbases hbase) with hknown | htaken
          · rcases List.mem_append.mp hknown with hold | hfresh
            · exact List.mem_append_left _ hold
            · exact List.mem_append_right _ (List.mem_cons_of_mem _ (hin hfresh))
          · exact List.mem_append_right _ (List.mem_cons_of_mem _ htaken)

theorem isStruct_iff {fqn : String} :
    c.isStruct fqn = true ↔ ∃ struct, c.struct fqn = .ok struct := by
  rw [isStruct, struct, entry]
  cases c.entry? fqn with
  | none => simp [Outcome.error_bind]
  | some entry =>
    rw [Outcome.ok_bind]
    cases hstruct : entry.struct? with
    | none => simp [TypeEntry.isStruct, hstruct]
    | some struct => simp [TypeEntry.isStruct, hstruct]

theorem inherits_of_mem_singleton {start : String} : ∀ name ∈ [start], Inherits c start name := by
  intro name hname
  exact List.mem_singleton.mp hname ▸ .self

/-- Everything that the first struct inherits from is a struct, and so is the first. -/
def AllStructs (c : Catalog) (start : String) : Prop :=
  ∀ fqn, Inherits c start fqn → c.isStruct fqn = true

theorem visits_ok_iff {start : String} :
    (∀ fault, .fail fault ∉ c.visits start) ↔ AllStructs c start := by
  constructor
  · intro hok fqn hfqn
    obtain ⟨struct, hstruct, -⟩ := entered_of_inherits hok hfqn
    exact isStruct_iff.mpr ⟨struct, hstruct⟩
  · intro hall fault hfault
    obtain ⟨last, hrun⟩ := depthFirst_visits c start
    obtain ⟨fqn, hfqn, herror⟩ := hrun.exists_missing inherits_of_mem_singleton hfault
    obtain ⟨struct, hstruct⟩ := isStruct_iff.mp (hall fqn hfqn)
    cases hstruct.symm.trans herror

theorem mem_left_visits {start fqn : String} {struct : InterfaceType}
    (hok : ∀ fault, .fail fault ∉ c.visits start) :
    (fqn, struct) ∈ left (c.visits start) ↔ Inherits c start fqn ∧ c.struct fqn = .ok struct := by
  obtain ⟨last, hrun⟩ := depthFirst_visits c start
  rw [hrun.mem_left_iff]
  constructor
  · exact inherits_of_entered
  · rintro ⟨hfqn, hstruct⟩
    obtain ⟨found, hfound, henter⟩ := entered_of_inherits hok hfqn
    obtain rfl := Except.ok.inj (hstruct.symm.trans hfound)
    exact henter

theorem layers_ok_iff {start : String} :
    (∃ layers, c.layers (c.size + 1) [start] [start] = .ok layers) ↔ AllStructs c start := by
  have hrun := breadthFirst_iff.mpr (rfl : c.layers (c.size + 1) [start] [start] = _)
  constructor
  · rintro ⟨layers, hlayers⟩ fqn hfqn
    obtain ⟨hwaiting, hclosed⟩ := hrun.closed hlayers
    have hstart : start ∈ layers.map Prod.fst := hwaiting List.mem_cons_self
    have htaken : fqn ∈ layers.map Prod.fst := by
      induction hfqn with
      | self => exact hstart
      | base _ hstruct hbase ih =>
        obtain ⟨layer, hlayer, rfl⟩ := List.mem_map.mp ih
        obtain ⟨hfound, hbases⟩ := hclosed layer hlayer
        obtain rfl := Except.ok.inj (hstruct.symm.trans hfound)
        rcases List.mem_append.mp (hbases hbase) with hknown | hin
        · exact List.mem_singleton.mp hknown ▸ hstart
        · exact hin
    obtain ⟨layer, hlayer, rfl⟩ := List.mem_map.mp htaken
    exact isStruct_iff.mpr ⟨layer.2, (hclosed layer hlayer).1⟩
  · intro hall
    cases hlayers : c.layers (c.size + 1) [start] [start] with
    | ok layers => exact ⟨layers, rfl⟩
    | error fault =>
      obtain ⟨fqn, hfqn, herror⟩ := hrun.exists_missing inherits_of_mem_singleton hlayers
      obtain ⟨struct, hstruct⟩ := isStruct_iff.mp (hall fqn hfqn)
      cases hstruct.symm.trans herror

end Bindery.Catalog
