import Bindery.Proofs.Inheritance
import Mathlib.Data.List.Induction

/-!
# Order of the walks through bases

A walk that goes depth first leaves a struct after all of its bases, as long as no struct inherits
from itself. A walk that goes breadth first takes structs in the order of their distance: those
that wait are as far away as the first of them or one step farther.
-/

namespace Bindery.Catalog

open Api

variable {c : Catalog}

theorem Inherits.of_base {start base fqn : String} {struct : InterfaceType}
    (hstruct : c.struct start = .ok struct) (hbase : base ∈ struct.interfaces)
    (h : Inherits c base fqn) : Inherits c start fqn := by
  induction h with
  | self => exact .base .self hstruct hbase
  | base _ hfound hin ih => exact .base ih hfound hin

/-- No struct of the hierarchy is among what its bases inherit from. -/
def Acyclic (c : Catalog) (start : String) : Prop :=
  ∀ fqn struct, Inherits c start fqn → c.struct fqn = .ok struct →
    ∀ base ∈ struct.interfaces, ¬ Inherits c base fqn

def isRanked (c : Catalog) (order : List String) : Bool :=
  c.keys.all fun fqn => (c.struct fqn).toOption.all fun struct =>
    struct.interfaces.all fun base => order.idxOf base < order.idxOf fqn

theorem acyclic_of_isRanked {order : List String} (h : c.isRanked order = true) (start : String) :
    Acyclic c start := by
  have hstep : ∀ fqn struct, c.struct fqn = .ok struct → ∀ base ∈ struct.interfaces,
      order.idxOf base < order.idxOf fqn := by
    intro fqn struct hstruct base hbase
    have hall := List.all_eq_true.mp h fqn (mem_keys_of_struct hstruct)
    rw [hstruct] at hall
    exact of_decide_eq_true (List.all_eq_true.mp hall base hbase)
  have hinherits : ∀ fqn base, Inherits c fqn base → order.idxOf base ≤ order.idxOf fqn := by
    intro fqn base hbase
    induction hbase with
    | self => exact Nat.le_refl _
    | base _ hstruct hin ih => exact (hstep _ _ hstruct _ hin).le.trans ih
  intro fqn struct _ hstruct base hbase hback
  have hless := hstep fqn struct hstruct base hbase
  have hle := hinherits base fqn hback
  omega

def Visit.left? : Visit → Option (String × InterfaceType)
  | .enter _ _ => none
  | .leave fqn struct => some (fqn, struct)
  | .fail _ => none

def left (visits : List Visit) : List (String × InterfaceType) := visits.filterMap Visit.left?

theorem left_append (visits more : List Visit) : left (visits ++ more) = left visits ++ left more :=
  List.filterMap_append

theorem left_around (fqn : String) (struct : InterfaceType) (inner : List Visit) :
    left (.enter fqn struct :: inner ++ [.leave fqn struct]) = left inner ++ [(fqn, struct)] := by
  rw [List.cons_append, left, List.filterMap_cons_none rfl, List.filterMap_append]
  rfl

theorem mem_names_snoc {placed : List (String × InterfaceType)} {fqn name : String}
    {struct : InterfaceType} :
    name ∈ (placed ++ [(fqn, struct)]).map Prod.fst ↔ name ∈ placed.map Prod.fst ∨ name = fqn := by
  simp

inductive BasesFirst (c : Catalog) : List (String × InterfaceType) → Prop
  | nil : BasesFirst c []
  | snoc {placed : List (String × InterfaceType)} {fqn : String} {struct : InterfaceType}
      (h : BasesFirst c placed) (hnew : fqn ∉ placed.map Prod.fst)
      (hstruct : c.struct fqn = .ok struct)
      (hbases : struct.interfaces ⊆ placed.map Prod.fst) :
      BasesFirst c (placed ++ [(fqn, struct)])

theorem BasesFirst.bases_subset {placed : List (String × InterfaceType)} (h : BasesFirst c placed)
    {fqn : String} (hfqn : fqn ∈ placed.map Prod.fst) {struct : InterfaceType}
    (hstruct : c.struct fqn = .ok struct) : struct.interfaces ⊆ placed.map Prod.fst := by
  induction h with
  | nil => exact absurd hfqn List.not_mem_nil
  | @snoc placed last found _ _ hfound hbases ih =>
    rw [List.map_append]
    refine List.Subset.trans ?_ (List.subset_append_left _ _)
    rcases mem_names_snoc.mp hfqn with hbefore | rfl
    · exact ih hbefore
    · obtain rfl := Except.ok.inj (hstruct.symm.trans hfound)
      exact hbases

theorem BasesFirst.mem_of_inherits {placed : List (String × InterfaceType)}
    (h : BasesFirst c placed) {start fqn : String} (hstart : start ∈ placed.map Prod.fst)
    (hfqn : Inherits c start fqn) : fqn ∈ placed.map Prod.fst := by
  induction hfqn with
  | self => exact hstart
  | base _ hstruct hbase ih => exact h.bases_subset ih hstruct hbase

/-- How far a depth-first walk has come: it has entered the structs of the stack and has left
those that are placed. -/
structure Unwound (c : Catalog) (start : String) (stack : List String)
    (placed : List (String × InterfaceType)) (seen : List String) : Prop where
  basesFirst : BasesFirst c placed
  inherits : ∀ fqn ∈ placed.map Prod.fst, Inherits c start fqn
  mem_seen : ∀ fqn, fqn ∈ seen ↔ fqn ∈ stack ∨ fqn ∈ placed.map Prod.fst
  apart : ∀ fqn ∈ stack, fqn ∉ placed.map Prod.fst

theorem Unwound.enter {start fqn : String} {stack seen : List String}
    {placed : List (String × InterfaceType)} (h : Unwound c start stack placed seen)
    (hnew : fqn ∉ seen) : Unwound c start (fqn :: stack) placed (fqn :: seen) := by
  refine ⟨h.basesFirst, h.inherits, fun name => ?_, fun name hname => ?_⟩
  · rw [List.mem_cons, List.mem_cons, h.mem_seen, or_assoc]
  · rcases List.mem_cons.mp hname with rfl | hstack
    · exact fun hplaced => hnew ((h.mem_seen name).mpr (.inr hplaced))
    · exact h.apart name hstack

theorem Unwound.leave {start fqn : String} {stack seen : List String}
    {placed : List (String × InterfaceType)} (h : Unwound c start (fqn :: stack) placed seen)
    (hnew : fqn ∉ stack) (hfqn : Inherits c start fqn) {struct : InterfaceType}
    (hstruct : c.struct fqn = .ok struct) (hbases : struct.interfaces ⊆ placed.map Prod.fst) :
    Unwound c start stack (placed ++ [(fqn, struct)]) seen := by
  have hlater := h.apart fqn List.mem_cons_self
  refine ⟨.snoc h.basesFirst hlater hstruct hbases, fun name hname => ?_, fun name => ?_,
    fun name hname => ?_⟩
  · rcases mem_names_snoc.mp hname with hbefore | rfl
    · exact h.inherits name hbefore
    · exact hfqn
  · rw [h.mem_seen, List.mem_cons, mem_names_snoc]
    tauto
  · rw [mem_names_snoc, not_or]
    refine ⟨h.apart name (List.mem_cons_of_mem fqn hname), ?_⟩
    rintro rfl
    exact hnew hname

def Unwinds (c : Catalog) (start : String) (fuel : ℕ) : Prop :=
  ∀ names seen stack placed, c.unseen seen < fuel → Unwound c start stack placed seen →
    (∀ name ∈ names, Inherits c start name ∧ ∀ fqn ∈ stack, ¬ Inherits c name fqn) →
    (∀ fault, .fail fault ∉ (c.walk fuel names seen).1) →
    Unwound c start stack (placed ++ left (c.walk fuel names seen).1) (c.walk fuel names seen).2 ∧
      names ⊆ (placed ++ left (c.walk fuel names seen).1).map Prod.fst

theorem exists_walkStep_append (fuel : ℕ) (state : List Visit × List String) (fqn : String) :
    ∃ more, (c.walkStep fuel state fqn).1 = state.1 ++ more := by
  rw [walkStep]
  split
  · exact ⟨[], (List.append_nil _).symm⟩
  · split
    · exact ⟨_, rfl⟩
    · exact ⟨_, List.append_assoc _ _ _⟩

theorem Unwound.step {start fqn : String} {fuel : ℕ} (hinner : Unwinds c start fuel)
    (hacyclic : Acyclic c start) {stack : List String} {placed : List (String × InterfaceType)}
    {state : List Visit × List String} (hfuel : c.unseen state.2 ≤ fuel)
    (h : Unwound c start stack (placed ++ left state.1) state.2) (hfqn : Inherits c start fqn)
    (hclear : ∀ name ∈ stack, ¬ Inherits c fqn name)
    (hok : ∀ fault, .fail fault ∉ (c.walkStep fuel state fqn).1) :
    Unwound c start stack (placed ++ left (c.walkStep fuel state fqn).1)
        (c.walkStep fuel state fqn).2 ∧
      fqn ∈ (placed ++ left (c.walkStep fuel state fqn).1).map Prod.fst := by
  by_cases hseen : fqn ∈ state.2
  · -- A struct on the stack would inherit from itself, so this one was left before.
    rw [walkStep, if_pos hseen]
    exact ⟨h, ((h.mem_seen fqn).mp hseen).resolve_left fun hstack => hclear fqn hstack .self⟩
  · cases hstruct : c.struct fqn with
    | error fault =>
      refine absurd ?_ (hok fault)
      rw [walkStep, if_neg hseen, hstruct]
      exact List.mem_append_right _ List.mem_cons_self
    | ok struct =>
      have hless : c.unseen (fqn :: state.2) < fuel :=
        (unseen_cons_lt (mem_keys_of_struct hstruct) hseen).trans_le hfuel
      have hbelow : ∀ base ∈ struct.interfaces, Inherits c start base ∧
          ∀ name ∈ fqn :: stack, ¬ Inherits c base name := by
        intro base hbase
        refine ⟨.base hfqn hstruct hbase, fun name hname hinherits => ?_⟩
        rcases List.mem_cons.mp hname with rfl | hstack
        · exact hacyclic name struct hfqn hstruct base hbase hinherits
        · exact hclear name hstack (hinherits.of_base hstruct hbase)
      have hnew : fqn ∉ stack := fun hstack => hclear fqn hstack .self
      have hinside := hinner struct.interfaces (fqn :: state.2) (fqn :: stack) _ hless
        (h.enter hseen) hbelow
      rw [walkStep_of_struct hseen hstruct rfl] at hok ⊢
      generalize c.walk fuel struct.interfaces (fqn :: state.2) = inner at hinside hok ⊢
      obtain ⟨hunwound, hbases⟩ := hinside fun fault hfault => hok fault (by simp [hfault])
      have hplaced : placed ++ left (state.1 ++ .enter fqn struct :: inner.1 ++
          [.leave fqn struct]) = placed ++ left state.1 ++ left inner.1 ++ [(fqn, struct)] := by
        rw [List.append_assoc state.1, left_append, left_around]
        simp only [List.append_assoc]
      rw [hplaced]
      exact ⟨hunwound.leave hnew hfqn hstruct hbases, by simp⟩

theorem Unwound.foldl {start : String} {fuel : ℕ} (hinner : Unwinds c start fuel)
    (hacyclic : Acyclic c start) {stack seen : List String}
    {placed : List (String × InterfaceType)} (hfuel : c.unseen seen ≤ fuel)
    (h : Unwound c start stack placed seen) (names : List String)
    (hnames : ∀ name ∈ names, Inherits c start name ∧ ∀ fqn ∈ stack, ¬ Inherits c name fqn)
    (hok : ∀ fault, .fail fault ∉ (names.foldl (c.walkStep fuel) ([], seen)).1) :
    Unwound c start stack (placed ++ left (names.foldl (c.walkStep fuel) ([], seen)).1)
        (names.foldl (c.walkStep fuel) ([], seen)).2 ∧
      names ⊆ (placed ++ left (names.foldl (c.walkStep fuel) ([], seen)).1).map Prod.fst := by
  -- From the last name backwards, since only the visits before a step are known not to fail.
  induction names using List.reverseRecOn with
  | nil =>
    rw [List.foldl_nil, left, List.filterMap_nil, List.append_nil]
    exact ⟨h, List.nil_subset _⟩
  | append_singleton names fqn ih =>
    rw [List.foldl_append, List.foldl_cons, List.foldl_nil] at hok ⊢
    generalize names.foldl (c.walkStep fuel) ([], seen) = state at ih hok ⊢
    obtain ⟨more, hmore⟩ := exists_walkStep_append (c := c) fuel state fqn
    obtain ⟨hbefore, hplaced⟩ := ih (fun name hname => hnames name (List.mem_append_left _ hname))
      fun fault hfault => hok fault (by rw [hmore]; exact List.mem_append_left _ hfault)
    have hgrows : seen ⊆ state.2 := by
      intro name hname
      rw [hbefore.mem_seen, List.map_append, List.mem_append]
      rcases (h.mem_seen name).mp hname with hstack | hin
      · exact .inl hstack
      · exact .inr (.inl hin)
    obtain ⟨hfqn, hclear⟩ := hnames fqn (List.mem_append_right _ List.mem_cons_self)
    obtain ⟨hstep, hlast⟩ := hbefore.step hinner hacyclic ((unseen_mono hgrows).trans hfuel) hfqn
      hclear hok
    refine ⟨hstep, List.append_subset.mpr ⟨?_, by simpa using hlast⟩⟩
    rw [hmore, left_append, ← List.append_assoc, List.map_append]
    exact List.Subset.trans hplaced (List.subset_append_left _ _)

theorem unwinds_walk {start : String} (hacyclic : Acyclic c start) (fuel : ℕ) :
    Unwinds c start fuel := by
  induction fuel with
  | zero => exact fun _ _ _ _ h => absurd h (Nat.not_lt_zero _)
  | succ fuel ih =>
    intro names seen stack placed hfuel h hnames hok
    rw [walk_succ] at hok ⊢
    exact h.foldl ih hacyclic (Nat.lt_succ_iff.mp hfuel) names hnames hok

theorem basesFirst_visits {start : String} (hacyclic : Acyclic c start)
    (hok : ∀ fault, .fail fault ∉ c.visits start) :
    BasesFirst c (left (c.visits start)) ∧
      ∀ fqn, fqn ∈ (left (c.visits start)).map Prod.fst ↔ Inherits c start fqn := by
  have hempty : Unwound c start [] [] [] := ⟨.nil, by simp, by simp, by simp⟩
  obtain ⟨h, hstart⟩ := unwinds_walk hacyclic (c.size + 1) [start] [] [] [] unseen_nil_lt hempty
    (fun name hname => ⟨List.mem_singleton.mp hname ▸ .self, by simp⟩) hok
  rw [List.nil_append] at h hstart
  exact ⟨h.basesFirst, fun fqn =>
    ⟨h.inherits fqn, h.basesFirst.mem_of_inherits (hstart List.mem_cons_self)⟩⟩

/-- The number of steps from a struct to one that it inherits from, on some way. -/
inductive Reaches (c : Catalog) (start : String) : ℕ → String → Prop
  | self : Reaches c start 0 start
  | base {depth : ℕ} {fqn base : String} {struct : InterfaceType} (h : Reaches c start depth fqn)
      (hstruct : c.struct fqn = .ok struct) (hbase : base ∈ struct.interfaces) :
      Reaches c start (depth + 1) base

theorem Reaches.inherits {start fqn : String} {depth : ℕ} (h : Reaches c start depth fqn) :
    Inherits c start fqn := by
  induction h with
  | self => exact .self
  | base _ hstruct hbase ih => exact .base ih hstruct hbase

/-- How far a breadth-first walk has come: it has popped some structs, and those that wait are
reached in `depth` steps or one more. -/
structure Frontier (c : Catalog) (start : String) (depth : ℕ) (popped near far : List String) :
    Prop where
  distinct : (popped ++ (near ++ far)).Nodup
  near_reached : ∀ fqn ∈ near, Reaches c start depth fqn
  far_reached : ∀ fqn ∈ far, Reaches c start (depth + 1) fqn
  popped_of_nearer : ∀ d fqn, Reaches c start d fqn → d < depth → fqn ∈ popped
  known_of_level : ∀ fqn, Reaches c start depth fqn → fqn ∈ popped ++ near
  bases_known : ∀ fqn ∈ popped, ∀ struct, c.struct fqn = .ok struct →
    struct.interfaces ⊆ popped ++ (near ++ far)

theorem Frontier.pop {start fqn : String} {depth : ℕ} {popped near far : List String}
    (h : Frontier c start depth popped (fqn :: near) far) {struct : InterfaceType}
    (hstruct : c.struct fqn = .ok struct) :
    Frontier c start depth (popped ++ [fqn]) near
      (far ++ unknownOf (popped ++ (fqn :: near ++ far)) struct.interfaces) := by
  obtain ⟨hnodup, hmem⟩ := unknownOf_spec (popped ++ (fqn :: near ++ far)) struct.interfaces
  generalize unknownOf (popped ++ (fqn :: near ++ far)) struct.interfaces = new at hnodup hmem ⊢
  have hlist : popped ++ [fqn] ++ (near ++ (far ++ new)) =
      popped ++ (fqn :: near ++ far) ++ new := by simp
  constructor
  · rw [hlist]
    refine List.nodup_append.mpr ⟨h.distinct, hnodup, ?_⟩
    rintro name hknown _ hnew rfl
    exact ((hmem name).mp hnew).2 hknown
  · exact fun name hname => h.near_reached name (List.mem_cons_of_mem fqn hname)
  · intro name hname
    rcases List.mem_append.mp hname with hfar | hnew
    · exact h.far_reached name hfar
    · exact .base (h.near_reached fqn List.mem_cons_self) hstruct ((hmem name).mp hnew).1
  · exact fun d name hname hless => List.mem_append_left _ (h.popped_of_nearer d name hname hless)
  · intro name hname
    rw [List.append_assoc]
    exact h.known_of_level name hname
  · intro name hname found hfound
    rw [hlist]
    rcases List.mem_append.mp hname with hpopped | hlast
    · exact List.Subset.trans (h.bases_known name hpopped found hfound)
        (List.subset_append_left _ _)
    · obtain rfl := List.mem_singleton.mp hlast
      obtain rfl := Except.ok.inj (hstruct.symm.trans hfound)
      intro base hbase
      by_cases hknown : base ∈ popped ++ (name :: near ++ far)
      · exact List.mem_append_left _ hknown
      · exact List.mem_append_right _ ((hmem base).mpr ⟨hbase, hknown⟩)

theorem Frontier.deepen {start : String} {depth : ℕ} {popped far : List String}
    (h : Frontier c start depth popped [] far) : Frontier c start (depth + 1) popped far [] := by
  constructor
  · rw [List.append_nil]
    exact h.distinct
  · exact h.far_reached
  · exact fun name hname => absurd hname List.not_mem_nil
  · intro d name hname hless
    rcases Nat.lt_succ_iff_lt_or_eq.mp hless with hless | rfl
    · exact h.popped_of_nearer d name hname hless
    · simpa using h.known_of_level name hname
  · intro name hname
    cases hname with
    | base hderived hstruct hbase =>
      have hpopped := h.known_of_level _ hderived
      rw [List.append_nil] at hpopped
      exact h.bases_known _ hpopped _ hstruct hbase
  · intro name hname found hfound
    rw [List.append_nil]
    exact h.bases_known name hname found hfound

theorem Frontier.exists_near {start fqn : String} {depth : ℕ}
    {popped near far waiting : List String} (h : Frontier c start depth popped near far)
    (hwaiting : near ++ far = fqn :: waiting) :
    ∃ depth near far, waiting = near ++ far ∧ Frontier c start depth popped (fqn :: near) far := by
  cases near with
  | nil =>
    obtain rfl : far = fqn :: waiting := hwaiting
    exact ⟨depth + 1, waiting, [], (List.append_nil waiting).symm, h.deepen⟩
  | cons first near =>
    obtain ⟨rfl, rfl⟩ := List.cons.inj hwaiting
    exact ⟨depth, near, far, rfl, h⟩

theorem Frontier.popped_of_inherits {start fqn : String} {depth : ℕ} {popped : List String}
    (h : Frontier c start depth popped [] []) (hfqn : Inherits c start fqn) : fqn ∈ popped := by
  induction hfqn with
  | self =>
    cases depth with
    | zero => simpa using h.known_of_level start .self
    | succ depth => exact h.popped_of_nearer 0 start .self (Nat.succ_pos depth)
  | base _ hstruct hbase ih => simpa using h.bases_known _ ih _ hstruct hbase

end Bindery.Catalog
