import Bindery.Proofs.Dependency
import Bindery.Proofs.Reference
import Bindery.Proofs.Tour

/-!
# Bases before their users

Members are arranged one body at a time, so a type stands behind those members of the body it
is in that hold its bases. A base is therefore complete when a type that inherits from it
begins, provided it lies inside the declaration around that type. A base that lies outside has
no influence on the order in which the types around its user are written.
-/

namespace Bindery.Binding

open Dotted

variable {m : Model} {module : String}

theorem bodyTypes_eq_ok {d : Declaration} {names : List String}
    (h : bodyTypes m module d = .ok names) :
    (d.shape.kind = .struct ∧ names = []) ∨
      ∃ members, Members.arrange m module d.members = .ok members ∧
        names = members.filterMap Member.nested? := by
  rw [bodyTypes] at h
  split at h
  · rename_i bases hshape
    exact .inl ⟨by rw [hshape]; rfl, (Except.ok.inj h).symm⟩
  · simp only [Outcome.bind_eq_ok, Outcome.pure_eq_ok] at h
    obtain ⟨members, hmembers, rfl⟩ := h
    exact .inr ⟨members, hmembers, rfl⟩

theorem parent_of_arrange (hm : m.Faithful) {fqn name : String} {d : Declaration}
    (hd : m.declaration fqn = .ok d) {members : List Member}
    (h : Members.arrange m module d.members = .ok members)
    (hname : name ∈ members.filterMap Member.nested?) : parent name = fqn := by
  obtain ⟨member, hmember, hnested⟩ := List.mem_filterMap.mp hname
  exact hm.parent_of_nested hd (Members.arrange_subset h hmember) hnested

theorem parent_of_bodyTypes (hm : m.Faithful) {fqn name : String} {d : Declaration}
    (hd : m.declaration fqn = .ok d) {names : List String}
    (h : bodyTypes m module d = .ok names) (hname : name ∈ names) : parent name = fqn := by
  rcases bodyTypes_eq_ok h with ⟨-, rfl⟩ | ⟨members, hmembers, rfl⟩
  · simp at hname
  · exact parent_of_arrange hm hd hmembers hname

/-- What holds a type is met on the way up from it. All that lies between them is held by the one
and holds the other. -/
theorem Holds.chain (hm : m.Faithful) {fqn target : String} (h : Holds m module fqn target) :
    ∃ n, parent^[n] target = fqn ∧ ∀ i ≤ n,
      Holds m module fqn (parent^[i] target) ∧ Holds m module (parent^[i] target) target := by
  induction h with
  | self hd hkind =>
    refine ⟨0, rfl, fun i hi => ?_⟩
    obtain rfl := Nat.le_zero.mp hi
    exact ⟨.self hd hkind, .self hd hkind⟩
  | @inner fqn name target d names hd hkind hnames hname hinner ih =>
    obtain ⟨n, hn, hchain⟩ := ih
    have hfqn : parent^[n + 1] target = fqn := by
      rw [Function.iterate_succ_apply', hn]
      exact parent_of_bodyTypes hm hd hnames hname
    refine ⟨n + 1, hfqn, fun i hi => ?_⟩
    rcases Nat.lt_or_eq_of_le hi with hlt | rfl
    · obtain ⟨hheld, hholds⟩ := hchain i (by omega)
      exact ⟨.inner hd hkind hnames hname hheld, hholds⟩
    · rw [hfqn]
      exact ⟨.self hd hkind, .inner hd hkind hnames hname hinner⟩

theorem Holds.climb (hm : m.Faithful) {fqn target : String} (h : Holds m module fqn target) :
    ∃ n, parent^[n] target = fqn ∧ ∀ i ≤ n, Holds m module (parent^[i] target) target := by
  obtain ⟨n, hn, hchain⟩ := h.chain hm
  exact ⟨n, hn, fun i hi => (hchain i hi).2⟩

theorem arranged_of_isLevel (hm : m.Faithful) {place : Declaration}
    (hplace : m.declaration place.fqn = .ok place) {members : List Member}
    (hmembers : Members.arrange m module place.members = .ok members) {level : List String}
    (h : IsLevel m module (members.filterMap Member.nested?) level) (hne : level ≠ []) :
    ∃ outer d arranged n, m.declaration outer = .ok d ∧
      Members.arrange m module d.members = .ok arranged ∧
      level = arranged.filterMap Member.nested? ∧ parent^[n] outer = place.fqn := by
  rcases h with rfl | ⟨name, hname, outer, d, hholds, hd, hlevel⟩
  · exact ⟨place.fqn, place, members, 0, hplace, hmembers, rfl, rfl⟩
  · rcases bodyTypes_eq_ok hlevel with ⟨-, rfl⟩ | ⟨arranged, harranged, rfl⟩
    · exact absurd rfl hne
    · obtain ⟨n, hn, -⟩ := hholds.climb hm
      refine ⟨outer, d, arranged, n + 1, hd, harranged, rfl, ?_⟩
      rw [Function.iterate_succ_apply', hn]
      exact parent_of_arrange hm hplace hmembers hname

theorem climb_stays_inside {base place level : String} {steps depth n : ℕ}
    (hplace : parent^[steps + 1] base = place) (hinside : parent^[depth] level = place)
    (hlevel : parent^[n + 1] base = level) (hfirst : ∀ i < n, parent^[i + 1] base ≠ level) :
    n ≤ steps := by
  by_contra hlt
  obtain ⟨k, rfl⟩ : ∃ k, n = steps + 1 + k := ⟨n - (steps + 1), by omega⟩
  have hne : place ≠ level := hplace ▸ hfirst steps (by omega)
  have habove : parent^[k + 1] place = level := by
    have hsteps : k + 1 + (steps + 1) = steps + 1 + k + 1 := by omega
    rw [← hplace, ← Function.iterate_add_apply, hsteps, hlevel]
  have hcycle : parent^[depth + k + 1] place = place := by
    rw [Nat.add_assoc, Function.iterate_add_apply, habove, hinside]
  have hempty := eq_empty_of_iterate_parent hcycle
  rw [hempty, iterate_parent_empty] at habove
  exact hne (hempty.trans habove)

theorem mem_types_of_holds (hm : m.Faithful) (hwf : m.assembly.WellFormed) {fqn target : String}
    (h : Holds m module fqn target) : fqn ∈ m.assembly.types.keys := by
  obtain ⟨d, hd, hkind⟩ := h.declared
  obtain ⟨bare, hdeclares, rfl, rfl⟩ := hm.lookup fqn d (Model.lookup_of_declaration hd)
  obtain ⟨entry, hentry, hfqn⟩ := hdeclares.of_type (of_decide_eq_false hkind)
  exact hfqn ▸ hwf.fqn_mem_keys hentry

theorem owner_of_climb (hwf : m.assembly.WellFormed) {place base : String} {steps : ℕ}
    (hplace : place ∉ m.assembly.types.keys) (hne : place ≠ "")
    (htypes : ∀ i ≤ steps, parent^[i] base ∈ m.assembly.types.keys)
    (hsteps : parent^[steps + 1] base = place) : m.owner base = place := by
  induction steps generalizing base with
  | zero =>
    obtain ⟨outer, last, hlast, rfl⟩ := hwf.exists_child (htypes 0 le_rfl)
    obtain rfl : outer = place := (parent_child outer hlast).symm.trans hsteps
    refine Model.owner_child_of_module hlast hne ?_
    rwa [← Bool.not_eq_true, OrderedMap.contains_iff]
  | succ steps ih =>
    obtain ⟨outer, last, hlast, rfl⟩ := hwf.exists_child (htypes 0 (Nat.zero_le _))
    have hstep : ∀ i, parent^[i + 1] (outer ++ "." ++ last) = parent^[i] outer := fun i => by
      rw [Function.iterate_succ_apply, parent_child outer hlast]
    have houter : ∀ i ≤ steps, parent^[i] outer ∈ m.assembly.types.keys := fun i hi => by
      rw [← hstep i]
      exact htypes (i + 1) (by omega)
    rw [hstep] at hsteps
    have htype : outer ∈ m.assembly.types.keys := houter 0 (Nat.zero_le _)
    rw [Model.owner_child_of_type hlast (hwf.ne_empty_of_type htype)
      (OrderedMap.contains_iff.mpr htype)]
    exact ih houter hsteps

theorem isInModule_of_holds (hm : m.Faithful) (hwf : m.assembly.WellFormed) {place : Declaration}
    (hplace : place ∈ m.modules) {base : String} {steps : ℕ}
    (hholds : ∀ i ≤ steps, Holds m module (parent^[i] base) base)
    (hsteps : parent^[steps + 1] base = place.fqn) {inside : Bool}
    (h : m.isInModule base place.name = .ok inside) : inside = true := by
  have hmodule := (hm.of_mem_modules hplace).1
  have htypes : ∀ i ≤ steps, parent^[i] base ∈ m.assembly.types.keys := fun i hi =>
    mem_types_of_holds hm hwf (hholds i hi)
  have howner : m.owner base = place.fqn :=
    owner_of_climb hwf (hwf.not_mem_types_of_module hmodule) (hwf.proper_of_module hmodule).ne_empty
      htypes hsteps
  obtain ⟨home, hhome, hname⟩ := Model.exists_pythonName hm hplace
  simp only [Model.isInModule, Outcome.bind_eq_ok, Outcome.pure_eq_ok] at h
  obtain ⟨target, htarget, rfl⟩ := h
  obtain ⟨-, hpackage, -, below, hbelow⟩ :=
    Model.path_of_owner hm hwf (htypes 0 (Nat.zero_le _)) htarget (howner ▸ hhome)
  rw [isBelow_iff, ← hname, hpackage]
  exact ⟨below, hbelow⟩

/-- A base that lies inside the declaration around a type is complete when the type begins. -/
theorem base_closed_before {a : Api.Assembly} {dependencies : List Api.Assembly}
    (hbuild : Model.build a dependencies = .ok m) {place : Declaration} (hplace : place ∈ m.modules)
    {checks : Bool} {script : Script} (hscript : moduleScript m checks place = .ok script)
    {fqn base : String} {d : Declaration} (hd : m.declaration fqn = .ok d) (hbase : base ∈ d.bases)
    (hwritten : .mark (.closed base) ∈ script) (hinside : parent fqn ∈ ancestors base)
    (hpath : m.assembly.WellFormed ∨ m.isInModule base place.name = .ok true) {pre post : Script}
    (hsplit : script = pre ++ .mark (.opened fqn) :: post) : .mark (.closed base) ∈ pre := by
  have hm := Model.faithful_of_build hbuild
  have hself := hm.declaration_of_mem_modules hplace
  obtain ⟨members, hmembers, htour⟩ := tour_of_moduleScript hself hscript
  -- The base is held by a type of the module, and all between the two is on the way up from it.
  obtain ⟨top, htop, hholds⟩ := (htour.closed_mem_iff hm).mp (mem_outline.mpr hwritten)
  obtain ⟨steps, hsteps, hchain⟩ := hholds.climb hm
  have hbasePlace : parent^[steps + 1] base = place.fqn := by
    rw [Function.iterate_succ_apply', hsteps]
    exact parent_of_arrange hm hself hmembers htop
  -- The type is met in the arrangement of a declaration that lies in the module.
  have hevents : outline script = outline pre ++ .opened fqn :: outline post := by
    rw [hsplit]
    simp
  obtain ⟨before, after, hlevel, hclosed⟩ := htour.closed_before_opened hm hevents
  obtain ⟨outer, outerDeclaration, arranged, depth, houter, harranged, hlist, hdepth⟩ :=
    arranged_of_isLevel hm hself hmembers hlevel (by simp)
  have hparent : parent fqn = outer :=
    parent_of_arrange hm houter harranged (by rw [← hlist]; simp)
  obtain ⟨d', siblings, hd', hsiblings, hbefore⟩ := Members.arrange_spec harranged hlist.symm
  obtain rfl := Except.ok.inj (hd.symm.trans hd')
  have hfqn := hm.fqn_eq (Model.lookup_of_declaration hd)
  have hknown : m.symbols.contains base = true := by
    obtain ⟨baseDeclaration, hbaseDeclaration, -⟩ := (hchain 0 (Nat.zero_le _)).declared
    exact Option.isSome_iff_exists.mpr ⟨_, Model.lookup_of_declaration hbaseDeclaration⟩
  have hclimbs : m.Climbs place.name base := by
    refine ⟨hknown, hpath.elim (fun hwf => ?_) id⟩
    obtain ⟨inside, hinModule⟩ := Model.exists_isInModule hsiblings hbase hknown
    rw [hinModule, isInModule_of_holds hm hwf hplace hchain hbasePlace hinModule]
  -- The sibling that the climb from the base finds holds the base and stands before the type.
  obtain ⟨n, hn, hfirst, hneeded⟩ :=
    Model.type_mem_siblings hsiblings hbase hclimbs (hfqn.symm ▸ hinside)
  rw [hfqn, hparent] at hn hfirst
  have hheld := hchain n (climb_stays_inside hbasePlace hdepth hn hfirst)
  obtain ⟨sibling, hsibling, hkind⟩ := hheld.declared
  have hin := hbefore _ (hneeded sibling hsibling hkind)
  exact mem_outline.mp (hclosed _ hin base hheld)

def nestedUser (base : String) : Api.Assembly :=
  (((Api.Assembly.ofModule "Acme" "1.0.0" "acme").withType (.class (.ofFqn "Acme.Outer"))).withType
    (.class { Api.ClassType.ofFqn "Acme.Outer.User" with base := some base })).withType
    (.class (.ofFqn base))

def shadedBase : Api.Assembly :=
  ((((Api.Assembly.ofModule "Acme" "1.0.0" "acme").withSubmodule "Acme.core" none).withSubmodule
    "Acme.core.Zbase" (some "acme.misc.Zbase")).withType
    (.class { Api.ClassType.ofFqn "Acme.core.User" with base := some "Acme.core.Zbase" })).withType
    (.class (.ofFqn "Acme.core.Zbase"))

def rendered (a : Api.Assembly) (fqn : String) : Outcome (Model × Declaration × Script) := do
  let m ← Model.build a []
  let place ← m.declaration fqn
  return (m, place, ← moduleScript m true place)

theorem rendered_eq_ok {a : Api.Assembly} {fqn : String} {place : Declaration} {script : Script}
    (h : rendered a fqn = .ok (m, place, script)) :
    Model.build a [] = .ok m ∧ place ∈ m.modules ∧ moduleScript m true place = .ok script := by
  simp only [rendered, Outcome.bind_eq_ok, Outcome.pure_eq_ok] at h
  obtain ⟨_, hbuild, _, hplace, _, hscript, heq⟩ := h
  obtain ⟨rfl, rfl, rfl⟩ : _ = m ∧ _ = place ∧ _ = script := by simpa using heq
  refine ⟨hbuild, Model.mem_modules_iff.mpr ⟨⟨_, Model.lookup_of_declaration hplace⟩, ?_⟩, hscript⟩
  rw [moduleScript] at hscript
  split at hscript
  · rename_i readme hshape
    rw [hshape]
    rfl
  · cases hscript

def userView (user : String) : Model × Declaration × Script →
    List Event × Option (List String) × Bool
  | (m, _, script) =>
    (outline script, (m.declaration user).toOption.map (·.bases), decide m.assembly.WellFormed)

theorem rendered_inside :
    (rendered (nestedUser "Acme.Outer.Base") "Acme").toOption.map (userView "Acme.Outer.User") =
    some ([.opened "Acme.Outer", .opened "Acme.Outer.Base", .closed "Acme.Outer.Base",
      .opened "Acme.Outer.User", .closed "Acme.Outer.User", .closed "Acme.Outer"],
      some ["Acme.Outer.Base"], true) := by
  decide +kernel

theorem rendered_outside :
    (rendered (nestedUser "Acme.Zbase") "Acme").toOption.map (userView "Acme.Outer.User") =
    some ([.opened "Acme.Outer", .opened "Acme.Outer.User", .closed "Acme.Outer.User",
      .closed "Acme.Outer", .opened "Acme.Zbase", .closed "Acme.Zbase"],
      some ["Acme.Zbase"], true) := by
  decide +kernel

theorem rendered_shaded :
    (rendered shadedBase "Acme.core").toOption.map (userView "Acme.core.User") =
    some ([.opened "Acme.core.User", .closed "Acme.core.User", .opened "Acme.core.Zbase",
      .closed "Acme.core.Zbase"], some ["Acme.core.Zbase"], false) := by
  decide +kernel

theorem userView_eq {user : String} {place : Declaration} {script : Script} {events : List Event}
    {bases : List String} {wellFormed : Bool}
    (h : userView user (m, place, script) = (events, some bases, wellFormed)) :
    outline script = events ∧ decide m.assembly.WellFormed = wellFormed ∧
      ∃ d, m.declaration user = .ok d ∧ d.bases = bases := by
  obtain ⟨houtline, hbases, hwf⟩ : outline script = events ∧
      (m.declaration user).toOption.map (·.bases) = some bases ∧
      decide m.assembly.WellFormed = wellFormed := by
    simpa [userView] using h
  exact ⟨houtline, hwf, Outcome.exists_eq_ok_of_map hbases⟩

theorem base_closed_before_inside :
    ∃ m place script d pre post,
      Model.build (nestedUser "Acme.Outer.Base") [] = .ok m ∧ place ∈ m.modules ∧
      moduleScript m true place = .ok script ∧ m.declaration "Acme.Outer.User" = .ok d ∧
      "Acme.Outer.Base" ∈ d.bases ∧ m.assembly.WellFormed ∧
      script = pre ++ .mark (.opened "Acme.Outer.User") :: post ∧
      .mark (.closed "Acme.Outer.Base") ∈ pre := by
  obtain ⟨⟨m, place, script⟩, hrendered, hview⟩ := Outcome.exists_eq_ok_of_map rendered_inside
  obtain ⟨hbuild, hplace, hscript⟩ := rendered_eq_ok hrendered
  obtain ⟨houtline, hdecided, d, hd, hbases⟩ := userView_eq hview
  have hwf := of_decide_eq_true hdecided
  have hopened : Event.opened "Acme.Outer.User" ∈ outline script := by simp [houtline]
  have hclosed : Event.closed "Acme.Outer.Base" ∈ outline script := by simp [houtline]
  obtain ⟨pre, post, hsplit⟩ := List.append_of_mem (mem_outline.mp hopened)
  have hbase : "Acme.Outer.Base" ∈ d.bases := by simp [hbases]
  have hinside : parent "Acme.Outer.User" ∈ ancestors "Acme.Outer.Base" := by decide +kernel
  exact ⟨m, place, script, d, pre, post, hbuild, hplace, hscript, hd, hbase, hwf, hsplit,
    base_closed_before hbuild hplace hscript hd hbase (mem_outline.mp hclosed) hinside (.inl hwf)
      hsplit⟩

/-- Every base that a module writes is complete when its user begins, on a condition on the two. -/
def ClosedBefore (P : Model → String → String → Prop) : Prop :=
  ∀ (a : Api.Assembly) (dependencies : List Api.Assembly) (m : Model) (place : Declaration)
    (checks : Bool) (script pre post : Script) (fqn base : String) (d : Declaration),
    Model.build a dependencies = .ok m → place ∈ m.modules →
    moduleScript m checks place = .ok script → m.declaration fqn = .ok d → base ∈ d.bases →
    .mark (.closed base) ∈ script → P m fqn base → script = pre ++ .mark (.opened fqn) :: post →
    .mark (.closed base) ∈ pre

theorem closed_not_mem_of_late {script pre post : Script} {fqn base : String}
    (hlate : .opened fqn ∉ (outline script).dropWhile (· ≠ .closed base))
    (hsplit : script = pre ++ .mark (.opened fqn) :: post) : .mark (.closed base) ∉ pre := by
  intro hearly
  have hclosed : Event.closed base ∈ outline pre := mem_outline.mpr hearly
  obtain ⟨first, rest, hpre, hfirst⟩ := List.eq_append_cons_of_mem hclosed
  have hevents : outline script =
      first ++ .closed base :: (rest ++ .opened fqn :: outline post) := by
    rw [hsplit, outline_append, hpre]
    simp
  apply hlate
  rw [hevents, List.dropWhile_append_of_pos]
  · simp
  · intro event hin
    simpa using fun heq : event = .closed base => hfirst (heq ▸ hin)

theorem not_closedBefore {P : Model → String → String → Prop} {a : Api.Assembly}
    {place user base : String} {events : List Event} {wellFormed : Bool}
    (hview : (rendered a place).toOption.map (userView user) =
      some (events, some [base], wellFormed))
    (hcondition : ∀ m : Model, decide m.assembly.WellFormed = wellFormed → P m user base)
    (hopened : .opened user ∈ events) (hclosed : .closed base ∈ events)
    (hlate : .opened user ∉ events.dropWhile (· ≠ .closed base)) : ¬ ClosedBefore P := by
  intro h
  obtain ⟨⟨m, place, script⟩, hrendered, hview⟩ := Outcome.exists_eq_ok_of_map hview
  obtain ⟨hbuild, hplace, hscript⟩ := rendered_eq_ok hrendered
  obtain ⟨rfl, hwf, d, hd, hbases⟩ := userView_eq hview
  obtain ⟨pre, post, hsplit⟩ := List.append_of_mem (mem_outline.mp hopened)
  refine closed_not_mem_of_late hlate hsplit ?_
  exact h a [] m place true script pre post user base d hbuild hplace hscript hd (by simp [hbases])
    (mem_outline.mp hclosed) (hcondition m hwf) hsplit

/-- A base outside the declaration around its user may be written behind it, also in a well formed
assembly, and so may a base inside that declaration in an assembly that is not well formed. -/
theorem base_closed_late :
    ¬ ClosedBefore (fun m _ _ => m.assembly.WellFormed) ∧
      ¬ ClosedBefore (fun _ fqn base => parent fqn ∈ ancestors base) := by
  constructor
  · exact not_closedBefore rendered_outside (fun _ hwf => of_decide_eq_true hwf) (by simp) (by simp)
      (by decide)
  · have hinside : parent "Acme.core.User" ∈ ancestors "Acme.core.Zbase" := by decide +kernel
    exact not_closedBefore rendered_shaded (fun _ _ => hinside) (by simp) (by simp) (by decide)

end Bindery.Binding
