import Bindery.Proofs.Content
import Bindery.Proofs.ForwardReference
import Bindery.Proofs.Shadowing

/-!
# Types are written once

The definition of a type is written in one module, inside the definition of the type around it and
behind the methods and properties there. A type is left out only if it, or a type around it, gives
way to a member of the same Python name.
-/

namespace Bindery

open Api Dotted

namespace Model

variable {a : Assembly} {dependencies : List Assembly} {m : Model}

def IsType (m : Model) (fqn : String) : Prop :=
  ∃ d, m.declaration fqn = .ok d ∧ d.isModule = false

theorem keyed_of_build (hbuild : build a dependencies = .ok m) (hkeyed : a.Keyed) :
    m.assembly.Keyed := by
  rw [Assembly.Keyed, types_of_build hbuild]
  exact hkeyed

theorem isType_of_entry (hbuild : build a dependencies = .ok m) {entry : TypeEntry}
    (hentry : entry ∈ m.assembly.types.values) : m.IsType entry.fqn := by
  obtain ⟨ds, hds, hlookup⟩ := lookup_of_build hbuild
  simp only [ownDeclarations, Outcome.bind_eq_ok, Outcome.pure_eq_ok] at hds
  obtain ⟨modules, -, types, htypes, rfl⟩ := hds
  obtain ⟨d, hd, hdeclaration⟩ := Outcome.exists_mem_mapM htypes hentry
  have hsome : (types.reverse.find? fun d => d.fqn = entry.fqn).isSome = true := by
    rw [List.find?_isSome]
    exact ⟨d, List.mem_reverse.mpr hd, by simpa using fqn_of_typeDeclaration hdeclaration⟩
  obtain ⟨last, hlast⟩ := Option.isSome_iff_exists.mp hsome
  have hin : last ∈ types := List.mem_reverse.mp (List.mem_of_find?_eq_some hlast)
  obtain ⟨source, -, hsource⟩ := Outcome.exists_mem_of_mapM htypes hin
  refine ⟨last.holding (typesIn m.toCatalog entry.fqn), declaration_of_lookup ?_, ?_⟩
  · rw [hlookup, List.reverse_append, List.find?_append, hlast]
    rfl
  · simp only [typeDeclaration, Outcome.bind_eq_ok, Outcome.pure_eq_ok] at hsource
    obtain ⟨⟨shape, members⟩, hcontent, rfl⟩ := hsource
    exact decide_eq_false (content_spec hcontent).1

theorem isType_iff (hbuild : build a dependencies = .ok m) (hkeyed : a.Keyed) {fqn : String} :
    m.IsType fqn ↔ fqn ∈ m.assembly.types.keys := by
  have hkeys := keyed_of_build hbuild hkeyed
  constructor
  · rintro ⟨d, hd, hkind⟩
    obtain ⟨bare, hdeclares, rfl, rfl⟩ :=
      (faithful_of_build hbuild).lookup fqn d (lookup_of_declaration hd)
    obtain ⟨entry, hentry, hfqn⟩ := hdeclares.of_type (of_decide_eq_false hkind)
    obtain ⟨pair, hpair, rfl⟩ := List.mem_map.mp hentry
    rw [← hfqn, (hkeys pair hpair).1]
    exact List.mem_map_of_mem hpair
  · intro hin
    obtain ⟨pair, hpair, rfl⟩ := List.mem_map.mp hin
    rw [← (hkeys pair hpair).1]
    exact isType_of_entry hbuild (List.mem_map_of_mem hpair)

theorem not_undotted_of_isType (hbuild : build a dependencies = .ok m) (hkeyed : a.Keyed)
    {fqn : String} (h : m.IsType fqn) : ¬ Undotted fqn := by
  obtain ⟨pair, hpair, rfl⟩ := List.mem_map.mp ((isType_iff hbuild hkeyed).mp h)
  exact not_not_intro (keyed_of_build hbuild hkeyed pair hpair).2

theorem nodup_nested (hbuild : build a dependencies = .ok m) (hkeyed : a.Keyed) {fqn : String}
    {d : Declaration} (hd : m.declaration fqn = .ok d) :
    (d.members.filterMap Member.nested?).Nodup := by
  have hdistinct : (m.assembly.types.values.map TypeEntry.fqn).Nodup :=
    OrderedMap.nodup_map_values fun pair hpair => (keyed_of_build hbuild hkeyed pair hpair).1
  rw [(faithful_of_build hbuild).nested_members hd]
  exact hdistinct.sublist ((List.filter_sublist).map _)

theorem ancestors_of_isType (hbuild : build a dependencies = .ok m) (hkeyed : a.Keyed)
    {fqn : String} (h : m.IsType fqn) : ancestors fqn = parent fqn :: ancestors (parent fqn) := by
  obtain ⟨outer, last, hlast, rfl⟩ := exists_child (not_undotted_of_isType hbuild hkeyed h)
  rw [ancestors_child outer hlast, parent_child outer hlast]

def enclosingTypes (m : Model) (fqn : String) : List String :=
  (ancestors fqn).takeWhile (m.assembly.types.contains ·)

def home? (m : Model) (fqn : String) : Option String :=
  (ancestors fqn).find? (!m.assembly.types.contains ·)

theorem owner_eq_home (hbuild : build a dependencies = .ok m) (hkeyed : a.Keyed) {fqn home : String}
    (h : m.home? fqn = some home) :
    m.owner fqn = if home = "" then m.assembly.name else home := by
  have hempty : m.assembly.types.contains "" = false := by
    rw [← Bool.not_eq_true, OrderedMap.contains_iff, ← isType_iff hbuild hkeyed]
    exact fun hin => not_undotted_of_isType hbuild hkeyed hin (by decide)
  have hsame : (fun name => decide (name = "") || !m.assembly.types.contains name) =
      fun name => !m.assembly.types.contains name := by
    funext name
    by_cases hname : name = ""
    · simp [hname, hempty]
    · simp [hname]
  rw [home?] at h
  simp only [Catalog.owner, hsame, h]
  split
  · rename_i heq
    simp [Option.some.inj heq]
  · rename_i hne heq
    obtain rfl := Option.some.inj heq
    rw [if_neg fun hname => hne (by rw [hname])]
  · rename_i heq
    cases heq

/-- A type at its place below `outer`: the names in `inside` lie between the two and are types, and
the last of them, or else the type, is among `names`. -/
structure Stands (m : Model) (outer : String) (names : List String) (fqn : String)
    (inside : List String) : Prop where
  above : ancestors fqn = inside ++ outer :: ancestors outer
  top : ∃ name ∈ names, (fqn :: inside).getLast? = some name
  types : ∀ name ∈ fqn :: inside, m.IsType name

theorem Stands.mono {outer fqn : String} {names names' inside : List String}
    (h : m.Stands outer names fqn inside) (hsub : names ⊆ names') :
    m.Stands outer names' fqn inside := by
  obtain ⟨name, hname, hlast⟩ := h.top
  exact ⟨h.above, ⟨name, hsub hname, hlast⟩, h.types⟩

theorem Stands.inside_eq {outer fqn : String} {names names' inside inside' : List String}
    (h : m.Stands outer names fqn inside) (h' : m.Stands outer names' fqn inside') :
    inside = inside' :=
  List.append_cancel_right (h.above.symm.trans h'.above)

theorem Stands.shared_top {outer fqn : String} {names names' inside inside' : List String}
    (h : m.Stands outer names fqn inside) (h' : m.Stands outer names' fqn inside') :
    ∃ name ∈ names, name ∈ names' := by
  obtain ⟨name, hname, hlast⟩ := h.top
  obtain ⟨name', hname', hlast'⟩ := h'.top
  rw [← h.inside_eq h', hlast] at hlast'
  obtain rfl := Option.some.inj hlast'
  exact ⟨name, hname, hname'⟩

theorem Stands.ne {outer fqn : String} {names inside : List String}
    (h : m.Stands outer names fqn inside) : fqn ≠ outer := by
  rintro rfl
  have hlength := congrArg List.length h.above
  simp only [List.length_append, List.length_cons] at hlength
  omega

theorem Stands.around {first fqn : String} {inner inside : List String}
    (h : m.Stands first inner fqn inside) (hfirst : m.IsType first)
    (habove : ancestors first = parent first :: ancestors (parent first)) :
    m.Stands (parent first) [first] fqn (inside ++ [first]) := by
  refine ⟨?_, ⟨first, List.mem_singleton_self first, ?_⟩, ?_⟩
  · rw [h.above, habove, List.append_assoc, List.singleton_append]
  · rw [← List.cons_append]
    exact List.getLast?_concat
  · intro name hname
    rw [← List.cons_append] at hname
    rcases List.mem_append.mp hname with hin | hin
    · exact h.types name hin
    · obtain rfl := List.mem_singleton.mp hin
      exact hfirst

theorem Stands.places (hbuild : build a dependencies = .ok m) (hkeyed : a.Keyed)
    {outer fqn : String} {names inside : List String} (h : m.Stands outer names fqn inside)
    (houter : ¬ m.IsType outer) :
    m.home? fqn = some outer ∧ m.enclosingTypes fqn = inside := by
  have hcontains : ∀ name, m.assembly.types.contains name = true ↔ m.IsType name := fun name =>
    OrderedMap.contains_iff.trans (isType_iff hbuild hkeyed).symm
  have hinside : ∀ name ∈ inside, m.assembly.types.contains name = true := fun name hname =>
    (hcontains name).mpr (h.types name (List.mem_cons_of_mem fqn hname))
  have hnot : m.assembly.types.contains outer = false :=
    Bool.not_eq_true _ ▸ mt (hcontains outer).mp houter
  constructor
  · have hnone : inside.find? (!m.assembly.types.contains ·) = none := by
      rw [List.find?_eq_none]
      intro name hname
      simp [hinside name hname]
    rw [home?, h.above, List.find?_append, hnone, Option.none_or, List.find?_cons_of_pos]
    simp [hnot]
  · rw [enclosingTypes, h.above, List.takeWhile_append_of_pos hinside, List.takeWhile_cons_of_neg,
      List.append_nil]
    simp [hnot]

/-- A type whose member, and that of every type around it, is kept where members share a name. -/
inductive Survives (m : Model) : String → Prop
  | intro {fqn : String} {outer : Declaration} {kept : List Member} {member : Member}
      (houter : m.declaration (parent fqn) = .ok outer)
      (hkept : Members.select outer.members = .ok kept) (hmember : member ∈ kept)
      (hnested : member.nested? = some fqn)
      (haround : outer.isModule = false → Survives m (parent fqn)) : Survives m fqn

end Model

namespace Binding

variable {m : Model} {module : String} {names : List String}

def Event.opened? : Event → Option String
  | .opened fqn => some fqn
  | .closed _ => none

@[simp] theorem Event.opened?_opened (fqn : String) : (opened fqn).opened? = some fqn := rfl

@[simp] theorem Event.opened?_closed (fqn : String) : (closed fqn).opened? = none := rfl

def openings (script : Script) : List String := (outline script).filterMap Event.opened?

theorem mem_opened {events : List Event} {fqn : String} :
    fqn ∈ events.filterMap Event.opened? ↔ .opened fqn ∈ events := by
  rw [List.mem_filterMap]
  constructor
  · rintro ⟨event, hin, hopened⟩
    cases event with
    | opened name => rwa [← Option.some.inj hopened]
    | closed name => cases hopened
  · exact fun hin => ⟨_, hin, rfl⟩

section Places

variable {a : Assembly} {dependencies : List Assembly}
  (hbuild : Model.build a dependencies = .ok m) (hkeyed : a.Keyed)

include hbuild hkeyed

theorem Tour.stands {events : List Event} (h : Tour m module names events) {outer : String}
    (hparent : ∀ name ∈ names, parent name = outer) {fqn : String} {pre post : List Event}
    (hsplit : events = pre ++ .opened fqn :: post) (stack : List String) :
    ∃ inside, m.Stands outer names fqn inside ∧ unclosedFrom stack pre = inside ++ stack := by
  have hm := Model.faithful_of_build hbuild
  induction h generalizing outer pre post stack with
  | nil => simp at hsplit
  | @cons first d inner names body rest hd hkind hinner hbody hrest ihBody ihRest =>
    have hfqn := hm.fqn_eq (Model.lookup_of_declaration hd)
    have hfirst : m.IsType first := ⟨d, hd, hkind⟩
    obtain ⟨rfl, hnames⟩ := List.forall_mem_cons.mp hparent
    have habove := Model.ancestors_of_isType hbuild hkeyed hfirst
    rw [hfqn] at hsplit
    cases pre with
    | nil =>
      obtain ⟨hopened, -⟩ := List.cons.inj hsplit
      obtain rfl := Event.opened.inj hopened
      exact ⟨[], ⟨habove, ⟨first, List.mem_cons_self, rfl⟩, by simpa using hfirst⟩, rfl⟩
    | cons event pre =>
      obtain ⟨rfl, htail⟩ := List.cons.inj hsplit
      rcases append_eq_append_cons htail with ⟨more, hmore, -⟩ | ⟨more, rfl, hmore⟩
      · -- The type is opened in the body of the first one.
        have hinside : ∀ name ∈ inner, parent name = first := fun name hname =>
          parent_of_bodyTypes hm hd hinner hname
        obtain ⟨inside, hstands, hopen⟩ := ihBody hinside hmore (first :: stack)
        refine ⟨inside ++ [first], (hstands.around hfirst habove).mono (by simp), ?_⟩
        rw [List.append_assoc, List.singleton_append]
        exact hopen
      · -- It is opened behind the first one, which leaves nothing open.
        cases more with
        | nil => simp at hmore
        | cons closing more =>
          obtain ⟨rfl, hrestSplit⟩ := List.cons.inj hmore
          obtain ⟨inside, hstands, hopen⟩ := ihRest hnames hrestSplit stack
          refine ⟨inside, hstands.mono (List.subset_cons_self _ _), ?_⟩
          have hclosed : unclosedFrom (first :: stack) (body ++ .closed first :: more) =
              unclosedFrom stack more := by
            rw [unclosedFrom_append, hbody.unclosedFrom_eq]
            rfl
          exact hclosed.trans hopen

theorem Tour.stands_of_mem {events : List Event} (h : Tour m module names events) {outer : String}
    (hparent : ∀ name ∈ names, parent name = outer) {fqn : String} (hin : .opened fqn ∈ events) :
    ∃ inside, m.Stands outer names fqn inside := by
  obtain ⟨pre, post, hsplit⟩ := List.append_of_mem hin
  obtain ⟨inside, hstands, -⟩ := h.stands hbuild hkeyed hparent hsplit []
  exact ⟨inside, hstands⟩

theorem Tour.nodup_opened {events : List Event} (h : Tour m module names events) {outer : String}
    (hparent : ∀ name ∈ names, parent name = outer) (hnodup : names.Nodup) :
    (events.filterMap Event.opened?).Nodup := by
  have hm := Model.faithful_of_build hbuild
  induction h generalizing outer with
  | nil => exact List.nodup_nil
  | @cons first d inner names body rest hd hkind hinner hbody hrest ihBody ihRest =>
    obtain ⟨rfl, hnames⟩ := List.forall_mem_cons.mp hparent
    obtain ⟨hfresh, hrestNodup⟩ := List.nodup_cons.mp hnodup
    have hfqn := hm.fqn_eq (Model.lookup_of_declaration hd)
    have hinside : ∀ name ∈ inner, parent name = first := fun name hname =>
      parent_of_bodyTypes hm hd hinner hname
    have hinnerNodup : inner.Nodup := by
      rcases bodyTypes_eq_ok hinner with ⟨-, rfl⟩ | ⟨members, hmembers, rfl⟩
      · exact List.nodup_nil
      · exact Members.nodup_nested_of_arrange hmembers (Model.nodup_nested hbuild hkeyed hd)
    -- What the first name opens stands below it, and what the others open stands below them.
    have hself : Tour m module [first] (.opened d.fqn :: body ++ [.closed d.fqn]) :=
      .cons hd hkind hinner hbody .nil
    have hown : ∀ name ∈ [first], parent name = parent first := by simp
    have hapart : ∀ fqn, .opened fqn ∈ .opened d.fqn :: body ++ [.closed d.fqn] →
        .opened fqn ∉ rest := by
      intro fqn hleft hright
      obtain ⟨_, hstands⟩ := hself.stands_of_mem hbuild hkeyed hown hleft
      obtain ⟨_, hstands'⟩ := hrest.stands_of_mem hbuild hkeyed hnames hright
      obtain ⟨name, hname, hin⟩ := hstands.shared_top hstands'
      obtain rfl := List.mem_singleton.mp hname
      exact hfresh hin
    have hopened : (.opened d.fqn :: body ++ .closed d.fqn :: rest).filterMap Event.opened? =
        d.fqn :: (body.filterMap Event.opened? ++ rest.filterMap Event.opened?) := by
      simp [List.filterMap_cons]
    rw [hopened, List.nodup_cons, List.nodup_append]
    refine ⟨?_, ihBody hinside hinnerNodup, ihRest hnames hrestNodup, ?_⟩
    · rw [List.mem_append, mem_opened, mem_opened]
      rintro (hin | hin)
      · obtain ⟨_, hstands⟩ := hbody.stands_of_mem hbuild hkeyed hinside hin
        exact hstands.ne hfqn
      · exact hapart d.fqn (by simp) hin
    · rintro fqn hleft _ hright rfl
      rw [mem_opened] at hleft hright
      exact hapart fqn (by simp [hleft]) hright

end Places

theorem survives_of_arrange (hm : m.Faithful) {fqn name : String} {d : Declaration}
    (hd : m.declaration fqn = .ok d) (haround : d.isModule = false → m.Survives fqn)
    {members : List Member} (h : Members.arrange m module d.members = .ok members)
    (hname : name ∈ members.filterMap Member.nested?) : m.Survives name := by
  obtain ⟨kept, hkept, hperm⟩ := Members.arrange_perm h
  obtain ⟨member, hmember, hnested⟩ := List.mem_filterMap.mp hname
  obtain rfl : parent name = fqn := parent_of_arrange hm hd h hname
  exact .intro hd hkept (hperm.subset hmember) hnested haround

theorem Tour.survives (hm : m.Faithful) {events : List Event} (h : Tour m module names events)
    (hnames : ∀ name ∈ names, m.Survives name) {fqn : String} (hin : .opened fqn ∈ events) :
    m.Survives fqn := by
  induction h with
  | nil => simp at hin
  | @cons first d inner names body rest hd hkind hinner _ _ ihBody ihRest =>
    obtain ⟨hfirst, hrest⟩ := List.forall_mem_cons.mp hnames
    have hfqn := hm.fqn_eq (Model.lookup_of_declaration hd)
    have hnested : ∀ name ∈ inner, m.Survives name := by
      intro name hname
      rcases bodyTypes_eq_ok hinner with ⟨-, rfl⟩ | ⟨members, hmembers, rfl⟩
      · simp at hname
      · exact survives_of_arrange hm hd (fun _ => hfirst) hmembers hname
    simp only [List.cons_append, List.mem_cons, List.mem_append, Event.opened.injEq,
      reduceCtorEq, false_or] at hin
    rcases hin with rfl | hin | hin
    · exact hfqn ▸ hfirst
    · exact ihBody hnested hin
    · exact ihRest hrest hin

theorem Tour.opened_of_mem (hm : m.Faithful) {events : List Event} (h : Tour m module names events)
    {name : String} (hname : name ∈ names) : .opened name ∈ events := by
  induction h with
  | nil => simp at hname
  | @cons first d inner names body rest hd _ _ _ _ _ ihRest =>
    have hfqn := hm.fqn_eq (Model.lookup_of_declaration hd)
    rcases List.mem_cons.mp hname with rfl | hin
    · simp [hfqn]
    · simp [ihRest hin]

theorem Tour.opened_of_body (hm : m.Faithful) {events : List Event}
    (h : Tour m module names events) {outer : String} (houter : .opened outer ∈ events)
    {d : Declaration} (hd : m.declaration outer = .ok d) :
    ∃ inner, bodyTypes m module d = .ok inner ∧ ∀ name ∈ inner, .opened name ∈ events := by
  induction h with
  | nil => simp at houter
  | @cons first e inner names body rest he _ hinner hbody _ ihBody ihRest =>
    have hfqn := hm.fqn_eq (Model.lookup_of_declaration he)
    simp only [List.cons_append, List.mem_cons, List.mem_append, Event.opened.injEq,
      reduceCtorEq, false_or] at houter
    rcases houter with rfl | hin | hin
    · obtain rfl := Except.ok.inj (he.symm.trans (hfqn ▸ hd))
      refine ⟨inner, hinner, fun name hname => ?_⟩
      simp [hbody.opened_of_mem hm hname]
    · obtain ⟨found, hfound, hopened⟩ := ihBody hin
      exact ⟨found, hfound, fun name hname => by simp [hopened name hname]⟩
    · obtain ⟨found, hfound, hopened⟩ := ihRest hin
      exact ⟨found, hfound, fun name hname => by simp [hopened name hname]⟩

theorem opened_of_survives {a : Assembly} {dependencies : List Assembly}
    (hbuild : Model.build a dependencies = .ok m) {fqn : String} (h : m.Survives fqn) :
    ∃ place ∈ m.modules, ∀ checks script, moduleScript m checks place = .ok script →
      .opened fqn ∈ outline script := by
  have hm := Model.faithful_of_build hbuild
  induction h with
  | @intro fqn outer kept member houter hkept hmember hnested haround ih =>
    have hlookup := Model.lookup_of_declaration houter
    cases hkind : outer.isModule with
    | true =>
      have hplace := Model.mem_modules_iff.mpr ⟨⟨_, hlookup⟩, of_decide_eq_true hkind⟩
      refine ⟨outer, hplace, fun checks script hscript => ?_⟩
      obtain ⟨members, hmembers, htour⟩ :=
        tour_of_moduleScript (hm.declaration_of_mem_modules hplace) hscript
      exact htour.opened_of_mem hm (Members.mem_nested_of_select hkept hmembers hmember hnested)
    | false =>
      obtain ⟨place, hplace, hopened⟩ := ih hkind
      refine ⟨place, hplace, fun checks script hscript => ?_⟩
      obtain ⟨members, -, htour⟩ :=
        tour_of_moduleScript (hm.declaration_of_mem_modules hplace) hscript
      obtain ⟨inner, hinner, hbody⟩ :=
        htour.opened_of_body hm (hopened checks script hscript) houter
      apply hbody
      rcases bodyTypes_eq_ok hinner with ⟨hstruct, -⟩ | ⟨arranged, harranged, rfl⟩
      · -- A struct holds no types.
        obtain ⟨name, -, hkeeper⟩ := Outcome.exists_mem_of_mapM hkept hmember
        obtain ⟨nested, rfl, -⟩ := Member.exists_type_of_nested? hnested
        have hfits := Model.fits_of_build hbuild hlookup _ (Members.mem_of_keeper hkeeper)
        exact absurd hstruct hfits.1
      · exact Members.mem_nested_of_select hkept harranged hmember hnested

theorem writtenMembers_eq_ok {d : Declaration} {members : List Member}
    (h : writtenMembers m module d = .ok members) :
    members = [] ∨ Members.arrange m module d.members = .ok members := by
  rw [writtenMembers] at h
  split at h
  · exact .inl (Except.ok.inj h).symm
  · exact .inr h

theorem writtenMembers_subset {d : Declaration} {members : List Member}
    (h : writtenMembers m module d = .ok members) : members ⊆ d.members := by
  rcases writtenMembers_eq_ok h with rfl | harrange
  · exact List.nil_subset _
  · exact Members.arrange_subset harrange

/-- Between the marks before and behind it, something stands in the definition of `outer`: the
members of `outer` that keep their names and are no types come before it, and none comes later. -/
def Behind (outer : Declaration) (pre post : List Mark) : Prop :=
  ∃ kept before body rest after, Members.select outer.members = .ok kept ∧
    pre = before ++ .opened outer.fqn :: body ∧ post = rest ++ .closed outer.fqn :: after ∧
    (∀ member ∈ kept, member.nested? = none → .member member ∈ body) ∧
    ∀ member ∈ outer.members, member.nested? = none → .member member ∉ rest

theorem Behind.extend {outer : Declaration} {pre post : List Mark} (h : Behind outer pre post)
    (start finish : List Mark) : Behind outer (start ++ pre) (post ++ finish) := by
  obtain ⟨kept, before, body, rest, after, hkept, rfl, rfl, hbefore, hbehind⟩ := h
  exact ⟨kept, start ++ before, body, rest, after ++ finish, hkept, by simp, by simp, hbefore,
    hbehind⟩

theorem frame_split {d : Declaration} {members : List Member} {body pre post : List Mark}
    {fqn : String} (h : frame d members body = pre ++ .opened fqn :: post) :
    fqn = d.fqn ∨ ∃ before after, body = before ++ .opened fqn :: after ∧
      pre = .opened d.fqn :: ((members.filter (·.nested?.isNone)).map .member ++ before) ∧
      post = after ++ [.closed d.fqn] := by
  rcases append_eq_append_cons h with ⟨more, hmore, rfl⟩ | ⟨more, -, hmore⟩
  · cases pre with
    | nil => exact .inl (Mark.opened.inj (List.cons.inj hmore).1).symm
    | cons mark pre =>
      obtain ⟨rfl, htail⟩ := List.cons.inj hmore
      rcases append_eq_append_cons htail with ⟨_, hquiet, -⟩ | ⟨before, rfl, hbody⟩
      · have hin : Mark.opened fqn ∈ (members.filter (·.nested?.isNone)).map .member := by
          rw [hquiet]
          simp
        simp at hin
      · exact .inr ⟨before, more, hbody, rfl, rfl⟩
  · have hin : Mark.opened fqn ∈ [Mark.closed d.fqn] := by
      rw [hmore]
      simp
    simp at hin

section Members

variable {a : Assembly} {dependencies : List Assembly}
  (hbuild : Model.build a dependencies = .ok m) (hkeyed : a.Keyed)

include hbuild hkeyed

theorem Walk.member_below {marks : List Mark} (h : Walk m module names marks) {outer : String}
    (hparent : ∀ name ∈ names, parent name = outer) {member : Member}
    (hin : .member member ∈ marks) :
    ∃ fqn d, m.declaration fqn = .ok d ∧ member ∈ d.members ∧
      outer.toList.length < fqn.toList.length := by
  have hm := Model.faithful_of_build hbuild
  induction h generalizing outer with
  | nil => simp at hin
  | @cons first d members names body rest hd hkind hmembers _ _ ihBody ihRest =>
    obtain ⟨rfl, hnames⟩ := List.forall_mem_cons.mp hparent
    have hlonger : (parent first).toList.length < first.toList.length := by
      apply length_parent_lt
      rintro rfl
      exact Model.not_undotted_of_isType hbuild hkeyed ⟨d, hd, hkind⟩ (by decide)
    have hinside : ∀ name ∈ members.filterMap Member.nested?, parent name = first :=
      fun name hname => parent_of_bodyTypes hm hd (bodyTypes_of_writtenMembers hmembers) hname
    simp only [frame, List.cons_append, List.mem_cons, List.mem_append, List.mem_map,
      reduceCtorEq, Mark.member.injEq, exists_eq_right, false_or, or_false,
      List.not_mem_nil] at hin
    rcases hin with ((hquiet | hbody) | hproxy) | hrest
    · have hwritten := writtenMembers_subset hmembers (List.mem_filter.mp hquiet).1
      exact ⟨first, d, hd, hwritten, hlonger⟩
    · obtain ⟨fqn, e, he, hmember, hlength⟩ := ihBody hinside hbody
      exact ⟨fqn, e, he, hmember, hlonger.trans hlength⟩
    · exact ⟨first, d, hd, (mem_proxyMembers hproxy).1, hlonger⟩
    · exact ihRest hnames hrest

theorem Walk.behind_members {d : Declaration} {first : String} (hd : m.declaration first = .ok d)
    {members : List Member} (hmembers : writtenMembers m module d = .ok members)
    {before after : List Mark} {fqn : String} (hname : fqn ∈ members.filterMap Member.nested?)
    (h : Walk m module (members.filterMap Member.nested?) (before ++ .opened fqn :: after))
    (finish : List Mark) :
    Behind d (.opened d.fqn :: ((members.filter (·.nested?.isNone)).map .member ++ before))
      (after ++ .closed d.fqn :: finish) := by
  have hm := Model.faithful_of_build hbuild
  have hlookup := Model.lookup_of_declaration hd
  obtain ⟨type, htype, hnested⟩ := List.mem_filterMap.mp hname
  have harrange : Members.arrange m module d.members = .ok members := by
    rcases writtenMembers_eq_ok hmembers with rfl | harrange
    · simp at htype
    · exact harrange
  obtain ⟨kept, hkept, hperm⟩ := Members.arrange_perm harrange
  refine ⟨kept, [], _, after, finish, hkept, rfl, rfl, fun member hmember hquiet => ?_, ?_⟩
  · have hin : member ∈ members.filter (·.nested?.isNone) :=
      List.mem_filter.mpr ⟨hperm.symm.subset hmember, by simp [hquiet]⟩
    exact List.mem_append_left _ (List.mem_map_of_mem hin)
  · -- What is written later belongs to types inside, and a member of `d` to `d` only.
    intro member hmember hquiet hin
    have hinside : ∀ name ∈ members.filterMap Member.nested?, parent name = first :=
      fun name hname => parent_of_arrange hm hd harrange hname
    obtain ⟨inner, e, he, hmember', hlength⟩ := h.member_below hbuild hkeyed hinside
      (List.mem_append_right before (List.mem_cons_of_mem _ hin))
    have hfits := Model.fits_of_build hbuild hlookup
    have hfits' := Model.fits_of_build hbuild (Model.lookup_of_declaration he)
    obtain ⟨nested, rfl, -⟩ := Member.exists_type_of_nested? hnested
    obtain ⟨hstruct, henum⟩ := hfits _ (Members.arrange_subset harrange htype)
    have hsame : d.fqn = e.fqn :=
      Model.fqn_eq_of_fits (hfits member hmember) (hfits' member hmember') hstruct henum hquiet
    rw [hm.fqn_eq hlookup, hm.fqn_eq (Model.lookup_of_declaration he)] at hsame
    rw [hsame] at hlength
    exact Nat.lt_irrefl _ hlength

theorem Walk.behind {marks : List Mark} (h : Walk m module names marks) {fqn : String}
    {pre post : List Mark} (hsplit : marks = pre ++ .opened fqn :: post) :
    fqn ∈ names ∨ ∃ outer, m.declaration (parent fqn) = .ok outer ∧ Behind outer pre post := by
  have hm := Model.faithful_of_build hbuild
  induction h generalizing pre post with
  | nil => simp at hsplit
  | @cons first d members names body rest hd hkind hmembers hbody _ ihBody ihRest =>
    have hfqn := hm.fqn_eq (Model.lookup_of_declaration hd)
    rcases append_eq_append_cons hsplit with ⟨more, hmore, rfl⟩ | ⟨more, rfl, hmore⟩
    · rcases append_eq_append_cons hmore with ⟨more, hframe, rfl⟩ | ⟨more, -, hproxy⟩
      · rcases frame_split hframe with rfl | ⟨before, after, hinner, rfl, rfl⟩
        · exact .inl (hfqn ▸ List.mem_cons_self)
        · rcases ihBody hinner with hname | ⟨outer, houter, hbehind⟩
          · have hparent : parent fqn = first :=
              parent_of_bodyTypes hm hd (bodyTypes_of_writtenMembers hmembers) hname
            refine .inr ⟨d, hparent ▸ hd, ?_⟩
            have hbehind := Walk.behind_members hbuild hkeyed hd hmembers hname (hinner ▸ hbody)
              ((proxyMembers d).map .member ++ rest)
            simpa using hbehind
          · refine .inr ⟨outer, houter, ?_⟩
            have hextended := hbehind.extend
              (.opened d.fqn :: (members.filter (·.nested?.isNone)).map .member)
              ([.closed d.fqn] ++ (proxyMembers d).map .member ++ rest)
            simpa using hextended
      · have hin : Mark.opened fqn ∈ (proxyMembers d).map Mark.member := by
          rw [hproxy]
          simp
        simp at hin
    · rcases ihRest hmore with hname | ⟨outer, houter, hbehind⟩
      · exact .inl (List.mem_cons_of_mem first hname)
      · refine .inr ⟨outer, houter, ?_⟩
        have hextended := hbehind.extend (frame d members body ++ (proxyMembers d).map .member) []
        simpa using hextended

end Members

theorem renderAll_spec {checks : Bool} {rendered : List Rendered}
    (h : renderAll m checks = .ok rendered) :
    (∀ r ∈ rendered, outline r.script = [] ∨ ∃ place ∈ m.modules, r.fqn? = some place.fqn ∧
      moduleScript m checks place = .ok r.script) ∧
    (∀ place ∈ m.modules, ∃ r ∈ rendered, moduleScript m checks place = .ok r.script) ∧
    rendered.map (·.fqn?) = none :: m.modules.map (some ·.fqn) := by
  simp only [renderAll, Outcome.bind_eq_ok, Outcome.pure_eq_ok] at h
  obtain ⟨loader, -, script, hloader, modules, hmodules, rfl⟩ := h
  refine ⟨fun r hr => ?_, fun place hplace => ?_, ?_⟩
  · rcases List.mem_cons.mp hr with rfl | hin
    · exact .inl (outline_of_skeleton (skeleton_loaderScript hloader))
    · obtain ⟨place, hplace, hrendered⟩ := Outcome.exists_mem_of_mapM hmodules hin
      simp only [Outcome.bind_eq_ok, Outcome.pure_eq_ok] at hrendered
      obtain ⟨script, hscript, rfl⟩ := hrendered
      exact .inr ⟨place, hplace, rfl, hscript⟩
  · obtain ⟨r, hr, hrendered⟩ := Outcome.exists_mem_mapM hmodules hplace
    simp only [Outcome.bind_eq_ok, Outcome.pure_eq_ok] at hrendered
    obtain ⟨script, hscript, rfl⟩ := hrendered
    exact ⟨_, List.mem_cons_of_mem _ hr, hscript⟩
  · rw [List.map_cons, Outcome.map_eq_map_of_mapM ?_ hmodules]
    intro place r hr
    simp only [Outcome.bind_eq_ok, Outcome.pure_eq_ok] at hr
    obtain ⟨_, -, rfl⟩ := hr
    rfl

theorem nodup_modules (hm : m.Faithful) : (m.modules.map (·.fqn)).Nodup := by
  have hdistinct : (m.symbols.entries.values.map (·.fqn)).Nodup :=
    OrderedMap.nodup_map_values fun _ hpair => hm.fqn_eq (OrderedMap.find?_eq_some_iff.mpr hpair)
  exact hdistinct.sublist ((List.filter_sublist).map _)

section Rendered

variable {a : Assembly} {dependencies : List Assembly}
  (hbuild : Model.build a dependencies = .ok m) (hkeyed : a.Keyed)

include hbuild hkeyed

theorem placed_of_moduleScript {place : Declaration} (hplace : place ∈ m.modules) {checks : Bool}
    {script : Script} (h : moduleScript m checks place = .ok script) {fqn : String}
    {pre post : Script} (hsplit : script = pre ++ .mark (.opened fqn) :: post) :
    m.home? fqn = some place.fqn ∧ unclosed pre = m.enclosingTypes fqn ∧
      ∀ outer, m.declaration (parent fqn) = .ok outer → outer.isModule = false →
        Behind outer (skeleton pre) (skeleton post) := by
  have hm := Model.faithful_of_build hbuild
  have hself := hm.declaration_of_mem_modules hplace
  have hmodule : place.isModule = true := decide_eq_true (Model.mem_modules_iff.mp hplace).2
  have hnot : ∀ d, m.declaration place.fqn = .ok d → d.isModule = true := by
    intro d hd
    rwa [← Except.ok.inj (hself.symm.trans hd)]
  obtain ⟨members, hmembers, hwalk⟩ := walk_of_moduleScript hself h
  have hparent : ∀ name ∈ members.filterMap Member.nested?, parent name = place.fqn :=
    fun name hname => parent_of_arrange hm hself hmembers hname
  have htour := hwalk.tour
  rw [events_skeleton] at htour
  have hevents : outline script = outline pre ++ .opened fqn :: outline post := by
    rw [hsplit]
    simp
  have hmarks : skeleton script = skeleton pre ++ .opened fqn :: skeleton post := by
    rw [hsplit]
    simp
  obtain ⟨inside, hstands, hopen⟩ := htour.stands hbuild hkeyed hparent hevents []
  obtain ⟨hhome, hinside⟩ := hstands.places hbuild hkeyed fun ⟨d, hd, hkind⟩ => by
    rw [hnot d hd] at hkind
    cases hkind
  refine ⟨hhome, ?_, fun outer houter hkind => ?_⟩
  · rw [hinside, unclosed, hopen, List.append_nil]
  · rcases hwalk.behind hbuild hkeyed hmarks with hname | ⟨outer', houter', hbehind⟩
    · rw [hparent fqn hname] at houter
      rw [hnot outer houter] at hkind
      cases hkind
    · obtain rfl := Except.ok.inj (houter.symm.trans houter')
      exact hbehind

theorem nodup_openings {place : Declaration} (hplace : place ∈ m.modules) {checks : Bool}
    {script : Script} (h : moduleScript m checks place = .ok script) : (openings script).Nodup := by
  have hm := Model.faithful_of_build hbuild
  have hself := hm.declaration_of_mem_modules hplace
  obtain ⟨members, hmembers, htour⟩ := tour_of_moduleScript hself h
  have hparent : ∀ name ∈ members.filterMap Member.nested?, parent name = place.fqn :=
    fun name hname => parent_of_arrange hm hself hmembers hname
  have hnames := Members.nodup_nested_of_arrange hmembers (Model.nodup_nested hbuild hkeyed hself)
  exact htour.nodup_opened hbuild hkeyed hparent hnames

theorem survives_of_opening {place : Declaration} (hplace : place ∈ m.modules) {checks : Bool}
    {script : Script} (h : moduleScript m checks place = .ok script) {fqn : String}
    (hfqn : fqn ∈ openings script) : fqn ∈ a.types.keys ∧ m.Survives fqn := by
  have hm := Model.faithful_of_build hbuild
  have hself := hm.declaration_of_mem_modules hplace
  have hmodule : place.isModule = true := decide_eq_true (Model.mem_modules_iff.mp hplace).2
  obtain ⟨members, hmembers, htour⟩ := tour_of_moduleScript hself h
  have hopened := mem_opened.mp hfqn
  constructor
  · obtain ⟨_, hstands⟩ := htour.stands_of_mem hbuild hkeyed
      (fun name hname => parent_of_arrange hm hself hmembers hname) hopened
    rw [← Model.types_of_build hbuild, ← Model.isType_iff hbuild hkeyed]
    exact hstands.types fqn List.mem_cons_self
  · refine htour.survives hm (fun name hname => ?_) hopened
    refine survives_of_arrange hm hself (fun hkind => ?_) hmembers hname
    rw [hmodule] at hkind
    cases hkind

def written (rendered : List Rendered) : List String :=
  rendered.flatMap fun r => openings r.script

variable {checks : Bool} {rendered : List Rendered} (hrender : renderAll m checks = .ok rendered)

include hrender

theorem place_of_opening {r : Rendered} (hr : r ∈ rendered) {fqn : String}
    (hfqn : fqn ∈ openings r.script) : ∃ place ∈ m.modules, r.fqn? = some place.fqn ∧
      m.home? fqn = some place.fqn ∧ moduleScript m checks place = .ok r.script := by
  rcases (renderAll_spec hrender).1 r hr with hquiet | ⟨place, hplace, hname, hscript⟩
  · rw [openings, hquiet] at hfqn
    exact absurd hfqn List.not_mem_nil
  · obtain ⟨pre, post, hsplit⟩ := List.append_of_mem (mem_outline.mp (mem_opened.mp hfqn))
    have hhome := (placed_of_moduleScript hbuild hkeyed hplace hscript hsplit).1
    exact ⟨place, hplace, hname, hhome, hscript⟩

theorem nodup_written : (written rendered).Nodup := by
  have hdistinct : (rendered.map (·.fqn?)).Nodup := by
    have hmodules := (nodup_modules (Model.faithful_of_build hbuild)).map
      (Option.some_injective String)
    rw [List.map_map] at hmodules
    rw [(renderAll_spec hrender).2.2, List.nodup_cons]
    exact ⟨by simp, hmodules⟩
  rw [written, List.nodup_flatMap]
  constructor
  · intro r hr
    rcases (renderAll_spec hrender).1 r hr with hquiet | ⟨place, hplace, -, hscript⟩
    · rw [openings, hquiet]
      exact List.nodup_nil
    · exact nodup_openings hbuild hkeyed hplace hscript
  · -- Two modules that open one type bear the name of the module around it.
    refine (List.pairwise_map.mp hdistinct).imp_of_mem fun hr hr' hne fqn hfqn hfqn' => hne ?_
    obtain ⟨place, -, hname, hhome, -⟩ := place_of_opening hbuild hkeyed hrender hr hfqn
    obtain ⟨place', -, hname', hhome', -⟩ := place_of_opening hbuild hkeyed hrender hr' hfqn'
    rw [hname, hname', ← hhome, ← hhome']

theorem mem_written_iff {fqn : String} :
    fqn ∈ written rendered ↔ fqn ∈ a.types.keys ∧ m.Survives fqn := by
  rw [written, List.mem_flatMap]
  constructor
  · rintro ⟨r, hr, hfqn⟩
    obtain ⟨place, hplace, -, -, hscript⟩ := place_of_opening hbuild hkeyed hrender hr hfqn
    exact survives_of_opening hbuild hkeyed hplace hscript hfqn
  · rintro ⟨-, hsurvives⟩
    obtain ⟨place, hplace, hopened⟩ := opened_of_survives hbuild hsurvives
    obtain ⟨r, hr, hscript⟩ := (renderAll_spec hrender).2.1 place hplace
    exact ⟨r, hr, mem_opened.mpr (hopened checks r.script hscript)⟩

end Rendered

/-- Every type that survives is written once, and nothing else is written. A type is written in the
module around it, inside the types around it and behind the methods and properties there. The
module is its owner, unless the name of the module is empty and that of the assembly is not. -/
theorem types_written_once {a : Assembly} {dependencies : List Assembly} (hkeyed : a.Keyed)
    (hbuild : Model.build a dependencies = .ok m) {checks : Bool} {rendered : List Rendered}
    (hrender : renderAll m checks = .ok rendered) :
    (written rendered).Nodup ∧
    (∀ fqn, fqn ∈ written rendered ↔ fqn ∈ a.types.keys ∧ m.Survives fqn) ∧
    ∀ r ∈ rendered, ∀ fqn pre post, r.script = pre ++ .mark (.opened fqn) :: post →
      r.fqn? = m.home? fqn ∧
      (r.fqn? = some (m.owner fqn) ↔ (m.home? fqn = some "" → m.assembly.name = "")) ∧
      unclosed pre = m.enclosingTypes fqn ∧
      ∀ outer, m.declaration (parent fqn) = .ok outer → outer.isModule = false →
        Behind outer (skeleton pre) (skeleton post) := by
  refine ⟨nodup_written hbuild hkeyed hrender, fun fqn => mem_written_iff hbuild hkeyed hrender,
    fun r hr fqn pre post hsplit => ?_⟩
  have hfqn : fqn ∈ openings r.script := by
    rw [openings, mem_opened, hsplit]
    simp
  obtain ⟨place, hplace, hname, hhome, hscript⟩ := place_of_opening hbuild hkeyed hrender hr hfqn
  obtain ⟨-, hopen, hbehind⟩ := placed_of_moduleScript hbuild hkeyed hplace hscript hsplit
  refine ⟨hname.trans hhome.symm, ?_, hopen, hbehind⟩
  rw [hname, hhome, Model.owner_eq_home hbuild hkeyed hhome, Option.some_inj, Option.some_inj]
  by_cases hempty : place.fqn = ""
  · rw [hempty, if_pos rfl]
    exact ⟨fun heq _ => heq.symm, fun heq => (heq rfl).symm⟩
  · simp [hempty]

def spareParts : Assembly :=
  { (Assembly.ofModule "Acme" "1.0.0" "acme").withSubmodule "Acme.core" none with
    types := .ofList [
      ("Acme.core.Engine", .class {
        ClassType.ofFqn "Acme.core.Engine" with methods := [{ name := "run" }] }),
      ("Acme.core.Engine.Spare", .class {
        ClassType.ofFqn "Acme.core.Engine.Spare" with
          name := "Part", docs := some { deprecated := some "Take the other one." } }),
      ("Acme.core.Engine.Spare.Bolt", .class (.ofFqn "Acme.core.Engine.Spare.Bolt")),
      ("Acme.core.Engine.Part", .class (.ofFqn "Acme.core.Engine.Part"))] }

def renderedModel (a : Assembly) : Outcome (Model × List Rendered) := do
  let m ← Model.build a []
  return (m, ← renderAll m true)

theorem renderedModel_eq_ok {a : Assembly} {rendered : List Rendered}
    (h : renderedModel a = .ok (m, rendered)) :
    Model.build a [] = .ok m ∧ renderAll m true = .ok rendered := by
  simp only [renderedModel, Outcome.bind_eq_ok, Outcome.pure_eq_ok] at h
  obtain ⟨_, hbuild, _, hrender, heq⟩ := h
  obtain ⟨rfl, rfl⟩ := Prod.mk.inj heq
  exact ⟨hbuild, hrender⟩

def openedTypes (rendered : List Rendered) : List (Option String × List String) :=
  rendered.map fun r => (r.fqn?, openings r.script)

theorem mem_rendered_of_openedTypes {rendered : List Rendered} {fqn? : Option String}
    {names : List String} (h : (fqn?, names) ∈ openedTypes rendered) :
    ∃ r ∈ rendered, r.fqn? = fqn? ∧ openings r.script = names := by
  obtain ⟨r, hr, heq⟩ := List.mem_map.mp h
  exact ⟨r, hr, Prod.mk.inj heq⟩

theorem openedTypes_spareParts :
    ((renderedModel spareParts).toOption.map fun (m, rendered) =>
      (openedTypes rendered, m.enclosingTypes "Acme.core.Engine.Part",
        (m.declaration "Acme.core.Engine").toOption.map Declaration.isModule)) =
      some ([(none, []), (some "Acme", []),
        (some "Acme.core", ["Acme.core.Engine", "Acme.core.Engine.Part"])],
        ["Acme.core.Engine"], some false) := by
  decide +kernel

theorem types_written_once_spare :
    spareParts.Keyed ∧ ∃ m rendered, Model.build spareParts [] = .ok m ∧
      renderAll m true = .ok rendered ∧ m.Survives "Acme.core.Engine.Part" ∧
      ¬ m.Survives "Acme.core.Engine.Spare.Bolt" ∧
      ∃ r ∈ rendered, ∃ pre post outer, r.fqn? = some "Acme.core" ∧
        r.script = pre ++ .mark (.opened "Acme.core.Engine.Part") :: post ∧
        unclosed pre = ["Acme.core.Engine"] ∧ m.declaration "Acme.core.Engine" = .ok outer ∧
        Behind outer (skeleton pre) (skeleton post) := by
  have hkeyed : spareParts.Keyed := by decide +kernel
  obtain ⟨⟨m, rendered⟩, hrendered, hview⟩ := Outcome.exists_eq_ok_of_map openedTypes_spareParts
  obtain ⟨hbuild, hrender⟩ := renderedModel_eq_ok hrendered
  obtain ⟨hopened, hinside, hengine⟩ : openedTypes rendered = [(none, []), (some "Acme", []),
        (some "Acme.core", ["Acme.core.Engine", "Acme.core.Engine.Part"])] ∧
      m.enclosingTypes "Acme.core.Engine.Part" = ["Acme.core.Engine"] ∧
      (m.declaration "Acme.core.Engine").toOption.map Declaration.isModule = some false := by
    simpa only [Prod.mk.injEq] using hview
  have hwritten : written rendered = ["Acme.core.Engine", "Acme.core.Engine.Part"] := by
    have hall := congrArg (List.flatMap Prod.snd) hopened
    rwa [openedTypes, List.flatMap_map] at hall
  obtain ⟨outer, houter, hkind⟩ := Outcome.exists_eq_ok_of_map hengine
  obtain ⟨-, hsurvives, hplaces⟩ := types_written_once hkeyed hbuild hrender
  have hpart := (hsurvives "Acme.core.Engine.Part").mp (by simp [hwritten])
  have hbolt : ¬ m.Survives "Acme.core.Engine.Spare.Bolt" := fun hbolt => by
    have hin := (hsurvives "Acme.core.Engine.Spare.Bolt").mpr ⟨by decide +kernel, hbolt⟩
    simp [hwritten] at hin
  obtain ⟨r, hr, hname, hopenings⟩ := mem_rendered_of_openedTypes
    (show (some "Acme.core", ["Acme.core.Engine", "Acme.core.Engine.Part"]) ∈
      openedTypes rendered by simp [hopened])
  have hin : "Acme.core.Engine.Part" ∈ openings r.script := by simp [hopenings]
  obtain ⟨pre, post, hsplit⟩ := List.append_of_mem (mem_outline.mp (mem_opened.mp hin))
  obtain ⟨-, -, hopen, hbehind⟩ := hplaces r hr _ pre post hsplit
  have hparent : parent "Acme.core.Engine.Part" = "Acme.core.Engine" := by decide +kernel
  exact ⟨hkeyed, m, rendered, hbuild, hrender, hpart.2, hbolt, r, hr, pre, post, outer, hname,
    hsplit, hopen.trans hinside, houter, hbehind outer (hparent ▸ houter) hkind⟩

def namelessModule : Assembly :=
  { ((Assembly.ofModule "Acme" "1.0.0" "acme").withSubmodule "" none).withType
      (.class (.ofFqn ".x")) with
    closure := SortedMap.empty.insert "" { targets := .ofModule "void" } }

theorem openedTypes_namelessModule :
    ((renderedModel namelessModule).toOption.map fun (m, rendered) =>
      (openedTypes rendered, m.owner ".x")) =
      some ([(none, []), (some "Acme", []), (some "", [".x"])], "Acme") := by
  decide +kernel

theorem nameless_module_not_owner :
    ¬ ∀ (a : Assembly) (dependencies : List Assembly) (m : Model) (checks : Bool)
      (rendered : List Rendered) (r : Rendered) (fqn : String) (pre post : Script),
      a.Keyed → Model.build a dependencies = .ok m → renderAll m checks = .ok rendered →
      r ∈ rendered → r.script = pre ++ .mark (.opened fqn) :: post →
      r.fqn? = some (m.owner fqn) := by
  intro h
  obtain ⟨⟨m, rendered⟩, hrendered, hview⟩ :=
    Outcome.exists_eq_ok_of_map openedTypes_namelessModule
  obtain ⟨hbuild, hrender⟩ := renderedModel_eq_ok hrendered
  obtain ⟨hopened, howner⟩ := Prod.mk.inj hview
  obtain ⟨r, hr, hname, hopenings⟩ := mem_rendered_of_openedTypes
    (show (some "", [".x"]) ∈ openedTypes rendered by simp [hopened])
  have hin : ".x" ∈ openings r.script := by simp [hopenings]
  obtain ⟨pre, post, hsplit⟩ := List.append_of_mem (mem_outline.mp (mem_opened.mp hin))
  have hsame := h _ _ m true rendered r _ pre post (by decide +kernel) hbuild hrender hr hsplit
  rw [hname, howner] at hsame
  simp at hsame

end Binding

end Bindery
