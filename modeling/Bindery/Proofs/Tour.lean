import Bindery.Proofs.MemberOrder
import Bindery.Proofs.Model
import Bindery.Proofs.Outline
import Mathlib.Tactic.Tauto

/-!
# Tours of declarations

The outline of a module is a tour: every type is opened, the types in its body are visited one
after the other, and the type is closed. The types of a body are the members that survive the
arrangement, in their order, so a tour is determined by the names where it begins. The skeleton of
a module is a walk, which shows in addition the members that are no types.
-/

namespace Bindery.Binding

variable {m : Model} {module : String}

def bodyTypes (m : Model) (module : String) (d : Declaration) : Outcome (List String) :=
  match d.shape with
  | .struct _ => .ok []
  | _ => do return (← Members.arrange m module d.members).filterMap Member.nested?

/-- The events of visiting some types, one after the other. -/
inductive Tour (m : Model) (module : String) : List String → List Event → Prop
  | nil : Tour m module [] []
  | cons {fqn : String} {d : Declaration} {inner names : List String} {body rest : List Event}
      (hd : m.declaration fqn = .ok d) (hkind : d.isModule = false)
      (hinner : bodyTypes m module d = .ok inner) (hbody : Tour m module inner body)
      (hrest : Tour m module names rest) :
      Tour m module (fqn :: names) (.opened d.fqn :: body ++ .closed d.fqn :: rest)

theorem Tour.append {names names' : List String} {events events' : List Event}
    (h : Tour m module names events) (h' : Tour m module names' events') :
    Tour m module (names ++ names') (events ++ events') := by
  induction h with
  | nil => exact h'
  | cons hd hkind hinner hbody _ _ ih =>
    have hcons := Tour.cons hd hkind hinner hbody ih
    simpa using hcons

structure Context.Within (ctx : Context) (m : Model) (module : String) : Prop where
  model : ctx.model = m
  module : ∃ d, m.declaration ctx.scope.module = .ok d ∧ d.name = module

theorem Context.Within.inside {ctx : Context} (h : ctx.Within m module) (fqn : String) :
    (ctx.inside fqn).Within m module :=
  ⟨h.model, h.module⟩

theorem bodyMembers_eq {ctx : Context} (h : ctx.Within m module) (d : Declaration) :
    bodyMembers ctx d = Members.arrange m module d.members := by
  obtain ⟨place, hplace, hname⟩ := h.module
  rw [bodyMembers]
  cases hmembers : d.members with
  | nil => rfl
  | cons member members =>
    rw [h.model, hplace, ← hname]
    rfl

def writtenMembers (m : Model) (module : String) (d : Declaration) : Outcome (List Member) :=
  match d.shape with
  | .struct _ => .ok []
  | _ => Members.arrange m module d.members

def frame (d : Declaration) (members : List Member) (body : List Mark) : List Mark :=
  .opened d.fqn :: ((members.filter (·.nested?.isNone)).map .member ++ body) ++ [.closed d.fqn]

/-- The skeleton of visiting some types, one after the other. The members of its proxy follow the
definition of a type. -/
inductive Walk (m : Model) (module : String) : List String → List Mark → Prop
  | nil : Walk m module [] []
  | cons {fqn : String} {d : Declaration} {members : List Member} {names : List String}
      {body rest : List Mark} (hd : m.declaration fqn = .ok d) (hkind : d.isModule = false)
      (hmembers : writtenMembers m module d = .ok members)
      (hbody : Walk m module (members.filterMap Member.nested?) body)
      (hrest : Walk m module names rest) :
      Walk m module (fqn :: names) (frame d members body ++ (proxyMembers d).map .member ++ rest)

theorem Walk.append {names names' : List String} {marks marks' : List Mark}
    (h : Walk m module names marks) (h' : Walk m module names' marks') :
    Walk m module (names ++ names') (marks ++ marks') := by
  induction h with
  | nil => exact h'
  | cons hd hkind hmembers hbody _ _ ih =>
    rw [List.append_assoc]
    exact .cons hd hkind hmembers hbody ih

theorem events_frame (d : Declaration) (members : List Member) (body : List Mark) :
    events (frame d members body) = .opened d.fqn :: events body ++ [.closed d.fqn] := by
  have hinner : events ((members.filter (·.nested?.isNone)).map .member ++ body) = events body := by
    rw [events_append, events_members, List.nil_append]
  rw [← hinner, frame, events_append]
  rfl

theorem bodyTypes_of_writtenMembers {d : Declaration} {members : List Member}
    (h : writtenMembers m module d = .ok members) :
    bodyTypes m module d = .ok (members.filterMap Member.nested?) := by
  rw [writtenMembers] at h
  rw [bodyTypes]
  split at h
  · obtain rfl := Except.ok.inj h
    rfl
  · rw [h]
    rfl

theorem Walk.tour {names : List String} {marks : List Mark} (h : Walk m module names marks) :
    Tour m module names (events marks) := by
  induction h with
  | nil => exact .nil
  | @cons fqn d members names body rest hd hkind hmembers _ _ ihBody ihRest =>
    have htour := Tour.cons hd hkind (bodyTypes_of_writtenMembers hmembers) ihBody ihRest
    simpa [events_append, events_frame] using htour

def IsDefinition (m : Model) (module : String) (d : Declaration) (marks : List Mark) : Prop :=
  d.isModule = false ∧ ∃ members body, writtenMembers m module d = .ok members ∧
    Walk m module (members.filterMap Member.nested?) body ∧ marks = frame d members body

theorem IsDefinition.walk {fqn : String} {d : Declaration} (hd : m.declaration fqn = .ok d)
    {marks : List Mark} (h : IsDefinition m module d marks) :
    Walk m module [fqn] (marks ++ (proxyMembers d).map .member) := by
  obtain ⟨hkind, members, body, hmembers, hbody, rfl⟩ := h
  have hwalk := Walk.cons hd hkind hmembers hbody .nil
  rwa [List.append_nil] at hwalk

theorem IsDefinition.tour {fqn : String} {d : Declaration} (hd : m.declaration fqn = .ok d)
    {marks : List Mark} (h : IsDefinition m module d marks) :
    Tour m module [fqn] (events marks) := by
  have htour := (h.walk hd).tour
  rwa [events_append, events_members, List.append_nil] at htour

theorem skeleton_classScript {nesting : Nesting} {ctx : Context} {d : Declaration}
    {params : List String} {between script : Script} (hctx : ctx.Within m module)
    (hbetween : skeleton between = []) (h : classScript nesting ctx d params between = .ok script) :
    ∃ members scripts, Members.arrange m module d.members = .ok members ∧
      members.mapM (memberScript nesting ctx .declared) = .ok scripts ∧
      skeleton script = scripts.flatMap skeleton := by
  simp only [classScript, Outcome.bind_eq_ok, Outcome.pure_eq_ok, bodyMembers_eq hctx] at h
  obtain ⟨members, hmembers, scripts, hscripts, rfl⟩ := h
  refine ⟨members, scripts, hmembers, hscripts, ?_⟩
  cases hempty : d.members with
  | nil =>
    rw [hempty] at hmembers
    obtain rfl : [] = members := Except.ok.inj hmembers
    obtain rfl : [] = scripts := Except.ok.inj hscripts
    simp
  | cons member more => simp [skeleton_intercalate hbetween]

def Walks (m : Model) (module : String) (nesting : Nesting) : Prop :=
  ∀ ctx fqn script, ctx.Within m module → nesting ctx fqn = .ok script →
    Walk m module [fqn] (skeleton script)

theorem walk_of_typeScripts {nesting : Nesting} (hnesting : Walks m module nesting)
    {ctx : Context} (hctx : ctx.Within m module) {style : Style} {types : List Member}
    {scripts : List Script} (htypes : ∀ member ∈ types, member.nested?.isSome)
    (h : types.mapM (memberScript nesting ctx style) = .ok scripts) :
    Walk m module (types.filterMap Member.nested?) (scripts.flatMap skeleton) := by
  induction Outcome.mapM_eq_ok.mp h with
  | nil => exact .nil
  | @cons member script members scripts hmember hrest ih =>
    obtain ⟨hfirst, hmembers⟩ := List.forall_mem_cons.mp htypes
    obtain ⟨fqn, hnested⟩ := Option.isSome_iff_exists.mp hfirst
    have hskeleton := skeleton_memberScript hmember
    rw [hnested] at hskeleton
    obtain ⟨inner, hinner, heq⟩ := hskeleton
    rw [List.flatMap_cons, List.filterMap_cons_some hnested, heq]
    exact (hnesting ctx fqn inner hctx hinner).append (ih hmembers (Outcome.mapM_eq_ok.mpr hrest))

theorem skeleton_of_arrange {nesting : Nesting} (hnesting : Walks m module nesting)
    {ctx : Context} (hctx : ctx.Within m module) {style : Style} {given members : List Member}
    {scripts : List Script} (harrange : Members.arrange m module given = .ok members)
    (h : members.mapM (memberScript nesting ctx style) = .ok scripts) :
    ∃ body, Walk m module (members.filterMap Member.nested?) body ∧
      scripts.flatMap skeleton = (members.filter (·.nested?.isNone)).map .member ++ body := by
  obtain ⟨quiet, types, rfl, hquiet, htypes⟩ := Members.arrange_eq_append harrange
  simp only [List.mapM_append, Outcome.bind_eq_ok, Outcome.pure_eq_ok] at h
  obtain ⟨first, hfirst, second, hsecond, rfl⟩ := h
  have hnone : quiet.filterMap Member.nested? = [] := List.filterMap_eq_nil_iff.mpr hquiet
  have hfilter : (quiet ++ types).filter (·.nested?.isNone) = quiet := by
    rw [List.filter_append, List.filter_eq_self.mpr, List.filter_eq_nil_iff.mpr, List.append_nil]
    · intro member hmember
      simpa [Option.isSome_iff_ne_none] using htypes member hmember
    · intro member hmember
      simp [hquiet member hmember]
  refine ⟨second.flatMap skeleton, ?_, ?_⟩
  · rw [List.filterMap_append, hnone, List.nil_append]
    exact walk_of_typeScripts hnesting hctx htypes hsecond
  · rw [List.flatMap_append, skeleton_memberScripts hquiet hfirst, hfilter]

theorem isDefinition_of_classScript {nesting : Nesting} (hnesting : Walks m module nesting)
    {ctx : Context} (hctx : ctx.Within m module) {d : Declaration} (hstruct : d.shape.kind ≠ .struct)
    (hmodule : d.shape.kind ≠ .module) {params : List String} {between script : Script}
    (hbetween : skeleton between = []) (h : classScript nesting ctx d params between = .ok script) :
    IsDefinition m module d (.opened d.fqn :: skeleton script ++ [.closed d.fqn]) := by
  obtain ⟨members, scripts, hmembers, hscripts, heq⟩ := skeleton_classScript hctx hbetween h
  obtain ⟨body, hbody, hskeleton⟩ := skeleton_of_arrange hnesting hctx hmembers hscripts
  have hwritten : writtenMembers m module d = .ok members := by
    rw [writtenMembers]
    split
    · rename_i bases hshape
      exact absurd (by rw [hshape]; rfl) hstruct
    · exact hmembers
  refine ⟨by simpa [Declaration.isModule] using hmodule, members, body, hwritten, hbody, ?_⟩
  rw [heq, hskeleton, frame]

theorem isDefinition_of_shapeScript {nesting : Nesting} (hnesting : Walks m module nesting)
    {ctx : Context} (hctx : ctx.Within m module) {d : Declaration} {script : Script}
    (h : shapeScript nesting ctx d = .ok script) :
    IsDefinition m module d (.opened d.fqn :: skeleton script ++ [.closed d.fqn]) := by
  have hinside := hctx.inside d.fqn
  rw [shapeScript] at h
  split at h
  · rename_i base interfaces isAbstract abstractBases hshape
    simp only [Outcome.bind_eq_ok, Outcome.pure_eq_ok] at h
    obtain ⟨implemented, -, bases, -, body, hbody, rfl⟩ := h
    have hdefinition := isDefinition_of_classScript hnesting hinside
      (by simp [hshape, Shape.kind]) (by simp [hshape, Shape.kind]) (by simp) hbody
    simpa [implementsScript] using hdefinition
  · rename_i interfaces hshape
    simp only [Outcome.bind_eq_ok, Outcome.pure_eq_ok] at h
    obtain ⟨bases, -, body, hbody, rfl⟩ := h
    have hdefinition := isDefinition_of_classScript hnesting hinside
      (by simp [hshape, Shape.kind]) (by simp [hshape, Shape.kind]) (by simp) hbody
    simpa [registration] using hdefinition
  · rename_i hshape
    simp only [Outcome.bind_eq_ok, Outcome.pure_eq_ok] at h
    obtain ⟨body, hbody, rfl⟩ := h
    have hdefinition := isDefinition_of_classScript hnesting hinside
      (by simp [hshape, Shape.kind]) (by simp [hshape, Shape.kind]) (by simp) hbody
    simpa [registration] using hdefinition
  · rename_i bases hshape
    refine ⟨by simp [Declaration.isModule, hshape, Shape.kind], [], [], ?_, .nil, ?_⟩
    · rw [writtenMembers, hshape]
    · rw [skeleton_structScript h]
      rfl
  · cases h

theorem isDefinition_of_define {fuel : ℕ} {ctx : Context} (hctx : ctx.Within m module)
    {d : Declaration} {script : Script} (h : define fuel ctx d = .ok script) :
    IsDefinition m module d (skeleton script) := by
  induction fuel generalizing ctx d script with
  | zero => cases h
  | succ fuel ih =>
    simp only [define, definitionScript, Outcome.bind_eq_ok, Outcome.pure_eq_ok] at h
    obtain ⟨shape, hshape, rfl⟩ := h
    have hdefinition : IsDefinition m module d (.opened d.fqn :: skeleton shape ++
        [.closed d.fqn]) := by
      refine isDefinition_of_shapeScript ?_ hctx hshape
      intro inner name nested hinner hnested
      simp only [Outcome.bind_eq_ok, Outcome.pure_eq_ok] at hnested
      obtain ⟨declaration, hdeclaration, definition, hdefinition, epilogue, hepilogue, rfl⟩ :=
        hnested
      rw [hinner.model] at hdeclaration
      rw [skeleton_append, skeleton_epilogueScript hepilogue]
      exact (ih hinner hdefinition).walk hdeclaration
    simpa using hdefinition

theorem tour_of_define {fuel : ℕ} {ctx : Context} (hctx : ctx.Within m module) {fqn : String}
    {d : Declaration} (hd : m.declaration fqn = .ok d) {script : Script}
    (h : define fuel ctx d = .ok script) : Tour m module [fqn] (outline script) := by
  rw [← events_skeleton]
  exact (isDefinition_of_define hctx h).tour hd

theorem walk_of_addTypes {checks : Bool} {place : Declaration} {names : List String}
    (hplace : m.declaration place.fqn = .ok place) {written script : Script}
    (h : names.foldlM (addType m checks place) written = .ok script) :
    ∃ marks, Walk m place.name names marks ∧ skeleton script = skeleton written ++ marks := by
  induction names generalizing written with
  | nil =>
    obtain rfl := Outcome.pure_eq_ok.mp h
    exact ⟨[], .nil, by simp⟩
  | cons fqn names ih =>
    rw [List.foldlM_cons] at h
    obtain ⟨middle, hmiddle, hrest⟩ := Outcome.bind_eq_ok.mp h
    obtain ⟨marks, hmarks, hscript⟩ := ih hrest
    simp only [addType, Outcome.bind_eq_ok, Outcome.pure_eq_ok] at hmiddle
    obtain ⟨d, hd, definition, hdefinition, epilogue, hepilogue, rfl⟩ := hmiddle
    have hfirst := (isDefinition_of_define ⟨rfl, place, hplace, rfl⟩ hdefinition).walk hd
    refine ⟨_, hfirst.append hmarks, ?_⟩
    rw [hscript]
    simp [skeleton_epilogueScript hepilogue]

theorem walk_of_moduleScript {checks : Bool} {place : Declaration}
    (hplace : m.declaration place.fqn = .ok place) {script : Script}
    (h : moduleScript m checks place = .ok script) :
    ∃ members, Members.arrange m place.name place.members = .ok members ∧
      Walk m place.name (members.filterMap Member.nested?) (skeleton script) := by
  rw [moduleScript] at h
  split at h
  · simp only [Outcome.bind_eq_ok, Outcome.pure_eq_ok] at h
    obtain ⟨imports, -, members, hmembers, types, htypes, rfl⟩ := h
    obtain ⟨marks, hmarks, hskeleton⟩ := walk_of_addTypes hplace htypes
    refine ⟨members, hmembers, ?_⟩
    have htypes : skeleton types = marks := by simpa using hskeleton
    have hstubs : skeleton ((stubs types).flatMap Stub.script) = [] := by simp
    simpa [htypes, hstubs, -skeleton_flatMap] using hmarks
  · cases h

theorem tour_of_moduleScript {checks : Bool} {place : Declaration}
    (hplace : m.declaration place.fqn = .ok place) {script : Script}
    (h : moduleScript m checks place = .ok script) :
    ∃ members, Members.arrange m place.name place.members = .ok members ∧
      Tour m place.name (members.filterMap Member.nested?) (outline script) := by
  obtain ⟨members, hmembers, hwalk⟩ := walk_of_moduleScript hplace h
  rw [← events_skeleton]
  exact ⟨members, hmembers, hwalk.tour⟩

/-- The definition of a type holds that of another: it is the same, or it stands in its body. -/
inductive Holds (m : Model) (module : String) : String → String → Prop
  | self {fqn : String} {d : Declaration} (hd : m.declaration fqn = .ok d)
      (hkind : d.isModule = false) : Holds m module fqn fqn
  | inner {fqn name target : String} {d : Declaration} {names : List String}
      (hd : m.declaration fqn = .ok d) (hkind : d.isModule = false)
      (hnames : bodyTypes m module d = .ok names) (hname : name ∈ names)
      (hinner : Holds m module name target) : Holds m module fqn target

theorem Holds.declared {fqn target : String} (h : Holds m module fqn target) :
    ∃ d, m.declaration fqn = .ok d ∧ d.isModule = false := by
  cases h with
  | self hd hkind => exact ⟨_, hd, hkind⟩
  | inner hd hkind => exact ⟨_, hd, hkind⟩

theorem Tour.closed_mem_iff (hm : m.Faithful) {names : List String} {events : List Event}
    (h : Tour m module names events) {target : String} :
    .closed target ∈ events ↔ ∃ name ∈ names, Holds m module name target := by
  induction h with
  | nil => simp
  | @cons fqn d inner names body rest hd hkind hinner _ _ ihBody ihRest =>
    have hfqn := hm.fqn_eq (Model.lookup_of_declaration hd)
    have hholds : Holds m module fqn target ↔
        target = fqn ∨ ∃ name ∈ inner, Holds m module name target := by
      constructor
      · intro h
        cases h with
        | self => exact .inl rfl
        | inner hd' _ hnames hname hinner' =>
          obtain rfl := Except.ok.inj (hd.symm.trans hd')
          obtain rfl := Except.ok.inj (hinner.symm.trans hnames)
          exact .inr ⟨_, hname, hinner'⟩
      · rintro (rfl | ⟨name, hname, htarget⟩)
        · exact .self hd hkind
        · exact .inner hd hkind hinner hname htarget
    simp only [List.mem_cons, List.mem_append, List.cons_append, ihBody, ihRest, hfqn,
      exists_eq_or_imp, hholds, reduceCtorEq, false_or, Event.closed.injEq]
    exact or_left_comm.trans or_assoc.symm

/-- The list in which a tour from `names` meets a type: the names themselves, or the types in
the body of a type that they hold. -/
def IsLevel (m : Model) (module : String) (names level : List String) : Prop :=
  level = names ∨ ∃ name ∈ names, ∃ outer d, Holds m module name outer ∧
    m.declaration outer = .ok d ∧ bodyTypes m module d = .ok level

theorem Tour.closed_before_opened (hm : m.Faithful) {names : List String} {events : List Event}
    (h : Tour m module names events) {fqn : String} {pre post : List Event}
    (hsplit : events = pre ++ .opened fqn :: post) :
    ∃ before after, IsLevel m module names (before ++ fqn :: after) ∧
      ∀ name ∈ before, ∀ target, Holds m module name target → .closed target ∈ pre := by
  induction h generalizing pre post with
  | nil => simp at hsplit
  | @cons first d inner names body rest hd hkind hinner hbody hrest ihBody ihRest =>
    have hfqn := hm.fqn_eq (Model.lookup_of_declaration hd)
    rw [hfqn] at hsplit
    cases pre with
    | nil =>
      obtain ⟨hfirst, -⟩ := List.cons.inj hsplit
      obtain rfl := Event.opened.inj hfirst
      exact ⟨[], names, .inl rfl, by simp⟩
    | cons event pre =>
      obtain ⟨rfl, htail⟩ := List.cons.inj hsplit
      rcases List.append_eq_append_iff.mp htail with ⟨more, hpre, hmore⟩ | ⟨more, hbodySplit, hmore⟩
      · -- The type is opened behind the first one.
        cases more with
        | nil => simp at hmore
        | cons closing more =>
          obtain ⟨rfl, hrestSplit⟩ := List.cons.inj hmore
          obtain ⟨before, after, hlevel, hclosed⟩ := ihRest hrestSplit
          rcases hlevel with rfl | ⟨name, hname, hinside⟩
          · refine ⟨first :: before, after, .inl rfl, fun name hname target htarget => ?_⟩
            rcases List.mem_cons.mp hname with rfl | hname
            · have hfirst := Tour.cons hd hkind hinner hbody .nil
              have hclosing := (hfirst.closed_mem_iff hm).mpr ⟨_, List.mem_cons_self, htarget⟩
              simp only [hfqn, List.mem_cons, List.mem_append] at hclosing
              simp only [hpre, List.mem_cons, List.mem_append]
              tauto
            · have hin := hclosed name hname target htarget
              simp [hpre, hin]
          · refine ⟨before, after, .inr ⟨name, List.mem_cons_of_mem _ hname, hinside⟩, ?_⟩
            intro earlier hearlier target htarget
            have hin := hclosed earlier hearlier target htarget
            simp [hpre, hin]
      · -- The type is opened in the body of the first one.
        cases more with
        | nil => simp at hmore
        | cons opening more =>
          obtain ⟨rfl, -⟩ := List.cons.inj hmore
          obtain ⟨before, after, hlevel, hclosed⟩ := ihBody hbodySplit
          refine ⟨before, after, .inr ⟨first, List.mem_cons_self, ?_⟩, ?_⟩
          · rcases hlevel with heq | ⟨name, hname, outer, declaration, hholds, hrest⟩
            · exact ⟨first, d, .self hd hkind, hd, heq ▸ hinner⟩
            · exact ⟨outer, declaration, .inner hd hkind hinner hname hholds, hrest⟩
          · intro earlier hearlier target htarget
            exact List.mem_cons_of_mem _ (hclosed earlier hearlier target htarget)

end Bindery.Binding
