import Bindery.Binding.Module
import Bindery.Proofs.Outcome

/-!
# Outlines of scripts

The outline of a script tells in which order definitions begin and end. Its skeleton tells in
addition where members are written that are no types. Everything but the members of a type and its
definition is quiet: it leaves no trace in the skeleton, and so none in the outline.
-/

namespace Bindery.Binding

inductive Event where
  | opened (fqn : String)
  | closed (fqn : String)
  deriving DecidableEq

def event? : Code.Step Mark → Option Event
  | .mark (.opened fqn) => some (.opened fqn)
  | .mark (.closed fqn) => some (.closed fqn)
  | _ => none

def outline (script : Script) : List Event := script.filterMap event?

def Event.mark : Event → Mark
  | .opened fqn => .opened fqn
  | .closed fqn => .closed fqn

theorem mem_outline {script : Script} {event : Event} :
    event ∈ outline script ↔ .mark event.mark ∈ script := by
  have hevent : ∀ step, event? step = some event ↔ step = .mark event.mark := by
    intro step
    constructor
    · intro h
      unfold event? at h
      split at h
      · rw [← Option.some.inj h, Event.mark]
      · rw [← Option.some.inj h, Event.mark]
      · cases h
    · rintro rfl
      cases event <;> rfl
  simp only [outline, List.mem_filterMap, hevent, exists_eq_right]

def bone? : Code.Step Mark → Option Mark
  | .mark (.opened fqn) => some (.opened fqn)
  | .mark (.closed fqn) => some (.closed fqn)
  | .mark (.member member) => if member.nested?.isNone then some (.member member) else none
  | _ => none

def skeleton (script : Script) : List Mark := script.filterMap bone?

def events (marks : List Mark) : List Event := marks.filterMap fun mark => event? (.mark mark)

theorem events_skeleton (script : Script) : events (skeleton script) = outline script := by
  rw [events, skeleton, outline, List.filterMap_filterMap]
  congr 1
  funext step
  unfold bone?
  split
  · rfl
  · rfl
  · split <;> rfl
  · rename_i hopened hclosed hmember
    unfold event?
    split
    · exact absurd rfl (hopened _)
    · exact absurd rfl (hclosed _)
    · rfl

theorem outline_of_skeleton {script : Script} (h : skeleton script = []) : outline script = [] := by
  rw [← events_skeleton, h]
  rfl

section Steps

@[simp] theorem bone?_line (text : String) : bone? (line text) = none := rfl

@[simp] theorem bone?_blank : bone? blank = none := rfl

@[simp] theorem bone?_indent (text : String) : bone? (.indent text) = none := rfl

@[simp] theorem bone?_block (text : String) : bone? (.block text) = none := rfl

@[simp] theorem bone?_unindent (text : String) : bone? (.unindent text) = none := rfl

@[simp] theorem bone?_dedent : bone? .dedent = none := rfl

@[simp] theorem bone?_signature (s : Code.Signature) : bone? (.signature s) = none := rfl

@[simp] theorem bone?_listing (l : Code.Listing) : bone? (.listing l) = none := rfl

@[simp] theorem bone?_dictionary (d : Code.Dictionary) : bone? (.dictionary d) = none := rfl

@[simp] theorem bone?_call (c : Code.Call) : bone? (.call c) = none := rfl

@[simp] theorem bone?_step (s : Spelled) : bone? s.step = none := rfl

@[simp] theorem bone?_stub (stub : Stub) : bone? (.mark (.stub stub)) = none := rfl

@[simp] theorem bone?_opened (fqn : String) :
    bone? (.mark (.opened fqn)) = some (.opened fqn) := rfl

@[simp] theorem bone?_closed (fqn : String) :
    bone? (.mark (.closed fqn)) = some (.closed fqn) := rfl

theorem bone?_member {member : Member} (h : member.nested? = none) :
    bone? (.mark (.member member)) = some (.member member) := by
  simp [bone?, h]

theorem bone?_type {member : Member} {fqn : String} (h : member.nested? = some fqn) :
    bone? (.mark (.member member)) = none := by
  simp [bone?, h]

@[simp] theorem skeleton_nil : skeleton [] = [] := rfl

@[simp] theorem skeleton_append (script script' : Script) :
    skeleton (script ++ script') = skeleton script ++ skeleton script' :=
  List.filterMap_append

@[simp] theorem skeleton_cons (step : Code.Step Mark) (script : Script) :
    skeleton (step :: script) = (bone? step).toList ++ skeleton script := by
  cases h : bone? step <;> simp [skeleton, h]

@[simp] theorem skeleton_map {α : Type} (items : List α) (f : α → Code.Step Mark) :
    skeleton (items.map f) = items.filterMap fun item => bone? (f item) :=
  List.filterMap_map

@[simp] theorem skeleton_flatMap {α : Type} (items : List α) (f : α → Script) :
    skeleton (items.flatMap f) = items.flatMap fun item => skeleton (f item) := by
  induction items with
  | nil => rfl
  | cons item items ih => simp [ih]

@[simp] theorem skeleton_ite (p : Prop) [Decidable p] (script script' : Script) :
    skeleton (if p then script else script') = if p then skeleton script else skeleton script' :=
  apply_ite skeleton p script script'

theorem skeleton_intercalate {between : Script} (h : skeleton between = [])
    (scripts : List Script) :
    skeleton (between.intercalate scripts) = scripts.flatMap skeleton := by
  induction scripts with
  | nil => rfl
  | cons script scripts ih =>
    cases scripts with
    | nil => simp
    | cons next rest => simp_all

@[simp] theorem event?_blank : event? blank = none := rfl

@[simp] theorem event?_opened (fqn : String) :
    event? (.mark (.opened fqn)) = some (.opened fqn) := rfl

@[simp] theorem event?_closed (fqn : String) :
    event? (.mark (.closed fqn)) = some (.closed fqn) := rfl

@[simp] theorem outline_nil : outline [] = [] := rfl

@[simp] theorem outline_append (script script' : Script) :
    outline (script ++ script') = outline script ++ outline script' :=
  List.filterMap_append

@[simp] theorem outline_cons (step : Code.Step Mark) (script : Script) :
    outline (step :: script) = (event? step).toList ++ outline script := by
  cases h : event? step <;> simp [outline, h]

end Steps

/-- A step that begins no definition and marks nothing but a stub. -/
def isTextual : Code.Step Mark → Bool
  | .mark (.stub _) => true
  | .mark _ => false
  | .signature _ => false
  | _ => true

def Textual (script : Script) : Prop := ∀ step ∈ script, isTextual step = true

section Textual

@[simp] theorem isTextual_line (text : String) : isTextual (line text) = true := rfl

@[simp] theorem isTextual_blank : isTextual blank = true := rfl

@[simp] theorem isTextual_indent (text : String) : isTextual (.indent text) = true := rfl

@[simp] theorem isTextual_block (text : String) : isTextual (.block text) = true := rfl

@[simp] theorem isTextual_unindent (text : String) : isTextual (.unindent text) = true := rfl

@[simp] theorem isTextual_dedent : isTextual .dedent = true := rfl

@[simp] theorem isTextual_stub (stub : Stub) : isTextual (.mark (.stub stub)) = true := rfl

@[simp] theorem textual_nil : Textual [] := List.forall_mem_nil _

@[simp] theorem textual_cons {step : Code.Step Mark} {script : Script} :
    Textual (step :: script) ↔ isTextual step = true ∧ Textual script :=
  List.forall_mem_cons

@[simp] theorem textual_append {script script' : Script} :
    Textual (script ++ script') ↔ Textual script ∧ Textual script' :=
  List.forall_mem_append

@[simp] theorem textual_map {α : Type} {items : List α} {f : α → Code.Step Mark} :
    Textual (items.map f) ↔ ∀ item ∈ items, isTextual (f item) = true :=
  List.forall_mem_map

@[simp] theorem textual_docstring (docs : Option Api.Docs) (arguments : Option (List DocArgument))
    (spaced : Bool) : Textual (docstring docs arguments spaced) := by
  simp only [docstring]
  split
  · exact textual_nil
  · cases spaced <;> split <;> simp

@[simp] theorem textual_typeChecks (ctx : Context) (params : List String) (fqn : String) :
    Textual (typeChecks ctx params fqn) := by
  simp only [typeChecks]
  split
  · exact textual_nil
  · split
    · exact textual_nil
    · simp

@[simp] theorem textual_abstractLine (style : Style) (isAbstract : Bool) :
    Textual (abstractLine style isAbstract) := by
  rw [abstractLine]
  split <;> simp

@[simp] theorem textual_noBody : Textual noBody := by
  simp [noBody]

@[simp] theorem textual_preamble : Textual preamble := by
  simp [preamble]

@[simp] theorem textual_readmeScript (readme : Option String) : Textual (readmeScript readme) := by
  rw [readmeScript]
  split <;> simp

@[simp] theorem textual_importScript (imports : Imports) : Textual (importScript imports) := by
  have hstep : ∀ statement : Statement, isTextual statement.step = true := by
    intro statement
    cases statement <;> rfl
  simp only [importScript]
  split
  · exact textual_nil
  · simp [hstep]

@[simp] theorem textual_exportScript (names : List String) : Textual (exportScript names) := by
  simp only [exportScript]
  split <;> simp

@[simp] theorem textual_childScript (children : List Child) : Textual (childScript children) := by
  rw [childScript]
  split <;> simp

theorem bone?_of_isTextual {step : Code.Step Mark} (h : isTextual step = true) :
    bone? step = none := by
  unfold bone?
  split
  · cases h
  · cases h
  · cases h
  · rfl

@[simp] theorem skeleton_of_textual {script : Script} (h : Textual script) : skeleton script = [] :=
  List.filterMap_eq_nil_iff.mpr fun step hstep => bone?_of_isTextual (h step hstep)

end Textual

@[simp] theorem skeleton_mentions (spelled : List Spelled) : skeleton (mentions spelled) = [] := by
  simp [mentions]

theorem skeleton_rebuildStruct {ctx : Context} {method : MethodMember} {head : MethodHead}
    {script : Script} (h : rebuildStruct ctx method head = .ok script) : skeleton script = [] := by
  rw [rebuildStruct] at h
  split at h
  · obtain ⟨struct, -, h⟩ := Outcome.bind_eq_ok.mp h
    simp [← Outcome.pure_eq_ok.mp h]
  · simp [← Except.ok.inj h]

theorem skeleton_methodBody {ctx : Context} {method : MethodMember} {head : MethodHead}
    {script : Script} (h : methodBody ctx method head = .ok script) : skeleton script = [] := by
  simp only [methodBody, Outcome.bind_eq_ok, Outcome.pure_eq_ok] at h
  obtain ⟨struct, hstruct, rfl⟩ := h
  have hcall : bone? (callLine method head) = none := by
    rw [callLine]
    split <;> rfl
  simp [skeleton_rebuildStruct hstruct, hcall]

@[simp] theorem skeleton_toList_map {α : Type} (item : Option α) (f : α → String) :
    skeleton (item.map fun x => line (f x)).toList = [] := by
  cases item <;> simp

theorem skeleton_methodScript {ctx : Context} {style : Style} {method : MethodMember}
    {script : Script} (h : methodScript ctx style method = .ok script) : skeleton script = [] := by
  have hname : skeleton (method.name?.map memberLine).toList = [] := skeleton_toList_map _ _
  simp only [methodScript, Outcome.bind_eq_ok] at h
  obtain ⟨head, -, h⟩ := h
  split at h
  all_goals
    simp only [Outcome.bind_eq_ok, Outcome.pure_eq_ok] at h
    obtain ⟨body, hbody, rfl⟩ := h
  · simp [hname, skeleton_methodBody hbody]
  · obtain rfl := Except.ok.inj hbody
    simp [hname]

theorem skeleton_propertyScript {ctx : Context} {style : Style} {property : PropertyMember}
    {script : Script} (h : propertyScript ctx style property = .ok script) :
    skeleton script = [] := by
  simp only [propertyScript, Outcome.bind_eq_ok, Outcome.pure_eq_ok] at h
  obtain ⟨type, -, rfl⟩ := h
  have hgetter : skeleton (getterScript style property type) = [] := by
    simp [getterScript, propertyDecorators, memberLine]
  have hsetter : skeleton (setterScript ctx style property type) = [] := by
    simp [setterScript]
  simp [hgetter, hsetter]

theorem skeleton_fieldScript {ctx : Context} {field : Field} {script : Script}
    (h : fieldScript ctx field = .ok script) : skeleton script = [] := by
  simp only [fieldScript, Outcome.bind_eq_ok, Outcome.pure_eq_ok] at h
  obtain ⟨type, -, rfl⟩ := h
  simp

theorem skeleton_structScript {ctx : Context} {d : Declaration} {script : Script}
    (h : structScript ctx d = .ok script) : skeleton script = [] := by
  simp only [structScript, Outcome.bind_eq_ok, Outcome.pure_eq_ok] at h
  obtain ⟨fields, -, bases, -, spelled, -, rfl⟩ := h
  have hcoercion : ∀ f : StructField, skeleton (coercionScript f) = [] := by
    intro f
    rw [coercionScript]
    split <;> simp
  simp [dataTypeScript, constructorScript, fieldGetterScript, optionalScript, specialMethods,
    hcoercion]

theorem skeleton_quiet_member {member : Member} {inner : Script} (hmember : member.nested? = none)
    (hinner : skeleton inner = []) :
    skeleton (.mark (.member member) :: inner) = [.member member] := by
  rw [skeleton_cons, bone?_member hmember, hinner]
  rfl

theorem skeleton_memberScript {nesting : Nesting} {ctx : Context} {style : Style} {member : Member}
    {script : Script} (h : memberScript nesting ctx style member = .ok script) :
    match member.nested? with
    | none => skeleton script = [.member member]
    | some fqn => ∃ inner, nesting ctx fqn = .ok inner ∧ skeleton script = skeleton inner := by
  cases member with
  | type nested =>
    obtain ⟨inner, hinner, h⟩ := Outcome.bind_eq_ok.mp h
    refine ⟨inner, hinner, ?_⟩
    rw [← Outcome.pure_eq_ok.mp h, skeleton_cons, bone?_type rfl]
    rfl
  | method method =>
    obtain ⟨inner, hinner, h⟩ := Outcome.bind_eq_ok.mp h
    obtain rfl := Outcome.pure_eq_ok.mp h
    exact skeleton_quiet_member rfl (skeleton_methodScript hinner)
  | property property =>
    obtain ⟨inner, hinner, h⟩ := Outcome.bind_eq_ok.mp h
    obtain rfl := Outcome.pure_eq_ok.mp h
    exact skeleton_quiet_member rfl (skeleton_propertyScript hinner)
  | field field =>
    obtain ⟨inner, hinner, h⟩ := Outcome.bind_eq_ok.mp h
    obtain rfl := Outcome.pure_eq_ok.mp h
    exact skeleton_quiet_member rfl (skeleton_fieldScript hinner)
  | value value =>
    obtain rfl := Outcome.pure_eq_ok.mp h
    exact skeleton_quiet_member rfl (by simp [valueScript])

theorem skeleton_memberScripts {nesting : Nesting} {ctx : Context} {style : Style}
    {members : List Member} {scripts : List Script}
    (hmembers : ∀ member ∈ members, member.nested? = none)
    (h : members.mapM (memberScript nesting ctx style) = .ok scripts) :
    scripts.flatMap skeleton = members.map .member := by
  induction Outcome.mapM_eq_ok.mp h with
  | nil => rfl
  | @cons member script members scripts hmember hrest ih =>
    obtain ⟨hfirst, hmembers⟩ := List.forall_mem_cons.mp hmembers
    have hscript := skeleton_memberScript hmember
    rw [hfirst] at hscript
    rw [List.flatMap_cons, List.map_cons, hscript, ih hmembers (Outcome.mapM_eq_ok.mpr hrest)]
    rfl

theorem mem_proxyMembers {d : Declaration} {member : Member} (h : member ∈ proxyMembers d) :
    member ∈ d.members ∧ member.isOperation = true := by
  rw [proxyMembers] at h
  split at h
  · obtain ⟨hin, hboth⟩ := List.mem_filter.mp h
    exact ⟨hin, (Bool.and_eq_true_iff.mp hboth).1⟩
  · exact List.mem_filter.mp h
  · exact absurd h List.not_mem_nil

theorem nested?_of_isOperation {member : Member} (h : member.isOperation = true) :
    member.nested? = none := by
  cases member with
  | type nested => cases h
  | method method => rfl
  | property property => rfl
  | field field => rfl
  | value value => rfl

theorem skeleton_epilogueScript {ctx : Context} {d : Declaration} {script : Script}
    (h : epilogueScript ctx d = .ok script) :
    skeleton script = (proxyMembers d).map .member := by
  have hmembers : ∀ member ∈ proxyMembers d, member.nested? = none := fun _ hmember =>
    nested?_of_isOperation (mem_proxyMembers hmember).2
  rw [epilogueScript] at h
  split at h
  · simp only [Outcome.bind_eq_ok, Outcome.pure_eq_ok] at h
    obtain ⟨bases, -, scripts, hmap, rfl⟩ := h
    have hbody : skeleton (([blank] : Script).intercalate scripts) =
        (proxyMembers d).map .member := by
      rw [skeleton_intercalate (by simp), skeleton_memberScripts hmembers hmap]
    simp [proxyClass, proxyHook, passIfEmpty, hbody]
  · simp only [Outcome.bind_eq_ok, Outcome.pure_eq_ok] at h
    obtain ⟨bases, -, scripts, hmap, rfl⟩ := h
    have hbody : scripts.flatMap skeleton = (proxyMembers d).map .member :=
      skeleton_memberScripts hmembers hmap
    simpa [proxyClass, proxyHook, passIfEmpty] using hbody
  · rename_i hclass hinterface
    obtain rfl := Outcome.pure_eq_ok.mp h
    have hnone : proxyMembers d = [] := by
      rw [proxyMembers]
      split
      · exact absurd ‹_› (hclass _ _ _)
      · exact absurd ‹_› (hinterface _)
      · rfl
    rw [hnone]
    rfl

theorem events_append (marks marks' : List Mark) :
    events (marks ++ marks') = events marks ++ events marks' :=
  List.filterMap_append

@[simp] theorem events_members (members : List Member) : events (members.map .member) = [] := by
  rw [events, List.filterMap_map, List.filterMap_eq_nil_iff]
  exact fun _ _ => rfl

theorem outline_epilogueScript {ctx : Context} {d : Declaration} {script : Script}
    (h : epilogueScript ctx d = .ok script) : outline script = [] := by
  rw [← events_skeleton, skeleton_epilogueScript h, events_members]

@[simp] theorem skeleton_stubScript (stub : Stub) : skeleton stub.script = [] := rfl

theorem skeleton_loaderScript {c : Catalog} {script : Script} (h : loaderScript c = .ok script) :
    skeleton script = [] := by
  simp only [loaderScript, Outcome.bind_eq_ok, Outcome.pure_eq_ok] at h
  obtain ⟨loaders, -, rfl⟩ := h
  generalize sortTexts loaders = sorted
  simp

end Bindery.Binding
