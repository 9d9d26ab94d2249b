import Bindery.Binding.Module
import Bindery.Proofs.Imports
import Bindery.Proofs.MemberOrder
import Bindery.Proofs.Outline

/-!
# Mentions of types

A script mentions types where it spells them. Whatever is written for a declaration mentions its
bases, the types of its members and of the fields that stand for lifted structs, and what the
types in its body mention. All these mentions stand in the module that is being written, and see
the same types as complete.
-/

namespace Bindery.Binding

def AllMentions (P : TypeExpr → Scope → Prop) (script : Script) : Prop :=
  ∀ type scope, .mark (.mention type scope) ∈ script → P type scope

section Scripts

variable {P : TypeExpr → Scope → Prop} {script script' : Script}

@[simp] theorem line_ne_mark (text : String) (mark : Mark) : line text ≠ .mark mark := nofun

@[simp] theorem blank_ne_mark (mark : Mark) : blank ≠ .mark mark := nofun

@[simp] theorem block_ne_mark (text : String) (mark : Mark) :
    Code.Step.block text ≠ .mark mark := nofun

@[simp] theorem step_eq_mention_iff {s : Spelled} {type : TypeExpr} {scope : Scope} :
    s.step = .mark (.mention type scope) ↔ s.type = type ∧ s.scope = scope := by
  simp [Spelled.step]

@[simp] theorem allMentions_nil : AllMentions P [] := fun _ _ h => absurd h List.not_mem_nil

@[simp] theorem allMentions_append :
    AllMentions P (script ++ script') ↔ AllMentions P script ∧ AllMentions P script' := by
  simp only [AllMentions, List.mem_append, or_imp, forall_and]

@[simp] theorem allMentions_cons {step : Code.Step Mark} :
    AllMentions P (step :: script) ↔
      (∀ type scope, step = .mark (.mention type scope) → P type scope) ∧ AllMentions P script := by
  simp only [AllMentions, List.mem_cons, or_imp, forall_and, eq_comm]

@[simp] theorem allMentions_map {α : Type} {items : List α} {f : α → Code.Step Mark} :
    AllMentions P (items.map f) ↔
      ∀ item ∈ items, ∀ type scope, f item = .mark (.mention type scope) → P type scope := by
  simp only [AllMentions, List.mem_map]
  grind

@[simp] theorem allMentions_flatMap {α : Type} {items : List α} {f : α → Script} :
    AllMentions P (items.flatMap f) ↔ ∀ item ∈ items, AllMentions P (f item) := by
  simp only [AllMentions, List.mem_flatMap]
  grind

@[simp] theorem allMentions_ite {p : Prop} [Decidable p] :
    AllMentions P (if p then script else script') ↔
      if p then AllMentions P script else AllMentions P script' := by
  rw [apply_ite (AllMentions P)]

theorem allMentions_intercalate {between : Script} {scripts : List Script}
    (hbetween : AllMentions P between) (h : ∀ script ∈ scripts, AllMentions P script) :
    AllMentions P (between.intercalate scripts) := by
  induction scripts with
  | nil => exact allMentions_nil
  | cons script scripts ih =>
    obtain ⟨hfirst, hrest⟩ := List.forall_mem_cons.mp h
    cases scripts with
    | nil => simpa using hfirst
    | cons next rest => simpa using ⟨hfirst, hbetween, ih hrest⟩

@[simp] theorem allMentions_mentions {spelled : List Spelled} :
    AllMentions P (mentions spelled) ↔ ∀ s ∈ spelled, P s.type s.scope := by
  simp [mentions]

@[simp] theorem allMentions_of_textual (h : Textual script) : AllMentions P script := by
  intro type scope hmark
  cases h _ hmark

@[simp] theorem allMentions_stubScript (stub : Stub) : AllMentions P stub.script := by
  simp [Stub.script]

end Scripts

variable {N : String → Prop}

def TypeNames (N : String → Prop) (type : TypeExpr) : Prop := ∀ fqn ∈ type.mentions, N fqn

theorem typeNames_required {type : TypeExpr} (h : TypeNames N type) :
    TypeNames N type.required := by
  rw [TypeNames, TypeExpr.mentions_required]
  exact h

theorem typeNames_named {fqn : String} (h : N fqn) : TypeNames N (.named fqn) := by
  intro name hname
  obtain rfl := List.mem_singleton.mp hname
  exact h

structure MethodNames (c : Catalog) (N : String → Prop) (method : MethodMember) : Prop where
  returns : TypeNames N method.returns
  arguments : ∀ a ∈ method.arguments, TypeNames N a.type
  lifted : ∀ lifted, method.lifted = some lifted → N lifted
  fields : ∀ lifted fields, method.lifted = some lifted → c.liftedFields lifted = .ok fields →
    ∀ field ∈ fields, TypeNames N field.type

def MemberNames (c : Catalog) (N : String → Prop) : Member → Prop
  | .type _ => True
  | .method method => MethodNames c N method
  | .property property => TypeNames N property.type
  | .field field => TypeNames N field.type
  | .value _ => True

structure DeclarationNames (c : Catalog) (N : String → Prop) (d : Declaration) : Prop where
  bases : ∀ fqn ∈ d.bases, N fqn
  abstractBases : ∀ base interfaces isAbstract bases,
    d.shape = .class base interfaces isAbstract bases → ∀ fqn ∈ bases, N fqn
  fields : ∀ bases fields, d.shape = .struct bases → c.fields d.fqn = .ok fields →
    ∀ field ∈ fields, TypeNames N field.type
  members : d.shape.kind ≠ .struct → ∀ member ∈ d.members, MemberNames c N member

/-- A type as code in a context mentions it: from the same module, with the same types complete,
with a spelling, and with names that have a property. -/
def Context.Mentions (ctx : Context) (N : String → Prop) (type : TypeExpr) (scope : Scope) :
    Prop :=
  scope.module = ctx.scope.module ∧ scope.emitted = ctx.scope.emitted ∧
    (∃ text, ctx.model.spell scope type = .ok text) ∧ TypeNames N type

variable {ctx : Context}

@[simp] theorem mentions_inside (ctx : Context) (fqn : String) :
    (ctx.inside fqn).Mentions N = ctx.Mentions N := rfl

theorem mentions_of_spell {scope : Scope} {type : TypeExpr} {s : Spelled}
    (h : spell ctx scope type = .ok s) (hnames : TypeNames N type)
    (hmodule : scope.module = ctx.scope.module) (hemitted : scope.emitted = ctx.scope.emitted) :
    ctx.Mentions N s.type s.scope := by
  simp only [spell, Outcome.bind_eq_ok, Outcome.pure_eq_ok] at h
  obtain ⟨text, htext, rfl⟩ := h
  exact ⟨hmodule, hemitted, ⟨text, htext⟩, hnames⟩

theorem mentions_of_spellNames {fqns : List String} {spelled : List Spelled}
    (hnames : ∀ fqn ∈ fqns, N fqn) (h : spellNames ctx fqns = .ok spelled) :
    ∀ s ∈ spelled, ctx.Mentions N s.type s.scope := by
  intro s hs
  obtain ⟨fqn, hfqn, hspell⟩ := Outcome.exists_mem_of_mapM h hs
  exact mentions_of_spell hspell (typeNames_named (hnames fqn hfqn)) rfl rfl

def ParamsMention (ctx : Context) (N : String → Prop) (params : List Param) : Prop :=
  ∀ param ∈ params, ∀ s, param.spelled? = some s → ctx.Mentions N s.type s.scope

theorem paramsMention_arguments {taken : List String} {arguments : List Argument}
    {params : List Param} (hnames : ∀ a ∈ arguments, TypeNames N a.type)
    (h : arguments.mapM (argumentParam ctx taken) = .ok params) : ParamsMention ctx N params := by
  intro param hparam s hs
  obtain ⟨a, ha, hargument⟩ := Outcome.exists_mem_of_mapM h hparam
  simp only [argumentParam, Outcome.bind_eq_ok, Outcome.pure_eq_ok] at hargument
  obtain ⟨spelled, hspelled, rfl⟩ := hargument
  obtain rfl := Option.some.inj hs
  exact mentions_of_spell hspelled (hnames a ha) rfl rfl

theorem paramsMention_keywords {fields : List Field} {params : List Param}
    (hnames : ∀ field ∈ fields, TypeNames N field.type)
    (h : keywordParams ctx fields = .ok params) : ParamsMention ctx N params := by
  simp only [keywordParams, Outcome.bind_eq_ok, Outcome.pure_eq_ok] at h
  obtain ⟨plain, hplain, rfl⟩ := h
  have hmention : ParamsMention ctx N plain := by
    intro param hparam s hs
    obtain ⟨field, hfield, hkeyword⟩ := Outcome.exists_mem_of_mapM hplain hparam
    simp only [keywordParam, Outcome.bind_eq_ok, Outcome.pure_eq_ok] at hkeyword
    obtain ⟨spelled, hspelled, rfl⟩ := hkeyword
    obtain rfl := Option.some.inj hs
    exact mentions_of_spell hspelled (hnames field hfield) rfl rfl
  intro param hparam s hs
  split at hparam
  · exact absurd hparam List.not_mem_nil
  · rcases List.mem_cons.mp hparam with rfl | hin
    · cases hs
    · exact hmention param hin s hs

theorem paramsMention_dropLast {params more : List Param} (h : ParamsMention ctx N params)
    (hmore : ParamsMention ctx N more) : ParamsMention ctx N (params.dropLast ++ more) := by
  intro param hparam
  rcases List.mem_append.mp hparam with hin | hin
  · exact h param (List.dropLast_subset params hin)
  · exact hmore param hin

theorem mentions_of_methodHead {method : MethodMember} {head : MethodHead}
    (hnames : MethodNames ctx.model.toCatalog N method) (h : methodHead ctx method = .ok head) :
    ∀ s ∈ head.spelled, ctx.Mentions N s.type s.scope := by
  simp only [methodHead, Outcome.bind_eq_ok] at h
  obtain ⟨returns, hreturns, taken, -, plain, hplain, h⟩ := h
  have hresult := mentions_of_spell hreturns hnames.returns rfl rfl
  have harguments := paramsMention_arguments hnames.arguments hplain
  have hspelled : head.returns = returns ∧ ParamsMention ctx N head.params := by
    split at h
    · rename_i lifted hlifted
      simp only [Outcome.bind_eq_ok, Outcome.pure_eq_ok] at h
      obtain ⟨fields, hfields, keywords, hkeywords, rfl⟩ := h
      have hkeywordNames := paramsMention_keywords (hnames.fields lifted fields hlifted hfields)
        hkeywords
      exact ⟨rfl, paramsMention_dropLast harguments hkeywordNames⟩
    · rename_i last hnone hlast
      have hlastNames := hnames.arguments last (List.mem_of_getLast? hlast)
      split at h
      · simp only [restParam, Outcome.bind_eq_ok, Outcome.pure_eq_ok] at h
        obtain ⟨_, ⟨rest, hrest, rfl⟩, rfl⟩ := h
        refine ⟨rfl, paramsMention_dropLast harguments ?_⟩
        intro param hparam s hs
        obtain rfl := List.mem_singleton.mp hparam
        obtain rfl := Option.some.inj hs
        exact mentions_of_spell hrest (typeNames_required hlastNames) rfl rfl
      · obtain rfl := Outcome.pure_eq_ok.mp h
        exact ⟨rfl, harguments⟩
    · obtain rfl := Outcome.pure_eq_ok.mp h
      exact ⟨rfl, harguments⟩
  intro s hs
  rcases List.mem_cons.mp hs with rfl | hin
  · rw [hspelled.1]
    exact hresult
  · obtain ⟨param, hparam, hsome⟩ := List.mem_filterMap.mp hin
    exact hspelled.2 param hparam s hsome

variable {script : Script}

theorem allMentions_methodBody {method : MethodMember} {head : MethodHead}
    (hnames : MethodNames ctx.model.toCatalog N method)
    (h : methodBody ctx method head = .ok script) : AllMentions (ctx.Mentions N) script := by
  simp only [methodBody, Outcome.bind_eq_ok, Outcome.pure_eq_ok] at h
  obtain ⟨rebuilt, hrebuilt, rfl⟩ := h
  have hcall : ∀ mark, callLine method head ≠ .mark mark := by
    intro mark
    rw [callLine]
    split <;> exact nofun
  have hstruct : AllMentions (ctx.Mentions N) rebuilt := by
    rw [rebuildStruct] at hrebuilt
    split at hrebuilt
    · rename_i lifted last hlifted hlast
      simp only [Outcome.bind_eq_ok, Outcome.pure_eq_ok] at hrebuilt
      obtain ⟨struct, hspelled, rfl⟩ := hrebuilt
      have hmention := mentions_of_spell hspelled
        (typeNames_named (hnames.lifted lifted hlifted)) rfl rfl
      simpa using hmention
    · obtain rfl := Except.ok.inj hrebuilt
      exact allMentions_nil
  simp [hstruct, hcall]

theorem allMentions_methodScript {style : Style} {method : MethodMember}
    (hnames : MethodNames ctx.model.toCatalog N method)
    (h : methodScript ctx style method = .ok script) : AllMentions (ctx.Mentions N) script := by
  simp only [methodScript, Outcome.bind_eq_ok] at h
  obtain ⟨head, hhead, h⟩ := h
  have hspelled := mentions_of_methodHead hnames hhead
  have hname : AllMentions (ctx.Mentions N) (method.name?.map memberLine).toList := by
    cases method.name? <;> simp [memberLine]
  have hdecorator : AllMentions (ctx.Mentions N)
      (method.kind.decorator?.map fun d => line ("@" ++ d)).toList := by
    cases method.kind.decorator? <;> simp
  split at h
  all_goals
    simp only [Outcome.bind_eq_ok, Outcome.pure_eq_ok] at h
    obtain ⟨body, hbody, rfl⟩ := h
  · have hmentions := allMentions_methodBody hnames hbody
    simpa [hname, hdecorator, hmentions] using hspelled
  · obtain rfl := Except.ok.inj hbody
    simpa [hname, hdecorator] using hspelled

theorem allMentions_propertyScript {style : Style} {property : PropertyMember}
    (hnames : TypeNames N property.type) (h : propertyScript ctx style property = .ok script) :
    AllMentions (ctx.Mentions N) script := by
  simp only [propertyScript, Outcome.bind_eq_ok, Outcome.pure_eq_ok] at h
  obtain ⟨type, htype, rfl⟩ := h
  have hmention := mentions_of_spell htype hnames rfl rfl
  have hgetter : AllMentions (ctx.Mentions N) (getterScript style property type) := by
    simpa [getterScript, propertyDecorators, memberLine] using hmention
  have hsetter : AllMentions (ctx.Mentions N) (setterScript ctx style property type) := by
    simpa [setterScript] using hmention
  simp [hgetter, hsetter]

theorem allMentions_fieldScript {field : Field} (hnames : TypeNames N field.type)
    (h : fieldScript ctx field = .ok script) : AllMentions (ctx.Mentions N) script := by
  simp only [fieldScript, Outcome.bind_eq_ok, Outcome.pure_eq_ok] at h
  obtain ⟨type, htype, rfl⟩ := h
  have hmention := mentions_of_spell htype hnames rfl rfl
  simpa using hmention

theorem allMentions_memberScript {nesting : Nesting} {style : Style} {member : Member}
    (hnames : MemberNames ctx.model.toCatalog N member)
    (hnested : ∀ fqn inner, member.nested? = some fqn → nesting ctx fqn = .ok inner →
      AllMentions (ctx.Mentions N) inner)
    (h : memberScript nesting ctx style member = .ok script) :
    AllMentions (ctx.Mentions N) script := by
  have hwritten : ∃ inner, AllMentions (ctx.Mentions N) inner ∧
      script = .mark (.member member) :: inner := by
    cases member with
    | type nested =>
      obtain ⟨inner, hinner, h⟩ := Outcome.bind_eq_ok.mp h
      exact ⟨inner, hnested nested.fqn inner rfl hinner, (Outcome.pure_eq_ok.mp h).symm⟩
    | method method =>
      obtain ⟨inner, hinner, h⟩ := Outcome.bind_eq_ok.mp h
      exact ⟨inner, allMentions_methodScript hnames hinner, (Outcome.pure_eq_ok.mp h).symm⟩
    | property property =>
      obtain ⟨inner, hinner, h⟩ := Outcome.bind_eq_ok.mp h
      exact ⟨inner, allMentions_propertyScript hnames hinner, (Outcome.pure_eq_ok.mp h).symm⟩
    | field field =>
      obtain ⟨inner, hinner, h⟩ := Outcome.bind_eq_ok.mp h
      exact ⟨inner, allMentions_fieldScript hnames hinner, (Outcome.pure_eq_ok.mp h).symm⟩
    | value value =>
      exact ⟨valueScript value, by simp [valueScript], (Except.ok.inj h).symm⟩
  obtain ⟨inner, hinner, rfl⟩ := hwritten
  simpa using hinner

theorem mentions_of_structFields {fields : List Field} {spelled : List StructField}
    (hnames : ∀ field ∈ fields, TypeNames N field.type)
    (h : structFields ctx fields = .ok spelled) :
    ∀ f ∈ spelled, ctx.Mentions N f.parameter.type f.parameter.scope ∧
      ctx.Mentions N f.result.type f.result.scope ∧
      ∀ struct, f.coercion? = some struct → ctx.Mentions N struct.type struct.scope := by
  simp only [structFields, Outcome.bind_eq_ok, Outcome.pure_eq_ok] at h
  obtain ⟨parameters, hparameters, coercions, hcoercions, results, hresults, rfl⟩ := h
  intro f hf
  obtain ⟨⟨field, parameter, coercion?, result⟩, hzip, rfl⟩ := List.mem_map.mp hf
  obtain ⟨-, hrest⟩ := List.of_mem_zip hzip
  obtain ⟨hparameter, hrest⟩ := List.of_mem_zip hrest
  obtain ⟨hcoercion, hresult⟩ := List.of_mem_zip hrest
  refine ⟨?_, ?_, ?_⟩
  · obtain ⟨field, hfield, hspell⟩ := Outcome.exists_mem_of_mapM hparameters hparameter
    exact mentions_of_spell hspell (hnames field hfield) rfl rfl
  · obtain ⟨field, hfield, hspell⟩ := Outcome.exists_mem_of_mapM hresults hresult
    exact mentions_of_spell hspell (hnames field hfield) rfl rfl
  · intro struct hstruct
    obtain rfl : coercion? = some struct := hstruct
    obtain ⟨field, hfield, hspell⟩ := Outcome.exists_mem_of_mapM hcoercions hcoercion
    rw [coercionOf] at hspell
    split at hspell
    · cases hspell
    · split at hspell
      · simp only [Outcome.bind_eq_ok, Outcome.pure_eq_ok] at hspell
        obtain ⟨_, hspell, heq⟩ := hspell
        obtain rfl := Option.some.inj heq
        exact mentions_of_spell hspell (typeNames_required (hnames field hfield)) rfl rfl
      · cases hspell

theorem allMentions_structScript {d : Declaration} {bases : List String}
    (hshape : d.shape = .struct bases) (hnames : DeclarationNames ctx.model.toCatalog N d)
    (h : structScript ctx d = .ok script) : AllMentions (ctx.Mentions N) script := by
  simp only [structScript, Outcome.bind_eq_ok, Outcome.pure_eq_ok] at h
  obtain ⟨fields, hfields, spelledBases, hbases, spelled, hspelled, rfl⟩ := h
  have hbaseMentions := mentions_of_spellNames hnames.bases hbases
  have hfieldMentions := mentions_of_structFields (hnames.fields bases fields hshape hfields)
    hspelled
  have hcoercion : ∀ f ∈ spelled, AllMentions (ctx.Mentions N) (coercionScript f) := by
    intro f hf
    rw [coercionScript]
    split
    · exact allMentions_nil
    · rename_i struct hstruct
      simpa using (hfieldMentions f hf).2.2 struct hstruct
  have hgetter : ∀ f ∈ spelled, AllMentions (ctx.Mentions N) (fieldGetterScript f) := by
    intro f hf
    simp only [fieldGetterScript]
    split <;> simpa using (hfieldMentions f hf).2.1
  have hconstructor : AllMentions (ctx.Mentions N)
      (constructorScript (ctx.inside d.fqn) d spelled) := by
    simpa [constructorScript, optionalScript] using ⟨fun f hf => (hfieldMentions f hf).1, hcoercion⟩
  have hspecial : AllMentions (ctx.Mentions N) (specialMethods d.name) := by
    simp [specialMethods]
  have hdata : AllMentions (ctx.Mentions N) (dataTypeScript d.fqn (texts spelledBases) fields) := by
    simp [dataTypeScript]
  simpa [hconstructor, hspecial, hdata] using ⟨hbaseMentions, hgetter⟩

/-- What declarations supply: `S` holds of a declaration only if all names that it mentions have
a property, and `S` holds of the types in its body. -/
structure Supplies (m : Model) (N : String → Prop) (S : Declaration → Prop) : Prop where
  names : ∀ d, S d → DeclarationNames m.toCatalog N d
  nested : ∀ d, S d → d.shape.kind ≠ .struct → ∀ member ∈ d.members, ∀ fqn inner,
    member.nested? = some fqn → m.declaration fqn = .ok inner → S inner

def NestingMentions (m : Model) (N : String → Prop) (S : Declaration → Prop) (nesting : Nesting) :
    Prop :=
  ∀ (ctx : Context) (fqn : String) (script : Script), ctx.model = m →
    (∀ d, m.declaration fqn = .ok d → S d) → nesting ctx fqn = .ok script →
    AllMentions (ctx.Mentions N) script

variable {m : Model} {S : Declaration → Prop}

theorem allMentions_classScript {nesting : Nesting} (hS : Supplies m N S)
    (hnesting : NestingMentions m N S nesting) (hmodel : ctx.model = m) {d : Declaration}
    (hd : S d) (hkind : d.shape.kind ≠ .struct) {params : List String} {between : Script}
    (hbetween : AllMentions (ctx.Mentions N) between)
    (h : classScript nesting ctx d params between = .ok script) :
    AllMentions (ctx.Mentions N) script := by
  simp only [classScript, Outcome.bind_eq_ok, Outcome.pure_eq_ok] at h
  obtain ⟨members, hmembers, scripts, hscripts, rfl⟩ := h
  have hsubset : members ⊆ d.members := by
    simp only [bodyMembers] at hmembers
    split at hmembers
    · obtain rfl := Outcome.pure_eq_ok.mp hmembers
      exact List.nil_subset _
    · obtain ⟨module, -, harrange⟩ := Outcome.bind_eq_ok.mp hmembers
      exact Members.arrange_subset harrange
  have hbody : ∀ script ∈ scripts, AllMentions (ctx.Mentions N) script := by
    intro script hscript
    obtain ⟨member, hmember, hwritten⟩ := Outcome.exists_mem_of_mapM hscripts hscript
    have hin := hsubset hmember
    refine allMentions_memberScript (hmodel ▸ (hS.names d hd).members hkind member hin) ?_ hwritten
    intro fqn inner hnested hinner
    refine hnesting ctx fqn inner hmodel (fun e he => ?_) hinner
    exact hS.nested d hd hkind member hin fqn e hnested he
  have hall := allMentions_intercalate hbetween hbody
  split
  · simp
  · simpa using hall

theorem allMentions_shapeScript {nesting : Nesting} (hS : Supplies m N S)
    (hnesting : NestingMentions m N S nesting) (hmodel : ctx.model = m) {d : Declaration}
    (hd : S d) (h : shapeScript nesting ctx d = .ok script) :
    AllMentions (ctx.Mentions N) script := by
  have hnames := hS.names d hd
  have hinside : (ctx.inside d.fqn).model = m := hmodel
  rw [shapeScript] at h
  split at h
  · rename_i base interfaces isAbstract abstractBases hshape
    simp only [Outcome.bind_eq_ok, Outcome.pure_eq_ok] at h
    obtain ⟨implemented, himplemented, bases, hbases, body, hbody, rfl⟩ := h
    have hkind : d.shape.kind ≠ .struct := by simp [hshape, Shape.kind]
    have hall : ∀ fqn ∈ base.toList ++ interfaces, N fqn := by
      simpa [Declaration.bases, hshape, Shape.bases] using hnames.bases
    have hinterfaces := mentions_of_spellNames
      (fun fqn hfqn => hall fqn (List.mem_append_right _ hfqn)) himplemented
    have hbase := mentions_of_spellNames
      (fun fqn hfqn => hall fqn (List.mem_append_left _ hfqn)) hbases
    have hclass := allMentions_classScript hS hnesting hinside hd hkind (by simp) hbody
    have himplements : AllMentions (ctx.Mentions N) (implementsScript implemented) := by
      rw [implementsScript]
      split
      · exact allMentions_nil
      · simpa using hinterfaces
    simpa [himplements] using ⟨hbase, hclass⟩
  · rename_i interfaces hshape
    simp only [Outcome.bind_eq_ok, Outcome.pure_eq_ok] at h
    obtain ⟨bases, hbases, body, hbody, rfl⟩ := h
    have hkind : d.shape.kind ≠ .struct := by simp [hshape, Shape.kind]
    have hall : ∀ fqn ∈ interfaces, N fqn := by
      simpa [Declaration.bases, hshape, Shape.bases] using hnames.bases
    have hbase := mentions_of_spellNames hall hbases
    have hclass := allMentions_classScript hS hnesting hinside hd hkind (by simp) hbody
    simpa [registration] using ⟨hbase, hclass⟩
  · rename_i hshape
    simp only [Outcome.bind_eq_ok, Outcome.pure_eq_ok] at h
    obtain ⟨body, hbody, rfl⟩ := h
    have hkind : d.shape.kind ≠ .struct := by simp [hshape, Shape.kind]
    have hclass := allMentions_classScript hS hnesting hinside hd hkind (by simp) hbody
    simpa [registration] using hclass
  · rename_i bases hshape
    exact allMentions_structScript hshape (hmodel ▸ hnames) h
  · cases h

theorem allMentions_proxyMembers {style : Style} {d : Declaration} {scripts : List Script}
    (hnames : DeclarationNames ctx.model.toCatalog N d) (hkind : d.shape.kind ≠ .struct)
    (h : (proxyMembers d).mapM (memberScript noNesting ctx style) = .ok scripts) :
    ∀ script ∈ scripts, AllMentions (ctx.Mentions N) script := by
  intro script hscript
  obtain ⟨member, hmember, hwritten⟩ := Outcome.exists_mem_of_mapM h hscript
  have hin := (mem_proxyMembers hmember).1
  refine allMentions_memberScript (hnames.members hkind member hin) ?_ hwritten
  intro fqn inner _ hinner
  obtain rfl := Except.ok.inj hinner
  exact allMentions_nil

theorem allMentions_epilogueScript {d : Declaration}
    (hnames : DeclarationNames ctx.model.toCatalog N d) (h : epilogueScript ctx d = .ok script) :
    AllMentions (ctx.Mentions N) script := by
  have hinside : DeclarationNames (ctx.inside d.fqn).model.toCatalog N d := hnames
  rw [epilogueScript] at h
  split at h
  · rename_i base interfaces abstractBases hshape
    simp only [Outcome.bind_eq_ok, Outcome.pure_eq_ok] at h
    obtain ⟨bases, hbases, scripts, hscripts, rfl⟩ := h
    have hkind : d.shape.kind ≠ .struct := by simp [hshape, Shape.kind]
    have hbase := mentions_of_spellNames (hnames.abstractBases _ _ _ _ hshape) hbases
    have hmembers := allMentions_proxyMembers hinside hkind hscripts
    have hbody : AllMentions (ctx.Mentions N) (([blank] : Script).intercalate scripts) :=
      allMentions_intercalate (by simp) hmembers
    simpa [proxyClass, proxyHook, passIfEmpty, hbody] using hbase
  · rename_i interfaces hshape
    simp only [Outcome.bind_eq_ok, Outcome.pure_eq_ok] at h
    obtain ⟨bases, hbases, scripts, hscripts, rfl⟩ := h
    have hkind : d.shape.kind ≠ .struct := by simp [hshape, Shape.kind]
    have hall : ∀ fqn ∈ interfaces, N fqn := by
      simpa [Declaration.bases, hshape, Shape.bases] using hnames.bases
    have hbase := mentions_of_spellNames hall hbases
    have hbody := allMentions_proxyMembers hinside hkind hscripts
    simpa [proxyClass, proxyHook, passIfEmpty] using ⟨hbase, hbody⟩
  · obtain rfl := Outcome.pure_eq_ok.mp h
    exact allMentions_nil

theorem allMentions_define {fuel : ℕ} (hS : Supplies m N S) (hmodel : ctx.model = m)
    {d : Declaration} (hd : S d) (h : define fuel ctx d = .ok script) :
    AllMentions (ctx.Mentions N) script := by
  induction fuel generalizing ctx d script with
  | zero => cases h
  | succ fuel ih =>
    simp only [define, definitionScript, Outcome.bind_eq_ok, Outcome.pure_eq_ok] at h
    obtain ⟨shape, hshape, rfl⟩ := h
    have hinner : AllMentions (ctx.Mentions N) shape := by
      refine allMentions_shapeScript hS ?_ hmodel hd hshape
      intro inside fqn script hinside hsupplied hnested
      simp only [Outcome.bind_eq_ok, Outcome.pure_eq_ok] at hnested
      obtain ⟨nested, hdeclaration, definition, hdefinition, epilogue, hepilogue, rfl⟩ := hnested
      have hS' := hsupplied nested (hinside ▸ hdeclaration)
      rw [allMentions_append]
      exact ⟨ih hinside hS' hdefinition,
        allMentions_epilogueScript (hinside ▸ hS.names nested hS') hepilogue⟩
    simpa using hinner

def topContext (m : Model) (checks : Bool) (place : Declaration) (written : Script) : Context :=
  { model := m, scope := topScope place written, checks }

theorem addType_eq_ok (hS : Supplies m N S) {checks : Bool} {place : Declaration}
    {written script : Script} {fqn : String}
    (hsupplied : ∀ d, m.declaration fqn = .ok d → S d)
    (h : addType m checks place written fqn = .ok script) :
    ∃ d definition epilogue, m.declaration fqn = .ok d ∧
      define (nestingLimit m) (topContext m checks place (written ++ [blank, blank])) d =
        .ok definition ∧
      script = written ++ [blank, blank] ++ definition ++ epilogue ∧ outline epilogue = [] ∧
      AllMentions ((topContext m checks place (written ++ [blank, blank])).Mentions N)
        definition ∧
      AllMentions
        ((topContext m checks place (written ++ [blank, blank] ++ definition)).Mentions N)
        epilogue := by
  simp only [addType, Outcome.bind_eq_ok, Outcome.pure_eq_ok] at h
  obtain ⟨d, hd, definition, hdefinition, epilogue, hepilogue, rfl⟩ := h
  exact ⟨d, definition, epilogue, hd, hdefinition, rfl, outline_epilogueScript hepilogue,
    allMentions_define hS rfl (hsupplied d hd) hdefinition,
    allMentions_epilogueScript (hS.names d (hsupplied d hd)) hepilogue⟩

def Silent (script : Script) : Prop := AllMentions (fun _ _ => False) script

theorem Silent.allMentions {P : TypeExpr → Scope → Prop} (h : Silent script) :
    AllMentions P script :=
  fun type scope hin => (h type scope hin).elim

/-- A module collects its imports before it is written, and mentions types only where its own
types are written. -/
theorem moduleScript_eq_ok {checks : Bool} {place : Declaration}
    (h : moduleScript m checks place = .ok script) :
    ∃ imports members start types finish, moduleImports m place = .ok imports ∧
      Members.arrange m place.name place.members = .ok members ∧
      (members.filterMap Member.nested?).foldlM (addType m checks place) [] = .ok types ∧
      script = start ++ types ++ finish ∧ Silent start ∧ outline start = [] ∧ Silent finish := by
  rw [moduleScript] at h
  split at h
  · rename_i readme hshape
    simp only [Outcome.bind_eq_ok, Outcome.pure_eq_ok] at h
    obtain ⟨imports, himports, members, hmembers, types, htypes, rfl⟩ := h
    let start := readmeScript readme ++ preamble ++
      [blank, line ("from " ++ loaderPath m.toCatalog place ++ " import *")] ++
      importScript imports
    let finish := (if members.isEmpty then [] else [blank]) ++ [blank] ++
      exportScript (exportNames members (childModules m place)) ++
      childScript (childModules m place) ++ (stubs types).flatMap Stub.script
    have hstart : Silent start := by simp [start, Silent]
    have hfinish : Silent finish := by simp [finish, Silent]
    have houtline : outline start = [] := outline_of_skeleton (by simp [start])
    refine ⟨imports, members, start, types, finish, himports, hmembers, htypes, ?_, hstart,
      houtline, hfinish⟩
    simp only [start, finish, List.append_assoc]
  · cases h

end Bindery.Binding
