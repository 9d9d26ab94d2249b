import Bindery.Proofs.BaseOrder
import Bindery.Proofs.Mentions

/-!
# Forward references

Where the text of a module mentions a type, the types that count as complete are those of the
definitions that were finished before the definition or epilogue at the top level that the mention
stands in. A reference without quotes is therefore a reference to a type that is complete together
with everything around it. As long as no two types of the assembly share a name, it never leads
into a definition that is still open.
-/

namespace Bindery

theorem Text.length_le_flatMap_escapeChar (text : List Char) :
    text.length ≤ (text.flatMap Text.escapeChar).length := by
  induction text with
  | nil => simp
  | cons c text ih =>
    have hchar : 1 ≤ (Text.escapeChar c).length := by
      unfold Text.escapeChar
      split_ifs <;> simp
    rw [List.flatMap_cons, List.length_append, List.length_cons]
    omega

theorem Text.quote_ne_self (text : String) : Text.quote text ≠ text := by
  intro h
  have hchars : (Text.quoteChars text.toList).length = text.toList.length := by
    have htext := congrArg String.toList h
    rw [Text.quote, String.toList_ofList] at htext
    rw [htext]
  have hlength := Text.length_le_flatMap_escapeChar text.toList
  simp only [Text.quoteChars, List.length_cons, List.length_append, List.length_nil] at hchars
  omega

theorem Scope.wrapStruct_injective {scope : Scope} {isStruct : Bool} {display display' : String}
    (h : scope.wrapStruct isStruct display = scope.wrapStruct isStruct display') :
    display = display' := by
  unfold Scope.wrapStruct at h
  split at h
  · simpa using h
  · exact h

namespace Catalog

def bareName (c : Catalog) (scope : Scope) (fqn : String) : Outcome String := do
  let home ← c.pythonName scope.module
  let target ← c.pythonName fqn
  pathBehind fqn home.path true target.path

/-- A reference to a type of its own module is shown without quotes. -/
def ShowsBare (c : Catalog) (scope : Scope) (fqn : String) : Prop :=
  ∃ below ∈ (c.bareName scope fqn).toOption, (c.resolve scope fqn).toOption =
    some { display := scope.wrapStruct (c.isStruct fqn) below, needed? := none }

instance (c : Catalog) (scope : Scope) (fqn : String) : Decidable (c.ShowsBare scope fqn) :=
  inferInstanceAs (Decidable (∃ below ∈ (c.bareName scope fqn).toOption, _))

theorem resolveLocal_of_needed?_eq_none {c : Catalog} {scope : Scope} {fqn : String}
    {r : Reference} (h : c.resolve scope fqn = .ok r) (hneeded : r.needed? = none) :
    ∃ target home, c.pythonName fqn = .ok target ∧ c.pythonName scope.module = .ok home ∧
      c.resolveLocal scope (c.isStruct fqn) target home.path fqn = .ok r := by
  cases resolves_of_resolve h with
  | foreign _ _ h =>
    simp only [resolveForeign, Outcome.bind_eq_ok, Outcome.pure_eq_ok] at h
    obtain ⟨below, -, rfl⟩ := h
    cases hneeded
  | @inside target home _ htarget _ hhome _ _ h => exact ⟨target, home, htarget, hhome, h⟩
  | across _ _ _ _ _ h =>
    simp only [resolveAcross, Outcome.bind_eq_ok, Outcome.pure_eq_ok] at h
    obtain ⟨below, -, rfl⟩ := h
    cases hneeded

theorem ShowsBare.emitted {c : Catalog} {scope : Scope} {fqn : String}
    (h : c.ShowsBare scope fqn) (hannotated : scope.annotation = true) :
    fqn ∈ scope.emitted := by
  obtain ⟨below, hbelow, hresolve⟩ := h
  have hname := Outcome.eq_ok_of_toOption hbelow
  simp only [bareName, Outcome.bind_eq_ok] at hname
  obtain ⟨home, hhome, target, htarget, hpath⟩ := hname
  obtain ⟨target', home', htarget', hhome', hlocal⟩ :=
    resolveLocal_of_needed?_eq_none (Outcome.eq_ok_of_toOption hresolve) rfl
  obtain rfl := Except.ok.inj (htarget.symm.trans htarget')
  obtain rfl := Except.ok.inj (hhome.symm.trans hhome')
  simp only [resolveLocal, hpath, Outcome.bind_eq_ok] at hlocal
  obtain ⟨around, -, below', hbelow', hlocal⟩ := hlocal
  obtain rfl := Except.ok.inj hbelow'
  by_contra habsent
  have hquoted : (scope.annotation && (!scope.emitted.contains fqn ||
      around.any fun outer => Dotted.isBelow outer.path target.path)) = true := by
    simp [hannotated, habsent]
  rw [if_pos hquoted] at hlocal
  have hdisplay := congrArg Reference.display (Outcome.pure_eq_ok.mp hlocal)
  exact Text.quote_ne_self below (Scope.wrapStruct_injective hdisplay)

end Catalog

namespace Binding

open Dotted

variable {m : Model} {module : String}

def unclosedFrom (stack : List String) : List Event → List String
  | [] => stack
  | .opened fqn :: rest => unclosedFrom (fqn :: stack) rest
  | .closed _ :: rest => unclosedFrom stack.tail rest

def unclosed (script : Script) : List String := unclosedFrom [] (outline script)

theorem unclosedFrom_append (stack : List String) (events events' : List Event) :
    unclosedFrom stack (events ++ events') = unclosedFrom (unclosedFrom stack events) events' := by
  induction events generalizing stack with
  | nil => rfl
  | cons event events ih =>
    cases event with
    | opened fqn => exact ih (fqn :: stack)
    | closed fqn => exact ih stack.tail

theorem Tour.unclosedFrom_eq {names : List String} {events : List Event}
    (h : Tour m module names events) (stack : List String) : unclosedFrom stack events = stack := by
  induction h generalizing stack with
  | nil => rfl
  | @cons fqn d inner names body rest _ _ _ _ _ ihBody ihRest =>
    have hbody : unclosedFrom (d.fqn :: stack) (body ++ .closed d.fqn :: rest) =
        unclosedFrom stack rest := by
      rw [unclosedFrom_append, ihBody]
      rfl
    exact hbody.trans (ihRest stack)

theorem Tour.unclosed_part (hm : m.Faithful) {names : List String} {events : List Event}
    (h : Tour m module names events) (stack : List String) {part behind : List Event}
    (hsplit : events = part ++ behind) :
    ∃ inside, unclosedFrom stack part = inside ++ stack ∧
      ∀ outer ∈ inside, ∃ name ∈ names, Holds m module name outer := by
  induction h generalizing stack part behind with
  | nil =>
    obtain ⟨rfl, -⟩ := List.append_eq_nil_iff.mp hsplit.symm
    exact ⟨[], rfl, by simp⟩
  | @cons fqn d inner names body rest hd hkind hinner hbody hrest ihBody ihRest =>
    have hself : Holds m module fqn d.fqn := by
      rw [hm.fqn_eq (Model.lookup_of_declaration hd)]
      exact .self hd hkind
    cases part with
    | nil => exact ⟨[], rfl, by simp⟩
    | cons event part =>
      obtain ⟨rfl, htail⟩ := List.cons.inj hsplit
      rcases List.append_eq_append_iff.mp htail with ⟨more, rfl, hmore⟩ | ⟨more, hpart, -⟩
      · cases more with
        | nil =>
          -- The part ends where the definition is about to be closed.
          refine ⟨[d.fqn], ?_, ?_⟩
          · rw [List.append_nil]
            exact hbody.unclosedFrom_eq (d.fqn :: stack)
          · intro outer houter
            obtain rfl := List.mem_singleton.mp houter
            exact ⟨fqn, List.mem_cons_self, hself⟩
        | cons closing more =>
          obtain ⟨rfl, hrestSplit⟩ := List.cons.inj hmore
          obtain ⟨inside, hinside, hheld⟩ := ihRest stack hrestSplit
          refine ⟨inside, ?_, fun outer houter => ?_⟩
          · have hclosed : unclosedFrom (d.fqn :: stack) (body ++ .closed d.fqn :: more) =
                unclosedFrom stack more := by
              rw [unclosedFrom_append, hbody.unclosedFrom_eq]
              rfl
            exact hclosed.trans hinside
          · obtain ⟨name, hname, hholds⟩ := hheld outer houter
            exact ⟨name, List.mem_cons_of_mem fqn hname, hholds⟩
      · -- The part ends in the body of the first definition.
        obtain ⟨inside, hinside, hheld⟩ := ihBody (d.fqn :: stack) hpart
        refine ⟨inside ++ [d.fqn], ?_, fun outer houter => ?_⟩
        · rw [List.append_assoc, List.singleton_append]
          exact hinside
        · rcases List.mem_append.mp houter with hin | hin
          · obtain ⟨name, hname, hholds⟩ := hheld outer hin
            exact ⟨fqn, List.mem_cons_self, .inner hd hkind hinner hname hholds⟩
          · obtain rfl := List.mem_singleton.mp hin
            exact ⟨fqn, List.mem_cons_self, hself⟩

theorem Tour.unclosed_ne_nil {fqn : String} {events : List Event} (hm : m.Faithful)
    (h : Tour m module [fqn] events) {part behind : List Event} (hsplit : events = part ++ behind)
    (hpart : part ≠ []) (hbehind : behind ≠ []) : unclosedFrom [] part ≠ [] := by
  cases h with
  | @cons _ d inner _ body rest hd hkind hinner hbody hrest =>
    cases hrest
    cases part with
    | nil => exact absurd rfl hpart
    | cons event part =>
      obtain ⟨rfl, htail⟩ := List.cons.inj hsplit
      rcases List.append_eq_append_iff.mp htail with ⟨more, rfl, hmore⟩ | ⟨more, hbodySplit, -⟩
      · cases more with
        | nil =>
          have hopen : unclosedFrom [d.fqn] (body ++ []) = [d.fqn] := by
            rw [List.append_nil]
            exact hbody.unclosedFrom_eq [d.fqn]
          exact fun hnone => List.cons_ne_nil _ _ (hopen.symm.trans hnone)
        | cons closing more =>
          obtain ⟨-, hnone⟩ := List.cons.inj hmore
          exact absurd (List.append_eq_nil_iff.mp hnone.symm).2 hbehind
      · obtain ⟨inside, hinside, -⟩ := hbody.unclosed_part hm [d.fqn] hbodySplit
        intro hnone
        have hempty : inside ++ [d.fqn] = [] := hinside.symm.trans hnone
        exact List.cons_ne_nil _ _ (List.append_eq_nil_iff.mp hempty).2

def OpenThroughout (script : Script) : Prop :=
  ∀ part, part <+: script → outline part ≠ [] → unclosed part ≠ []

theorem openThroughout_of_quiet {script : Script} (h : outline script = []) :
    OpenThroughout script := by
  rintro part ⟨behind, rfl⟩ hpart
  rw [outline_append] at h
  exact absurd (List.append_eq_nil_iff.mp h).1 hpart

/-- The types of a module around a mention: `prior` is what stands before the definition or
epilogue of the mention, and consists of the types `tops`; `current` is its beginning. -/
structure Site (m : Model) (module : String) (names tops : List String) (prior current : Script) :
    Prop where
  complete : Tour m module tops (outline prior)
  leading : tops <+: names
  throughout : OpenThroughout current
  held : ∀ outer ∈ unclosed current, ∃ top rest, names = tops ++ top :: rest ∧
    Holds m module top outer

theorem append_eq_append_cons {α : Type} {first second before after : List α} {x : α}
    (h : first ++ second = before ++ x :: after) :
    (∃ more, first = before ++ x :: more ∧ after = more ++ second) ∨
      ∃ more, before = first ++ more ∧ second = more ++ x :: after := by
  rcases List.append_eq_append_iff.mp h with ⟨more, hbefore, hsecond⟩ | ⟨more, hfirst, hmore⟩
  · exact .inr ⟨more, hbefore, hsecond⟩
  · cases more with
    | nil => exact .inr ⟨[], by simpa using hfirst.symm, by simpa using hmore.symm⟩
    | cons y more =>
      obtain ⟨rfl, hafter⟩ := List.cons.inj hmore
      exact .inl ⟨more, hfirst, hafter⟩

theorem define_ends_closed {fuel : ℕ} {ctx : Context} {d : Declaration} {definition : Script}
    (h : define fuel ctx d = .ok definition) {before after : Script} {type : TypeExpr}
    {scope : Scope} (hsplit : definition = before ++ .mark (.mention type scope) :: after) :
    outline (.mark (.mention type scope) :: after) ≠ [] := by
  cases fuel with
  | zero => cases h
  | succ fuel =>
    simp only [define, definitionScript, Outcome.bind_eq_ok, Outcome.pure_eq_ok] at h
    obtain ⟨shape, -, rfl⟩ := h
    have hlast : (.mark (.closed d.fqn) : Code.Step Mark) ∈
        .mark (.mention type scope) :: after := by
      have hend := congrArg List.getLast? hsplit
      rw [List.getLast?_append_cons,
        List.getLast?_append_of_ne_nil _ (List.cons_ne_nil _ _)] at hend
      exact List.mem_of_getLast? hend.symm
    have hclosed : Event.closed d.fqn ∈ outline (.mark (.mention type scope) :: after) :=
      mem_outline.mpr hlast
    exact List.ne_nil_of_mem hclosed

theorem supplies_true : Supplies m (fun _ => True) fun _ => True := by
  have hmember : ∀ member, MemberNames m.toCatalog (fun _ => True) member := by
    intro member
    cases member with
    | type nested => exact trivial
    | method method =>
      exact ⟨fun _ _ => trivial, fun _ _ _ _ => trivial, fun _ _ => trivial,
        fun _ _ _ _ _ _ _ _ => trivial⟩
    | property property => exact fun _ _ => trivial
    | field field => exact fun _ _ => trivial
    | value value => exact trivial
  exact ⟨fun d _ => ⟨fun _ _ => trivial, fun _ _ _ _ _ _ _ => trivial,
    fun _ _ _ _ _ _ _ _ => trivial, fun _ member _ => hmember member⟩,
    fun _ _ _ _ _ _ _ _ _ => trivial⟩

theorem site_of_definition (hm : m.Faithful) {done names : List String} {fqn : String}
    {prior definition current behind : Script} (hprior : Tour m module done (outline prior))
    (htour : Tour m module [fqn] (outline definition)) (hsplit : definition = current ++ behind)
    (hbehind : outline behind ≠ []) : Site m module (done ++ fqn :: names) done prior current := by
  have houtline : outline definition = outline current ++ outline behind := by
    rw [hsplit, outline_append]
  refine ⟨hprior, ⟨_, rfl⟩, ?_, ?_⟩
  · rintro part ⟨rest, rfl⟩ hpart
    rw [outline_append, List.append_assoc] at houtline
    refine htour.unclosed_ne_nil hm houtline hpart ?_
    exact fun hnone => hbehind (List.append_eq_nil_iff.mp hnone).2
  · intro outer houter
    obtain ⟨inside, hinside, hheld⟩ := htour.unclosed_part hm [] houtline
    rw [unclosed, hinside, List.append_nil] at houter
    obtain ⟨name, hname, hholds⟩ := hheld outer houter
    obtain rfl := List.mem_singleton.mp hname
    exact ⟨name, names, rfl, hholds⟩

theorem site_of_epilogue {done names : List String} {fqn : String}
    {prior epilogue current behind : Script}
    (hprior : Tour m module (done ++ [fqn]) (outline prior)) (hquiet : outline epilogue = [])
    (hsplit : epilogue = current ++ behind) :
    Site m module (done ++ fqn :: names) (done ++ [fqn]) prior current := by
  have hcurrent : outline current = [] := by
    rw [hsplit, outline_append] at hquiet
    exact (List.append_eq_nil_iff.mp hquiet).1
  refine ⟨hprior, ⟨names, by simp⟩, openThroughout_of_quiet hcurrent, ?_⟩
  intro outer houter
  rw [unclosed, hcurrent] at houter
  exact absurd houter List.not_mem_nil

theorem site_of_addTypes (hm : m.Faithful) {checks : Bool} {place : Declaration}
    (hplace : m.declaration place.fqn = .ok place) {done names : List String}
    {written script : Script} (hdone : Tour m place.name done (outline written))
    (h : names.foldlM (addType m checks place) written = .ok script) {before after : Script}
    {type : TypeExpr} {scope : Scope}
    (hsplit : script = before ++ .mark (.mention type scope) :: after) :
    (∃ more, written = before ++ .mark (.mention type scope) :: more) ∨
      ∃ tops prior current, before = prior ++ current ∧
        Site m place.name (done ++ names) tops prior current ∧ scope.module = place.fqn ∧
        scope.emitted = closed prior := by
  induction names generalizing done written with
  | nil =>
    obtain rfl := Outcome.pure_eq_ok.mp h
    exact .inl ⟨after, hsplit⟩
  | cons fqn names ih =>
    rw [List.foldlM_cons] at h
    obtain ⟨middle, hmiddle, hrest⟩ := Outcome.bind_eq_ok.mp h
    obtain ⟨d, definition, epilogue, hd, hdefine, rfl, hquiet, hdefinition, hepilogue⟩ :=
      addType_eq_ok supplies_true (fun _ _ => trivial) hmiddle
    have htour : Tour m place.name [fqn] (outline definition) :=
      tour_of_define ⟨rfl, place, hplace, rfl⟩ hd hdefine
    have hbegun : Tour m place.name done (outline (written ++ [blank, blank])) := by
      simpa using hdone
    have hdefined : Tour m place.name (done ++ [fqn])
        (outline (written ++ [blank, blank] ++ definition)) := by
      rw [outline_append]
      exact hbegun.append htour
    have hnext : Tour m place.name (done ++ [fqn])
        (outline (written ++ [blank, blank] ++ definition ++ epilogue)) := by
      rw [outline_append, hquiet, List.append_nil]
      exact hdefined
    rcases ih hnext hrest with ⟨more, hmore⟩ | hlater
    · -- The mention stands in what was written up to the epilogue of the first type.
      rcases append_eq_append_cons hmore with ⟨more, hmore, -⟩ | ⟨current, rfl, hcurrent⟩
      · rcases append_eq_append_cons hmore with ⟨more, hmore, -⟩ | ⟨current, rfl, hcurrent⟩
        · rcases append_eq_append_cons hmore with ⟨more, hwritten, -⟩ | ⟨current, -, hcurrent⟩
          · exact .inl ⟨more, hwritten⟩
          · have hsilent : Silent [blank, blank] := by simp [Silent]
            exact (hsilent type scope (by rw [hcurrent]; simp)).elim
        · obtain ⟨hmodule, hemitted, -⟩ := hdefinition type scope (by rw [hcurrent]; simp)
          exact .inr ⟨done, _, current, rfl, site_of_definition hm hbegun htour hcurrent
            (define_ends_closed hdefine hcurrent), hmodule, hemitted⟩
      · obtain ⟨hmodule, hemitted, -⟩ := hepilogue type scope (by rw [hcurrent]; simp)
        exact .inr ⟨_, _, current, rfl, site_of_epilogue hdefined hquiet hcurrent, hmodule,
          hemitted⟩
    · rw [List.append_cons]
      exact .inr hlater

theorem mem_closed {script : Script} {fqn : String} :
    fqn ∈ closed script ↔ .closed fqn ∈ outline script := by
  have hmark : ∀ step : Code.Step Mark, step.mark? = some (.closed fqn) ↔
      step = .mark (.closed fqn) := by
    intro step
    cases step <;> simp [Code.Step.mark?]
  rw [mem_outline, closed, List.mem_filterMap]
  constructor
  · rintro ⟨mark, hin, hclosed⟩
    obtain ⟨step, hstep, hsome⟩ := List.mem_filterMap.mp hin
    cases mark with
    | closed name =>
      obtain rfl := Option.some.inj hclosed
      exact (hmark step).mp hsome ▸ hstep
    | opened name => cases hclosed
    | member member => cases hclosed
    | mention type scope => cases hclosed
    | stub stub => cases hclosed
  · intro hin
    exact ⟨.closed fqn, List.mem_filterMap.mpr ⟨_, hin, rfl⟩, rfl⟩

theorem closed_append (script script' : Script) :
    closed (script ++ script') = closed script ++ closed script' := by
  simp [closed, Code.Script.marks]

theorem unclosed_append {prior : Script} (h : unclosed prior = []) (current : Script) :
    unclosed (prior ++ current) = unclosed current := by
  rw [unclosed, outline_append, unclosedFrom_append]
  exact congrArg (unclosedFrom · (outline current)) h

theorem site_of_moduleScript (hm : m.Faithful) {checks : Bool} {place : Declaration}
    (hplace : m.declaration place.fqn = .ok place) {script : Script}
    (h : moduleScript m checks place = .ok script) {pre post : Script} {type : TypeExpr}
    {scope : Scope} (hsplit : script = pre ++ .mark (.mention type scope) :: post) :
    ∃ members tops prior current, Members.arrange m place.name place.members = .ok members ∧
      pre = prior ++ current ∧
      Site m place.name (members.filterMap Member.nested?) tops prior current ∧
      scope.emitted = closed prior := by
  obtain ⟨imports, members, start, types, finish, -, hmembers, htypes, rfl, hstart, hquiet,
    hfinish⟩ := moduleScript_eq_ok h
  -- Only the types of the module hold mentions.
  obtain ⟨before, after, rfl, hbefore⟩ : ∃ before after, pre = start ++ before ∧
      types = before ++ .mark (.mention type scope) :: after := by
    rcases append_eq_append_cons hsplit with ⟨more, hmore, -⟩ | ⟨more, -, hmore⟩
    · rcases append_eq_append_cons hmore with ⟨more, hmore, -⟩ | ⟨before, hpre, hbefore⟩
      · exact (hstart type scope (by rw [hmore]; simp)).elim
      · exact ⟨before, more, hpre, hbefore⟩
    · exact (hfinish type scope (by rw [hmore]; simp)).elim
  rcases site_of_addTypes hm hplace .nil htypes hbefore with ⟨more, hnone⟩ |
    ⟨tops, prior, current, rfl, hsite, -, hemitted⟩
  · simp at hnone
  · have hnone : closed start = [] := by
      rw [List.eq_nil_iff_forall_not_mem]
      intro fqn hfqn
      rw [mem_closed, hquiet] at hfqn
      exact List.not_mem_nil hfqn
    refine ⟨members, tops, start ++ prior, current, hmembers, by simp, ?_, ?_⟩
    · refine ⟨?_, hsite.leading, hsite.throughout, hsite.held⟩
      rw [outline_append, hquiet, List.nil_append]
      exact hsite.complete
    · rw [closed_append, hnone, List.nil_append, hemitted]

theorem Holds.ne_module {fqn target : String} (h : Holds m module fqn target) {place : Declaration}
    (hplace : m.declaration place.fqn = .ok place) (hmodule : place.isModule = true) :
    target ≠ place.fqn := by
  induction h with
  | self hd hkind =>
    rintro rfl
    obtain rfl := Except.ok.inj (hd.symm.trans hplace)
    rw [hmodule] at hkind
    cases hkind
  | inner _ _ _ _ _ ih => exact ih

theorem eq_of_climb_back {place outer : String} {n k : ℕ} (hn : parent^[n] place = outer)
    (hk : parent^[k] outer = place) : outer = place := by
  by_cases hzero : n = 0
  · subst hzero
    exact hn.symm
  · obtain ⟨j, hj⟩ : ∃ j, k + n = j + 1 := ⟨k + n - 1, by omega⟩
    have hcycle : parent^[j + 1] place = place := by
      rw [← hj, Function.iterate_add_apply, hn, hk]
    have hempty := eq_empty_of_iterate_parent hcycle
    rw [hempty, iterate_parent_empty] at hn
    rw [hempty, ← hn]

section Tops

variable {place : Declaration} {top target outer : String}

theorem Holds.climb_to_module (hm : m.Faithful) (hplace : m.declaration place.fqn = .ok place)
    (hmodule : place.isModule = true) (h : Holds m module top target)
    (htop : parent top = place.fqn) :
    ∃ n, parent^[n] target = top ∧ parent^[n + 1] target = place.fqn ∧
      ∀ i ≤ n, Holds m module top (parent^[i] target) ∧ parent^[i] target ≠ place.fqn := by
  obtain ⟨n, hn, hchain⟩ := h.chain hm
  refine ⟨n, hn, ?_, fun i hi => ⟨(hchain i hi).1, (hchain i hi).1.ne_module hplace hmodule⟩⟩
  rw [Function.iterate_succ_apply', hn, htop]

theorem Holds.top_eq (hm : m.Faithful) (hplace : m.declaration place.fqn = .ok place)
    (hmodule : place.isModule = true) (h : Holds m module top target)
    (htop : parent top = place.fqn) {other : String} {k : ℕ}
    (hother : Holds m module other (parent^[k] target)) (hotherTop : parent other = place.fqn) :
    top = other := by
  obtain ⟨n, hn, hreach, hbelow⟩ := h.climb_to_module hm hplace hmodule htop
  obtain ⟨p, hp, hreach', hbelow'⟩ := hother.climb_to_module hm hplace hmodule hotherTop
  have hle : k ≤ n := by
    by_contra hlt
    obtain ⟨j, hj⟩ : ∃ j, k = j + (n + 1) := ⟨k - (n + 1), by omega⟩
    have hbeyond : parent^[j] place.fqn = parent^[k] target := by
      rw [hj, Function.iterate_add_apply, hreach]
    exact (hbelow' 0 (Nat.zero_le p)).2 (eq_of_climb_back hbeyond hreach')
  -- Both climbs go through the outer type, and meet the module in the same step.
  have hsteps : ∀ i, parent^[i] (parent^[k] target) = parent^[i + k] target := fun i =>
    (Function.iterate_add_apply parent i k target).symm
  have hsame : n = p + k := by
    rw [hsteps] at hreach' hp
    have hfirst : ¬ p + 1 + k ≤ n := fun hin => (hbelow _ hin).2 hreach'
    have hsecond : ¬ n + 1 - k ≤ p := by
      intro hin
      refine (hbelow' _ hin).2 ?_
      rw [hsteps, Nat.sub_add_cancel (by omega), hreach]
    omega
  rw [← hn, ← hp, hsteps, hsame]

end Tops

/-- A type and all that lies around it up to a module are among some names. -/
def Enclosed (module : String) (names : List String) (fqn : String) : Prop :=
  ∃ n, parent^[n + 1] fqn = module ∧ ∀ i ≤ n, parent^[i] fqn ∈ names ∧ parent^[i] fqn ≠ module

section Sites

variable {place : Declaration} {members : List Member} {tops : List String}
  {prior current : Script}

theorem Site.parent_of_mem (hm : m.Faithful) (hplace : m.declaration place.fqn = .ok place)
    (hmembers : Members.arrange m place.name place.members = .ok members)
    (h : Site m place.name (members.filterMap Member.nested?) tops prior current) {top : String}
    (htop : top ∈ tops) : parent top = place.fqn :=
  parent_of_arrange hm hplace hmembers (h.leading.subset htop)

theorem Site.enclosed (hm : m.Faithful) (hplace : m.declaration place.fqn = .ok place)
    (hmodule : place.isModule = true)
    (hmembers : Members.arrange m place.name place.members = .ok members)
    (h : Site m place.name (members.filterMap Member.nested?) tops prior current) {fqn : String}
    (hfqn : fqn ∈ closed prior) : Enclosed place.fqn (closed prior) fqn := by
  obtain ⟨top, htop, hholds⟩ := (h.complete.closed_mem_iff hm).mp (mem_closed.mp hfqn)
  obtain ⟨n, -, hreach, hbelow⟩ :=
    hholds.climb_to_module hm hplace hmodule (h.parent_of_mem hm hplace hmembers htop)
  refine ⟨n, hreach, fun i hi => ⟨?_, (hbelow i hi).2⟩⟩
  exact mem_closed.mpr ((h.complete.closed_mem_iff hm).mpr ⟨top, htop, (hbelow i hi).1⟩)

theorem Site.not_open (hm : m.Faithful) (hplace : m.declaration place.fqn = .ok place)
    (hmodule : place.isModule = true)
    (hmembers : Members.arrange m place.name place.members = .ok members)
    (h : Site m place.name (members.filterMap Member.nested?) tops prior current)
    (hdistinct : (m.assembly.types.values.map Api.TypeEntry.fqn).Nodup) {fqn : String}
    (hfqn : fqn ∈ closed prior) (k : ℕ) : parent^[k] fqn ∉ unclosed current := by
  intro hopen
  obtain ⟨top, htop, hholds⟩ := (h.complete.closed_mem_iff hm).mp (mem_closed.mp hfqn)
  obtain ⟨other, rest, hnames, hother⟩ := h.held _ hopen
  have hlater : other ∈ members.filterMap Member.nested? := by simp [hnames]
  have hsame : top = other :=
    hholds.top_eq hm hplace hmodule (h.parent_of_mem hm hplace hmembers htop) hother
      (parent_of_arrange hm hplace hmembers hlater)
  -- The open type stands behind the complete ones among the names of the module.
  have hnodup : (members.filterMap Member.nested?).Nodup := by
    refine Members.nodup_nested_of_arrange hmembers ?_
    rw [hm.nested_members hplace]
    exact hdistinct.sublist ((List.filter_sublist).map _)
  rw [hnames, List.nodup_append] at hnodup
  exact hnodup.2.2 top htop other List.mem_cons_self hsame

end Sites

/-- A type that is shown without quotes is complete together with all around it, and so is every
type that counts as complete. The types that count as complete at a mention are those that were
finished before the definition or epilogue around it began. If types have names of their own,
nothing that is open leads to a type that is shown without quotes. -/
theorem bare_reference_complete {a : Api.Assembly} {dependencies : List Api.Assembly}
    (hbuild : Model.build a dependencies = .ok m) {place : Declaration} (hplace : place ∈ m.modules)
    {checks : Bool} {script : Script} (hscript : moduleScript m checks place = .ok script)
    {pre post : Script} {type : TypeExpr} {scope : Scope}
    (hsplit : script = pre ++ .mark (.mention type scope) :: post) :
    (∃ prior current, pre = prior ++ current ∧ unclosed prior = [] ∧ OpenThroughout current ∧
      scope.emitted = closed prior) ∧
    (∀ fqn ∈ scope.emitted, Enclosed place.fqn scope.emitted fqn) ∧
    ∀ fqn, scope.annotation = true → m.ShowsBare scope fqn →
      Enclosed place.fqn (closed pre) fqn ∧
      ((m.assembly.types.values.map Api.TypeEntry.fqn).Nodup →
        fqn ∉ unclosed pre ∧ ∀ outer ∈ ancestors fqn, outer ∉ unclosed pre) := by
  have hm := Model.faithful_of_build hbuild
  have hself := hm.declaration_of_mem_modules hplace
  have hmodule : place.isModule = true := decide_eq_true (Model.mem_modules_iff.mp hplace).2
  obtain ⟨members, tops, prior, current, hmembers, rfl, hsite, hemitted⟩ :=
    site_of_moduleScript hm hself hscript hsplit
  have hprior : unclosed prior = [] := hsite.complete.unclosedFrom_eq []
  have henclosed : ∀ fqn ∈ closed prior, Enclosed place.fqn (closed prior) fqn := fun fqn hfqn =>
    hsite.enclosed hm hself hmodule hmembers hfqn
  refine ⟨⟨prior, current, rfl, hprior, hsite.throughout, hemitted⟩, ?_, ?_⟩
  · rw [hemitted]
    exact henclosed
  · intro fqn hannotated hbare
    have hfqn : fqn ∈ closed prior := hemitted ▸ hbare.emitted hannotated
    refine ⟨?_, fun hdistinct => ?_⟩
    · obtain ⟨n, hn, hbelow⟩ := henclosed fqn hfqn
      refine ⟨n, hn, fun i hi => ⟨?_, (hbelow i hi).2⟩⟩
      rw [closed_append]
      exact List.mem_append_left _ (hbelow i hi).1
    · have hnone := hsite.not_open hm hself hmodule hmembers hdistinct hfqn
      rw [unclosed_append hprior]
      refine ⟨hnone 0, fun outer houter => ?_⟩
      obtain ⟨n, rfl⟩ := mem_ancestors_iff.mp houter
      exact hnone (n + 1)

def bareNames (m : Model) (seen : Script) : Script → List (String × List String)
  | [] => []
  | step :: rest =>
    (match step with
      | .mark (.mention type scope) =>
        if scope.annotation then
          (type.mentions.filter (m.ShowsBare scope ·)).map (·, unclosed seen)
        else []
      | _ => []) ++ bareNames m (seen ++ [step]) rest

theorem mem_bareNames {seen script : Script} {fqn : String} {stack : List String}
    (h : (fqn, stack) ∈ bareNames m seen script) :
    ∃ pre type scope post, script = pre ++ .mark (.mention type scope) :: post ∧
      fqn ∈ type.mentions ∧ scope.annotation = true ∧ m.ShowsBare scope fqn ∧
      unclosed (seen ++ pre) = stack := by
  induction script generalizing seen with
  | nil => cases h
  | cons step rest ih =>
    rcases List.mem_append.mp h with hstep | hrest
    · split at hstep
      · rename_i type scope
        split at hstep
        · rename_i hannotated
          simp only [List.mem_map, List.mem_filter, decide_eq_true_eq, Prod.mk.injEq] at hstep
          obtain ⟨name, ⟨hmention, hbare⟩, rfl, rfl⟩ := hstep
          exact ⟨[], type, scope, rest, rfl, hmention, hannotated, hbare, by simp⟩
        · cases hstep
      · cases hstep
    · obtain ⟨pre, type, scope, post, rfl, hmention, hannotated, hbare, hstack⟩ := ih hrest
      refine ⟨step :: pre, type, scope, post, rfl, hmention, hannotated, hbare, ?_⟩
      simpa using hstack

def classReturning (fqn name type : String) : Api.TypeEntry :=
  .class { Api.ClassType.ofFqn fqn with
    name
    methods := [{ name := "part", returns := some { type := .named type } }] }

def partUser (fqn : String) : Api.Assembly :=
  { Api.Assembly.ofModule "Acme" "1.0.0" "acme" with
    types := .ofList [
      ("Acme.Outer", classReturning "Acme.Outer" "Outer" "Acme.Outer.Part"),
      ("Acme.Outer.Part", .class (.ofFqn "Acme.Outer.Part")),
      ("Acme.User", classReturning fqn "User" "Acme.Outer.Part")]
    submodules := .ofList [("Acme.Outer.Part", { targets := {} })] }

def bareView : Model × Declaration × Script → List (String × List String) × Bool
  | (m, _, script) =>
    (bareNames m [] script, decide (m.assembly.types.values.map Api.TypeEntry.fqn).Nodup)

theorem bareView_user : (rendered (partUser "Acme.User") "Acme").toOption.map bareView =
    some ([("Acme.Outer.Part", ["Acme.User"])], true) := by
  decide +kernel

theorem bare_reference_complete_user :
    ∃ m place script pre type scope post,
      Model.build (partUser "Acme.User") [] = .ok m ∧ place ∈ m.modules ∧
      moduleScript m true place = .ok script ∧
      script = pre ++ .mark (.mention type scope) :: post ∧ unclosed pre = ["Acme.User"] ∧
      m.ShowsBare scope "Acme.Outer.Part" ∧
      Enclosed place.fqn (closed pre) "Acme.Outer.Part" ∧
      ∀ outer ∈ ancestors "Acme.Outer.Part", outer ∉ unclosed pre := by
  obtain ⟨⟨m, place, script⟩, hrendered, hview⟩ := Outcome.exists_eq_ok_of_map bareView_user
  obtain ⟨hbuild, hplace, hscript⟩ := rendered_eq_ok hrendered
  obtain ⟨hnames, hdistinct⟩ := Prod.mk.inj hview
  have hin : ("Acme.Outer.Part", ["Acme.User"]) ∈ bareNames m [] script := by simp [hnames]
  obtain ⟨pre, type, scope, post, hsplit, -, hannotated, hbare, hopen⟩ := mem_bareNames hin
  obtain ⟨-, -, hreferences⟩ := bare_reference_complete hbuild hplace hscript hsplit
  obtain ⟨henclosed, hclosed⟩ := hreferences _ hannotated hbare
  exact ⟨m, place, script, pre, type, scope, post, hbuild, hplace, hscript, hsplit, hopen, hbare,
    henclosed, (hclosed (of_decide_eq_true hdistinct)).2⟩

theorem bareView_namesake : (rendered (partUser "Acme.Outer") "Acme").toOption.map bareView =
    some ([("Acme.Outer.Part", ["Acme.Outer"])], false) := by
  decide +kernel

theorem namesake_open_at_bare_reference :
    ¬ ∀ (a : Api.Assembly) (dependencies : List Api.Assembly) (m : Model) (place : Declaration)
      (checks : Bool) (script pre post : Script) (type : TypeExpr) (scope : Scope) (fqn : String),
      Model.build a dependencies = .ok m → place ∈ m.modules →
      moduleScript m checks place = .ok script →
      script = pre ++ .mark (.mention type scope) :: post → fqn ∈ type.mentions →
      scope.annotation = true → m.ShowsBare scope fqn →
      ∀ outer ∈ ancestors fqn, outer ∉ unclosed pre := by
  intro h
  obtain ⟨⟨m, place, script⟩, hrendered, hview⟩ := Outcome.exists_eq_ok_of_map bareView_namesake
  obtain ⟨hbuild, hplace, hscript⟩ := rendered_eq_ok hrendered
  obtain ⟨hnames, -⟩ := Prod.mk.inj hview
  have hin : ("Acme.Outer.Part", ["Acme.Outer"]) ∈ bareNames m [] script := by simp [hnames]
  obtain ⟨pre, type, scope, post, hsplit, hmention, hannotated, hbare, hopen⟩ :=
    mem_bareNames hin
  have hopen : unclosed pre = ["Acme.Outer"] := hopen
  have haround : "Acme.Outer" ∈ ancestors "Acme.Outer.Part" := by decide +kernel
  refine h _ _ m place true script pre post type scope _ hbuild hplace hscript hsplit hmention
    hannotated hbare "Acme.Outer" haround ?_
  simp [hopen]

end Binding

end Bindery
