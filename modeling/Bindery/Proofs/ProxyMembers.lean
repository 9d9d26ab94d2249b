import Bindery.Proofs.FieldPlaces
import Bindery.Proofs.Outline
import Bindery.Proofs.SharedNames

/-!
# Members of proxies

The body of a type has the members that keep their names. Its proxy is written from the members of
the type as they were declared. So the proxy has every kept member that it should have, and in
addition each deprecated member that another one has replaced.
-/

namespace Bindery

namespace Members

variable {m : Model} {module : String} {members out : List Member} {member : Member}

/-- The member is deprecated and shares its name with one that is not. -/
def Replaced (members : List Member) (member : Member) : Prop :=
  member.isDeprecated = true ∧
    ∃ other ∈ members, other.pythonName = member.pythonName ∧ other.isDeprecated = false

instance (members : List Member) (member : Member) : Decidable (Replaced members member) :=
  inferInstanceAs (Decidable (_ ∧ _))

theorem not_replaced_of_bearers (hin : member ∈ members)
    (hone : bearers members member.pythonName = 1) : ¬ Replaced members member := by
  rintro ⟨hdeprecated, other, hother, hname, hlive⟩
  rw [← length_namesakes, List.length_eq_one_iff] at hone
  obtain ⟨only, honly⟩ := hone
  have hmember : member = only := by
    simpa [honly] using mem_namesakes.mpr ⟨hin, rfl⟩
  have hsame : other = only := by
    simpa [honly] using mem_namesakes.mpr ⟨hother, hname⟩
  rw [hmember, ← hsame, hlive] at hdeprecated
  cases hdeprecated

theorem keeps_iff_not_replaced (hgood : ∀ name, ¬ Bad members name) (hin : member ∈ members) :
    Keeps members member ↔ ¬ Replaced members member := by
  constructor
  · rintro (hone | ⟨-, hlive⟩)
    · exact not_replaced_of_bearers hin hone
    · rintro ⟨hdeprecated, -⟩
      rw [hlive] at hdeprecated
      cases hdeprecated
  · intro hstays
    by_cases hone : bearers members member.pythonName = 1
    · exact .inl hone
    have hborne := one_le_bearers hin rfl
    have hlive : live members member.pythonName = 1 := by
      by_contra hne
      exact hgood member.pythonName ⟨by omega, hne⟩
    refine .inr ⟨hlive, ?_⟩
    have hpositive : 0 < live members member.pythonName := by omega
    obtain ⟨other, hother, hboth⟩ := List.countP_pos_iff.mp hpositive
    simp only [Bool.and_eq_true, decide_eq_true_eq, Bool.not_eq_true'] at hboth
    cases hdeprecated : member.isDeprecated with
    | false => rfl
    | true => exact absurd ⟨hdeprecated, other, hother, hboth⟩ hstays

theorem not_bad_of_arrange (h : arrange m module members = .ok out) (name : String) :
    ¬ Bad members name := by
  intro hbad
  obtain ⟨first, -, hfails⟩ := select_of_bad hbad
  obtain ⟨kept, hkept, -⟩ := Outcome.bind_eq_ok.mp h
  cases hkept.symm.trans hfails

theorem arrange_perm_keeps (h : arrange m module members = .ok out) :
    out.Perm (members.filter (Keeps members ·)) := by
  obtain ⟨kept, hkept, hperm⟩ := select_of_good (not_bad_of_arrange h)
  obtain ⟨_, hselected, hsort⟩ := Outcome.bind_eq_ok.mp h
  obtain rfl := Except.ok.inj (hselected.symm.trans hkept)
  exact (sort_perm hsort).trans hperm

end Members

namespace Binding

open Api Members
open Catalog (assemblyOf)

variable {ctx : Context} {d : Declaration} {members : List Member}

def hasProxy : Shape → Bool
  | .class _ _ isAbstract _ => isAbstract
  | .interface _ => true
  | _ => false

def proxied : Shape → Member → Bool
  | .class _ _ true _ => fun member => member.isOperation && member.isAbstract
  | .interface _ => Member.isOperation
  | _ => fun _ => false

theorem proxyMembers_eq (d : Declaration) :
    proxyMembers d = d.members.filter (proxied d.shape) := by
  rw [proxyMembers]
  rcases d.shape with _ | ⟨_, _, _ | _, _⟩ | _ | _ | _
  · simp [proxied]
  · simp [proxied]
  · rfl
  · rfl
  · simp [proxied]
  · simp [proxied]

theorem isOperation_of_proxied {shape : Shape} {member : Member}
    (h : proxied shape member = true) : member.isOperation = true := by
  rw [proxied.eq_def] at h
  split at h
  · exact (Bool.and_eq_true_iff.mp h).1
  · exact h
  · cases h

theorem members_of_classScript {nesting : Nesting} {params : List String} {between script : Script}
    (hbetween : skeleton between = [])
    (h : classScript nesting ctx d params between = .ok script) :
    ∃ members, bodyMembers ctx d = .ok members ∧
      ∀ member ∈ members, member.nested? = none → .member member ∈ skeleton script := by
  simp only [classScript, Outcome.bind_eq_ok, Outcome.pure_eq_ok] at h
  obtain ⟨members, hmembers, scripts, hscripts, rfl⟩ := h
  refine ⟨members, hmembers, fun member hin hnested => ?_⟩
  obtain ⟨inner, hinner, hscript⟩ := Outcome.exists_mem_mapM hscripts hin
  have hmark := skeleton_memberScript hscript
  rw [hnested] at hmark
  have hbody : .member member ∈ skeleton (between.intercalate scripts) := by
    rw [skeleton_intercalate hbetween, List.mem_flatMap]
    exact ⟨inner, hinner, by rw [hmark]; exact List.mem_singleton_self _⟩
  have hsome : d.members.isEmpty = false := by
    cases hempty : d.members.isEmpty with
    | false => rfl
    | true =>
      rw [bodyMembers, if_pos hempty, Outcome.pure_eq_ok] at hmembers
      rw [← hmembers] at hin
      exact absurd hin List.not_mem_nil
  simp [hsome, hbody]

theorem members_of_define {fuel : ℕ} {definition : Script} (hproxy : hasProxy d.shape = true)
    (h : define fuel ctx d = .ok definition) :
    ∃ members, bodyMembers (ctx.inside d.fqn) d = .ok members ∧
      ∀ member ∈ members, member.nested? = none → .member member ∈ skeleton definition := by
  cases fuel with
  | zero => cases h
  | succ fuel =>
    simp only [define, definitionScript, Outcome.bind_eq_ok, Outcome.pure_eq_ok] at h
    obtain ⟨shaped, hshaped, rfl⟩ := h
    rw [shapeScript] at hshaped
    split at hshaped
    · simp only [Outcome.bind_eq_ok, Outcome.pure_eq_ok] at hshaped
      obtain ⟨implemented, -, bases, -, body, hbody, rfl⟩ := hshaped
      obtain ⟨members, hmembers, hwritten⟩ := members_of_classScript (by simp) hbody
      exact ⟨members, hmembers, fun member hin hnested => by simp [hwritten member hin hnested]⟩
    · simp only [Outcome.bind_eq_ok, Outcome.pure_eq_ok] at hshaped
      obtain ⟨bases, -, body, hbody, rfl⟩ := hshaped
      obtain ⟨members, hmembers, hwritten⟩ := members_of_classScript (by simp) hbody
      exact ⟨members, hmembers, fun member hin hnested => by simp [hwritten member hin hnested]⟩
    all_goals
      rename_i hshape
      rw [hshape] at hproxy
      cases hproxy

theorem bodyMembers_keeps (h : bodyMembers ctx d = .ok members) :
    (∀ name, ¬ Bad d.members name) ∧ members.Perm (d.members.filter (Keeps d.members ·)) := by
  rw [bodyMembers] at h
  split at h
  · rename_i hempty
    obtain rfl := Outcome.pure_eq_ok.mp h
    rw [List.isEmpty_iff.mp hempty]
    refine ⟨fun name hbad => ?_, .nil⟩
    exact absurd hbad.1 (by simp [bearers])
  · simp only [Outcome.bind_eq_ok] at h
    obtain ⟨module, -, harrange⟩ := h
    exact ⟨not_bad_of_arrange harrange, arrange_perm_keeps harrange⟩

theorem filter_proxied_perm (h : bodyMembers ctx d = .ok members) :
    (members.filter (proxied d.shape)).Perm
      ((proxyMembers d).filter (Keeps d.members ·)) := by
  rw [proxyMembers_eq, List.filter_comm]
  exact (bodyMembers_keeps h).2.filter _

theorem mem_bodyMembers_iff (h : bodyMembers ctx d = .ok members) {member : Member}
    (hin : member ∈ proxyMembers d) : member ∈ members ↔ ¬ Replaced d.members member := by
  obtain ⟨hgood, hperm⟩ := bodyMembers_keeps h
  have hmember := (mem_proxyMembers hin).1
  rw [hperm.mem_iff, List.mem_filter, decide_eq_true_eq, keeps_iff_not_replaced hgood hmember]
  exact and_iff_right hmember

theorem proxyMembers_perm_iff (h : bodyMembers ctx d = .ok members) :
    (proxyMembers d).Perm (members.filter (proxied d.shape)) ↔
      ∀ member ∈ proxyMembers d, ¬ Replaced d.members member := by
  have hkept := filter_proxied_perm h
  have hkeeps : ∀ member ∈ proxyMembers d, Keeps d.members member ↔ ¬ Replaced d.members member :=
    fun member hin => keeps_iff_not_replaced (bodyMembers_keeps h).1 (mem_proxyMembers hin).1
  constructor
  · intro hperm member hin
    have hlength := (hperm.trans hkept).length_eq.symm
    rw [List.length_filter_eq_length_iff] at hlength
    exact (hkeeps member hin).mp (of_decide_eq_true (hlength member hin))
  · intro hstay
    have hall : (proxyMembers d).filter (Keeps d.members ·) = proxyMembers d :=
      List.filter_eq_self.mpr fun member hin =>
        decide_eq_true ((hkeeps member hin).mpr (hstay member hin))
    rw [hall] at hkept
    exact hkept.symm

theorem nodup_proxyMembers (h : bodyMembers ctx d = .ok members)
    (hstay : ∀ member ∈ proxyMembers d, ¬ Replaced d.members member) :
    ((proxyMembers d).map Member.pythonName).Nodup := by
  have hperm := (proxyMembers_perm_iff h).mpr hstay
  have hkept := ((bodyMembers_keeps h).2.map Member.pythonName).nodup_iff.mpr
    (nodup_filter_keeps d.members)
  exact (hperm.map _).nodup_iff.mpr (hkept.sublist (List.filter_sublist.map _))

/-- The proxy of a type whose definition is written has all members of the body that belong into it.
Its other members are the replaced ones, so it has the members of the body if and only if no
member that belongs into it is replaced, and then no two of its members share a name. -/
theorem proxy_members_exact_iff {fuel : ℕ} {definition epilogue : Script}
    (hproxy : hasProxy d.shape = true) (hdefinition : define fuel ctx d = .ok definition)
    (hepilogue : epilogueScript ctx d = .ok epilogue) :
    ∃ members, bodyMembers (ctx.inside d.fqn) d = .ok members ∧
      (∀ member ∈ members, proxied d.shape member = true → .member member ∈ skeleton definition) ∧
      skeleton epilogue = (proxyMembers d).map .member ∧
      (members.filter (proxied d.shape)).Subperm (proxyMembers d) ∧
      (∀ member ∈ proxyMembers d, member ∉ members ↔ Replaced d.members member) ∧
      ((proxyMembers d).Perm (members.filter (proxied d.shape)) ↔
        ∀ member ∈ proxyMembers d, ¬ Replaced d.members member) ∧
      ((∀ member ∈ proxyMembers d, ¬ Replaced d.members member) →
        ((proxyMembers d).map Member.pythonName).Nodup) := by
  obtain ⟨members, hmembers, hwritten⟩ := members_of_define hproxy hdefinition
  refine ⟨members, hmembers, fun member hin hproxied => ?_, skeleton_epilogueScript hepilogue, ?_,
    ?_, proxyMembers_perm_iff hmembers, nodup_proxyMembers hmembers⟩
  · exact hwritten member hin (nested?_of_isOperation (isOperation_of_proxied hproxied))
  · exact (filter_proxied_perm hmembers).subperm.trans List.filter_sublist.subperm
  · intro member hin
    rw [mem_bodyMembers_iff hmembers hin, not_not]

def proxyIn (a : Assembly) (fqn : String) :
    Outcome (Context × Declaration × Script × Script × List Member) := do
  let m ← Model.build a []
  let d ← m.declaration fqn
  let ctx : Context := { model := m, scope := { module := a.name } }
  return (ctx, d, ← define (nestingLimit m) ctx d, ← epilogueScript ctx d,
    ← bodyMembers (ctx.inside d.fqn) d)

def proxyView (found : Context × Declaration × Script × Script × List Member) :
    Bool × List (List String) :=
  let d := found.2.1
  (hasProxy d.shape, [(proxyMembers d).map Member.pythonName,
    ((proxyMembers d).filter (Replaced d.members ·)).map Member.pythonName,
    found.2.2.2.2.map Member.pythonName])

theorem exists_of_proxyView {a : Assembly} {fqn : String} {proxy replaced body : List String}
    (h : (proxyIn a fqn).toOption.map proxyView = some (true, [proxy, replaced, body])) :
    ∃ fuel ctx d definition epilogue members, hasProxy d.shape = true ∧
      define fuel ctx d = .ok definition ∧ epilogueScript ctx d = .ok epilogue ∧
      bodyMembers (ctx.inside d.fqn) d = .ok members ∧
      (proxyMembers d).map Member.pythonName = proxy ∧
      ((proxyMembers d).filter (Replaced d.members ·)).map Member.pythonName = replaced ∧
      members.map Member.pythonName = body := by
  obtain ⟨_, hfound, hview⟩ := Outcome.exists_eq_ok_of_map h
  simp only [proxyIn, Outcome.bind_eq_ok, Outcome.pure_eq_ok] at hfound
  obtain ⟨m, -, d, -, definition, hdefinition, epilogue, hepilogue, members, hmembers, rfl⟩ :=
    hfound
  simp only [proxyView, Prod.mk.injEq, List.cons.injEq, and_true] at hview
  exact ⟨_, _, d, definition, epilogue, members, hview.1, hdefinition, hepilogue, hmembers, hview.2⟩

def deprecatedMethod (name : String) (isAbstract : Bool) : Method :=
  { name, isAbstract, docs := some { deprecated := "old" } }

def abstractTool : Assembly :=
  assemblyOf [.class { ClassType.ofFqn "Acme.Tool" with
    isAbstract := true
    methods := [{ name := "run", isAbstract := true }, deprecatedMethod "oldRun" true,
      deprecatedMethod "fooBar" false, { name := "foo_bar" }] }]

theorem proxy_members_exact_iff_tool :
    ∃ fuel ctx d definition epilogue members, hasProxy d.shape = true ∧
      define fuel ctx d = .ok definition ∧ epilogueScript ctx d = .ok epilogue ∧
      bodyMembers (ctx.inside d.fqn) d = .ok members ∧
      members.map Member.pythonName = ["run", "old_run", "foo_bar"] ∧
      (proxyMembers d).map Member.pythonName = ["run", "old_run"] ∧
      (proxyMembers d).Perm (members.filter (proxied d.shape)) := by
  have hview : (proxyIn abstractTool "Acme.Tool").toOption.map proxyView =
      some (true, [["run", "old_run"], [], ["run", "old_run", "foo_bar"]]) := by
    decide +kernel
  obtain ⟨fuel, ctx, d, definition, epilogue, members, hproxy, hdefinition, hepilogue, hmembers,
    hnames, hreplaced, hbody⟩ := exists_of_proxyView hview
  obtain ⟨members', hmembers', -, -, -, -, hiff, -⟩ :=
    proxy_members_exact_iff hproxy hdefinition hepilogue
  obtain rfl := Except.ok.inj (hmembers'.symm.trans hmembers)
  refine ⟨fuel, ctx, d, definition, epilogue, _, hproxy, hdefinition, hepilogue, hmembers, hbody,
    hnames, hiff.mpr ?_⟩
  intro member hin hgone
  have hnone := List.map_eq_nil_iff.mp hreplaced
  exact List.filter_eq_nil_iff.mp hnone member hin (decide_eq_true hgone)

def renamedMember : Assembly :=
  assemblyOf [.interface { InterfaceType.ofFqn "Acme.IThing" with
    methods := [deprecatedMethod "fooBar" true, { name := "foo_bar", isAbstract := true }] }]

theorem proxy_has_replaced_member :
    ∃ fuel ctx d definition epilogue members, hasProxy d.shape = true ∧
      define fuel ctx d = .ok definition ∧ epilogueScript ctx d = .ok epilogue ∧
      bodyMembers (ctx.inside d.fqn) d = .ok members ∧
      members.map Member.pythonName = ["foo_bar"] ∧
      skeleton epilogue = (proxyMembers d).map .member ∧
      (proxyMembers d).map Member.pythonName = ["foo_bar", "foo_bar"] ∧
      ¬ (proxyMembers d).Perm (members.filter (proxied d.shape)) := by
  have hview : (proxyIn renamedMember "Acme.IThing").toOption.map proxyView =
      some (true, [["foo_bar", "foo_bar"], ["foo_bar"], ["foo_bar"]]) := by
    decide +kernel
  obtain ⟨fuel, ctx, d, definition, epilogue, members, hproxy, hdefinition, hepilogue, hmembers,
    hnames, -, hbody⟩ := exists_of_proxyView hview
  refine ⟨fuel, ctx, d, definition, epilogue, members, hproxy, hdefinition, hepilogue, hmembers,
    hbody, skeleton_epilogueScript hepilogue, hnames, fun hperm => ?_⟩
  have hdistinct := nodup_proxyMembers hmembers ((proxyMembers_perm_iff hmembers).mp hperm)
  rw [hnames] at hdistinct
  exact absurd hdistinct (by decide)

end Binding

end Bindery
