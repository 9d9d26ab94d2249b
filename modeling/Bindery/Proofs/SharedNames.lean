import Bindery.Proofs.Rounds
import Mathlib.Data.List.Count

/-!
# Shared names

Members that share a Python name are told apart by deprecation: the only one that is not
deprecated keeps the name. A name that two or more members bear and that no single one of them
keeps is bad, and of several bad names the one that comes first in the list is reported. Without a
bad name the members that keep their names are sorted.
-/

namespace Bindery

theorem Outcome.mapM_eq_error_of_find? {α β : Type} {f : α → Outcome β} {p : α → Bool} {xs : List α}
    {x : α} {fault : Fault} (hok : ∀ y ∈ xs, p y = false → ∃ z, f y = .ok z)
    (hfind : xs.find? p = some x) (hx : f x = .error fault) : xs.mapM f = .error fault := by
  induction xs with
  | nil => cases hfind
  | cons y xs ih =>
    rw [List.mapM_cons]
    cases hy : p y with
    | true =>
      rw [List.find?_cons_of_pos hy] at hfind
      obtain rfl := Option.some.inj hfind
      rw [hx]
      rfl
    | false =>
      rw [List.find?_cons_of_neg (by simp [hy])] at hfind
      obtain ⟨z, hz⟩ := hok y List.mem_cons_self hy
      rw [hz, ih (fun other ho => hok other (List.mem_cons_of_mem y ho)) hfind]
      rfl

namespace Members

variable {m : Model} {module : String} {members : List Member} {name : String}

def bearers (members : List Member) (name : String) : ℕ :=
  members.countP fun member => member.pythonName = name

def live (members : List Member) (name : String) : ℕ :=
  members.countP fun member => member.pythonName = name && !member.isDeprecated

def Bad (members : List Member) (name : String) : Prop :=
  2 ≤ bearers members name ∧ live members name ≠ 1

instance (members : List Member) (name : String) : Decidable (Bad members name) :=
  inferInstanceAs (Decidable (_ ∧ _))

/-- The member is alone with its name, or the only one with it that is not deprecated. -/
def Keeps (members : List Member) (member : Member) : Prop :=
  bearers members member.pythonName = 1 ∨
    live members member.pythonName = 1 ∧ member.isDeprecated = false

instance (members : List Member) (member : Member) : Decidable (Keeps members member) :=
  inferInstanceAs (Decidable (_ ∨ _))

theorem mem_namesakes {member : Member} :
    member ∈ namesakes members name ↔ member ∈ members ∧ member.pythonName = name := by
  simp [namesakes]

theorem length_namesakes (members : List Member) (name : String) :
    (namesakes members name).length = bearers members name :=
  List.countP_eq_length_filter.symm

theorem length_live_namesakes (members : List Member) (name : String) :
    ((namesakes members name).filter (!·.isDeprecated)).length = live members name := by
  rw [namesakes, List.filter_filter, live, List.countP_eq_length_filter]
  simp only [Bool.and_comm]

theorem keeper_eq (hborne : 1 ≤ bearers members name) :
    (∃ member, keeper members name = .ok member ∧ namesakes members name = [member] ∧
      bearers members name = 1) ∨
    (∃ member, keeper members name = .ok member ∧ 2 ≤ bearers members name ∧
      (namesakes members name).filter (!·.isDeprecated) = [member] ∧ live members name = 1) ∨
    Bad members name ∧ keeper members name =
      .error (if live members name = 0 then .allDeprecated name else .ambiguousName name) := by
  have hbearers := length_namesakes members name
  have hlive := length_live_namesakes members name
  rw [keeper]
  split
  · rename_i only honly
    rw [honly] at hbearers
    exact .inl ⟨only, rfl, honly, hbearers.symm⟩
  · rename_i hmany
    have htwo : 2 ≤ bearers members name := by
      have hne : bearers members name ≠ 1 := by
        intro hone
        obtain ⟨only, honly⟩ := List.length_eq_one_iff.mp (hbearers.trans hone)
        exact hmany only honly
      omega
    split
    · rename_i member hmember
      rw [hmember] at hlive
      exact .inr (.inl ⟨member, rfl, htwo, hmember, hlive.symm⟩)
    · -- All bearers are deprecated.
      rename_i hnone
      rw [hnone, List.length_nil] at hlive
      exact .inr (.inr ⟨⟨htwo, by omega⟩, by rw [if_pos hlive.symm]⟩)
    · rename_i hnotOne hnotNone
      have hzero : live members name ≠ 0 := by
        rw [← hlive]
        simpa using hnotNone
      have hone : live members name ≠ 1 := by
        intro hone
        obtain ⟨member, hmember⟩ := List.length_eq_one_iff.mp (hlive.trans hone)
        exact hnotOne member hmember
      exact .inr (.inr ⟨⟨htwo, hone⟩, by rw [if_neg hzero]⟩)

theorem one_le_bearers {member : Member} (hin : member ∈ members)
    (hname : member.pythonName = name) : 1 ≤ bearers members name := by
  rw [bearers, Nat.one_le_iff_ne_zero, Ne, List.countP_eq_zero]
  intro hnone
  exact hnone member hin (decide_eq_true hname)

theorem keeper_eq_ok_iff {member : Member} :
    keeper members name = .ok member ↔
      member ∈ members ∧ member.pythonName = name ∧ Keeps members member := by
  constructor
  · intro h
    obtain ⟨hin, hname⟩ := mem_namesakes.mp (mem_namesakes_of_keeper h)
    refine ⟨hin, hname, ?_⟩
    rw [Keeps, hname]
    rcases keeper_eq (one_le_bearers hin hname) with
      ⟨other, -, -, hone⟩ | ⟨other, hother, -, honly, hone⟩ | ⟨-, herror⟩
    · exact .inl hone
    · obtain rfl := Except.ok.inj (h.symm.trans hother)
      have hlive := List.mem_filter.mp (honly ▸ List.mem_singleton_self member)
      exact .inr ⟨hone, by simpa using hlive.2⟩
    · rw [h] at herror
      cases herror
  · rintro ⟨hin, rfl, hkeeps⟩
    have hnamesake := mem_namesakes.mpr ⟨hin, rfl⟩
    rcases keeper_eq (one_le_bearers hin rfl) with
      ⟨other, hother, honly, -⟩ | ⟨other, hother, htwo, honly, -⟩ | ⟨hbad, -⟩
    · rw [honly, List.mem_singleton] at hnamesake
      rw [hother, hnamesake]
    · have hfresh : member.isDeprecated = false := by
        rcases hkeeps with hone | ⟨-, hfresh⟩
        · omega
        · exact hfresh
      have hlive : member ∈ (namesakes members member.pythonName).filter (!·.isDeprecated) :=
        List.mem_filter.mpr ⟨hnamesake, by simpa using hfresh⟩
      rw [honly, List.mem_singleton] at hlive
      rw [hother, hlive]
    · obtain ⟨htwo, hne⟩ := hbad
      rcases hkeeps with hone | ⟨hone, -⟩
      · omega
      · exact absurd hone hne

theorem keeper_of_bad (h : Bad members name) :
    keeper members name =
      .error (if live members name = 0 then .allDeprecated name else .ambiguousName name) := by
  have htwo := h.1
  have hborne : 1 ≤ bearers members name := by omega
  rcases keeper_eq hborne with ⟨other, -, -, hone⟩ | ⟨other, -, -, -, hone⟩ | ⟨-, herror⟩
  · omega
  · exact absurd hone h.2
  · exact herror

theorem keeper_of_not_bad (hname : name ∈ names members) (h : ¬ Bad members name) :
    ∃ member, keeper members name = .ok member := by
  obtain ⟨member, hin, hbears⟩ := List.mem_map.mp (List.mem_eraseDups.mp hname)
  rcases keeper_eq (one_le_bearers hin hbears) with
    ⟨other, hother, -⟩ | ⟨other, hother, -⟩ | ⟨hbad, -⟩
  · exact ⟨other, hother⟩
  · exact ⟨other, hother⟩
  · exact absurd hbad h

/-- A bad name such that no other one is borne earlier in the list. -/
def FirstBad (members : List Member) (name : String) : Prop :=
  Bad members name ∧ ∀ other, Bad members other →
    (members.map Member.pythonName).idxOf name ≤ (members.map Member.pythonName).idxOf other

theorem find?_eraseDups (p : String → Bool) (texts : List String) :
    texts.eraseDups.find? p = texts.find? p := by
  induction hsize : texts.length using Nat.strong_induction_on generalizing texts with
  | _ size ih =>
    cases texts with
    | nil => rfl
    | cons text rest =>
      have hle := List.length_filter_le (fun other => !other == text) rest
      rw [List.length_cons] at hsize
      rw [List.eraseDups_cons, List.find?_cons, List.find?_cons, ih _ (by omega) _ rfl,
        List.find?_filter]
      split
      · rfl
      · rename_i htext
        congr 1
        funext other
        by_cases hsame : other = text
        · simp [hsame, htext]
        · simp [hsame]

theorem bad_mem_names (h : Bad members name) : name ∈ members.map Member.pythonName := by
  by_contra habsent
  have hzero : bearers members name = 0 := by
    rw [bearers, List.countP_eq_zero]
    intro member hin hname
    exact habsent (List.mem_map.mpr ⟨member, hin, of_decide_eq_true hname⟩)
  have htwo := h.1
  omega

theorem firstBad_of_find? (h : (members.map Member.pythonName).find? (Bad members ·) = some name) :
    FirstBad members name := by
  obtain ⟨hbad, before, after, hsplit, hbefore⟩ := List.find?_eq_some_iff_append.mp h
  have habsent : ∀ other, Bad members other → other ∉ before := by
    intro other hother hin
    simpa [hother] using hbefore other hin
  have hname : Bad members name := of_decide_eq_true hbad
  refine ⟨hname, fun other hother => ?_⟩
  rw [hsplit, List.idxOf_append_of_notMem (habsent name hname),
    List.idxOf_append_of_notMem (habsent other hother), List.idxOf_cons_self]
  omega

theorem select_of_bad (h : Bad members name) :
    ∃ first, FirstBad members first ∧ select members =
      .error (if live members first = 0 then .allDeprecated first else .ambiguousName first) := by
  have hsome : ((members.map Member.pythonName).find? (Bad members ·)).isSome = true := by
    rw [List.find?_isSome]
    exact ⟨name, bad_mem_names h, decide_eq_true h⟩
  obtain ⟨first, hfirst⟩ := Option.isSome_iff_exists.mp hsome
  have hbad := firstBad_of_find? hfirst
  refine ⟨first, hbad, ?_⟩
  rw [← find?_eraseDups] at hfirst
  refine Outcome.mapM_eq_error_of_find? (fun other hin hgood => ?_) hfirst (keeper_of_bad hbad.1)
  exact keeper_of_not_bad hin (of_decide_eq_false hgood)

theorem nodup_filter_keeps (members : List Member) :
    ((members.filter (Keeps members ·)).map Member.pythonName).Nodup := by
  rw [List.nodup_iff_count_le_one]
  intro name
  rw [List.count, List.countP_map, List.countP_filter]
  by_cases hone : bearers members name ≤ 1
  · refine le_trans (List.countP_mono_left fun member _ hboth => ?_) hone
    simp only [Function.comp_apply, Bool.and_eq_true, beq_iff_eq] at hboth
    simpa using hboth.1
  · by_cases hlive : live members name = 1
    · rw [← hlive]
      apply List.countP_mono_left
      intro member _ hboth
      simp only [Function.comp_apply, Bool.and_eq_true, beq_iff_eq, decide_eq_true_eq] at hboth
      obtain ⟨rfl, hlone | ⟨-, hfresh⟩⟩ := hboth
      · omega
      · simp [hfresh]
    · have hzero : members.countP (fun member =>
          (member.pythonName == name) && decide (Keeps members member)) = 0 := by
        rw [List.countP_eq_zero]
        intro member _ hboth
        simp only [Bool.and_eq_true, beq_iff_eq, decide_eq_true_eq] at hboth
        obtain ⟨rfl, hlone | ⟨honly, -⟩⟩ := hboth
        · omega
        · exact hlive honly
      exact hzero.le.trans (Nat.zero_le 1)

theorem select_of_good (h : ∀ name, ¬ Bad members name) :
    ∃ kept, select members = .ok kept ∧ kept.Perm (members.filter (Keeps members ·)) := by
  obtain ⟨kept, hkept⟩ : ∃ kept, select members = .ok kept :=
    Outcome.exists_mapM_eq_ok fun name hname => keeper_of_not_bad hname (h name)
  refine ⟨kept, hkept, ?_⟩
  rw [List.perm_ext_iff_of_nodup (nodup_select hkept) (nodup_filter_keeps members).of_map]
  intro member
  rw [List.mem_filter, decide_eq_true_eq]
  constructor
  · intro hin
    obtain ⟨name, -, hkeeper⟩ := Outcome.exists_mem_of_mapM hkept hin
    obtain ⟨hmember, -, hkeeps⟩ := keeper_eq_ok_iff.mp hkeeper
    exact ⟨hmember, hkeeps⟩
  · rintro ⟨hmember, hkeeps⟩
    have hname : member.pythonName ∈ names members :=
      List.mem_eraseDups.mpr (List.mem_map_of_mem hmember)
    obtain ⟨other, hin, hother⟩ := Outcome.exists_mem_mapM hkept hname
    have hkeeper := keeper_eq_ok_iff.mpr ⟨hmember, rfl, hkeeps⟩
    exact Except.ok.inj (hkeeper.symm.trans hother) ▸ hin

theorem eraseDups_of_nodup {texts : List String} (h : texts.Nodup) : texts.eraseDups = texts := by
  induction texts with
  | nil => rfl
  | cons text rest ih =>
    obtain ⟨hfresh, hrest⟩ := List.nodup_cons.mp h
    have hfilter : rest.filter (fun other => !other == text) = rest := by
      rw [List.filter_eq_self]
      intro other hin
      have hne : other ≠ text := fun hsame => hfresh (hsame ▸ hin)
      simpa using hne
    rw [List.eraseDups_cons, hfilter, ih hrest]

theorem select_of_nodup (h : (members.map Member.pythonName).Nodup) :
    select members = .ok members := by
  rw [select, names, eraseDups_of_nodup h, Outcome.mapM_eq_ok, List.forall₂_map_left_iff,
    List.forall₂_same]
  intro member hin
  refine keeper_eq_ok_iff.mpr ⟨hin, rfl, .inl ?_⟩
  have hcount := List.count_eq_one_of_mem h (List.mem_map_of_mem hin)
  rw [List.count, List.countP_map] at hcount
  rw [bearers, ← hcount]
  rfl

theorem nodup_names_arrange {out : List Member} (h : arrange m module members = .ok out) :
    (out.map Member.pythonName).Nodup :=
  (map_pythonName_arrange h).nodup_iff.mpr (nodup_eraseDups _)

theorem arrange_arranged {out : List Member} (h : arrange m module members = .ok out) :
    arrange m module out = .ok out := by
  obtain ⟨kept, -, hsort⟩ := Outcome.bind_eq_ok.mp h
  exact Outcome.bind_eq_ok.mpr ⟨out, select_of_nodup (nodup_names_arrange h), sort_sorted hsort⟩

/-- A bad name makes arranging fail on the first one. Without a bad name the members that keep
their names are sorted, one for each name in the order of the first bearers; then no two arranged
members share a name, and arranging them again changes nothing. -/
theorem arrange_policy (m : Model) (module : String) (members : List Member) :
    (∀ name, Bad members name → ∃ first, FirstBad members first ∧
      (live members first = 0 ∧ arrange m module members = .error (.allDeprecated first) ∨
        2 ≤ live members first ∧
          arrange m module members = .error (.ambiguousName first))) ∧
    ((∀ name, ¬ Bad members name) → ∃ kept, kept.Perm (members.filter (Keeps members ·)) ∧
      kept.map Member.pythonName = (members.map Member.pythonName).eraseDups ∧
      arrange m module members = sort m module kept) ∧
    ∀ out, arrange m module members = .ok out →
      (out.map Member.pythonName).Nodup ∧ arrange m module out = .ok out := by
  refine ⟨fun name hbad => ?_, fun hgood => ?_, fun out hout => ?_⟩
  · obtain ⟨first, hfirst, hselect⟩ := select_of_bad hbad
    refine ⟨first, hfirst, ?_⟩
    have hfails : arrange m module members = .error
        (if live members first = 0 then .allDeprecated first else .ambiguousName first) := by
      rw [arrange, hselect]
      rfl
    by_cases hzero : live members first = 0
    · exact .inl ⟨hzero, by rw [hfails, if_pos hzero]⟩
    · have hne := hfirst.1.2
      exact .inr ⟨by omega, by rw [hfails, if_neg hzero]⟩
  · obtain ⟨kept, hkept, hperm⟩ := select_of_good hgood
    refine ⟨kept, hperm, map_pythonName_select hkept, ?_⟩
    rw [arrange, hkept]
    rfl
  · exact ⟨nodup_names_arrange hout, arrange_arranged hout⟩

def valueMember (pythonName : String) (deprecated : Option String) : Member :=
  .value { pythonName, value := "on", docs := deprecated.map fun text => { deprecated := text } }

theorem arrange_policy_deprecated :
    let m := interfaceModel []
    let members := [valueMember "A" "old", valueMember "B" "old", valueMember "A" none]
    let kept := [valueMember "A" none, valueMember "B" "old"]
    let clashing := [valueMember "A" "old", valueMember "B" none, valueMember "B" none,
      valueMember "A" "old"]
    arrange m "acme" members = .ok kept ∧ arrange m "acme" kept = .ok kept ∧
      Bad clashing "B" ∧ FirstBad clashing "A" ∧
      arrange m "acme" clashing = .error (.allDeprecated "A") := by
  intro m members kept clashing
  have hkept : arrange m "acme" members = .ok kept := rfl
  have hfails : arrange m "acme" clashing = .error (.allDeprecated "A") := rfl
  have hbad : Bad clashing "B" := by decide
  have hfirst : FirstBad clashing "A" := by
    obtain ⟨first, hfirst, ⟨-, herror⟩ | ⟨-, herror⟩⟩ :=
      (arrange_policy m "acme" clashing).1 "B" hbad
    · obtain rfl := Fault.allDeprecated.inj (Except.error.inj (hfails.symm.trans herror))
      exact hfirst
    · cases hfails.symm.trans herror
  exact ⟨hkept, ((arrange_policy m "acme" members).2.2 kept hkept).2, hbad, hfirst, hfails⟩

end Members

end Bindery
