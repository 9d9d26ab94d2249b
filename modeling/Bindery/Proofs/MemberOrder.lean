import Bindery.Order.Members
import Bindery.Proofs.Outcome
import Mathlib.Data.List.Induction
import Mathlib.Data.List.Nodup
import Mathlib.Data.List.Perm.Basic
import Mathlib.Data.List.Perm.Subperm
import Mathlib.Data.Set.Lattice

/-!
# The order of members

`Members.sort` works in rounds. A visit either places a type or lets it wait, and keeps three
facts: no type is lost, what waits keeps its order, and every placed type stands behind those
it needs. A round that places nothing leaves the progress as it is, so after as many rounds as
there are types no type that waits has all it needs.

A sorted list is therefore a permutation in which needs are met. The types left over are those
outside the least set of types that can be placed one after the other, whatever the order in
which the members came.
-/

namespace Bindery.Members

/-- The list holds, before each of its types, the types it needs. -/
def Ordered (placed : List Waiting) : Prop :=
  ∀ before w after, placed = before ++ w :: after → ∀ need ∈ w.needs, need ∈ before.map (·.fqn)

theorem Ordered.nil : Ordered [] := by
  intro before w after h
  simp at h

theorem Ordered.snoc {placed : List Waiting} {w : Waiting} (ho : Ordered placed)
    (hw : ∀ need ∈ w.needs, need ∈ placed.map (·.fqn)) : Ordered (placed ++ [w]) := by
  intro before v after h
  rcases List.eq_nil_or_concat after with rfl | ⟨inner, last, rfl⟩
  · obtain ⟨rfl, hv⟩ := List.append_inj' h rfl
    obtain rfl : w = v := by simpa using hv
    exact hw
  · have hs : placed ++ [w] = (before ++ v :: inner) ++ [last] := by simpa using h
    obtain ⟨hp, -⟩ := List.append_inj' hs rfl
    exact ho before v inner hp

theorem Ordered.needs_placed {placed : List Waiting} (ho : Ordered placed) {w : Waiting}
    (hw : w ∈ placed) : ∀ need ∈ w.needs, need ∈ placed.map (·.fqn) := by
  intro need hn
  obtain ⟨before, after, rfl⟩ := List.append_of_mem hw
  have hb := ho before w after rfl need hn
  rw [List.map_append]
  exact List.mem_append_left _ hb

namespace Progress

variable {initial rest : List Waiting} {p : Progress} {w : Waiting}

structure Sound (initial rest : List Waiting) (p : Progress) : Prop where
  perm : (p.placed ++ (p.waiting ++ rest)).Perm initial
  sublist : (p.waiting ++ rest).Sublist initial
  ordered : Ordered p.placed

theorem ready_iff : w.needs.all (· ∈ p.done) = true ↔ ∀ need ∈ w.needs, need ∈ p.done := by
  simp

theorem visit_of_ready (h : ∀ need ∈ w.needs, need ∈ p.done) :
    p.visit w = { p with placed := p.placed ++ [w] } :=
  if_pos (ready_iff.mpr h)

theorem visit_of_not_ready (h : ¬ ∀ need ∈ w.needs, need ∈ p.done) :
    p.visit w = { p with waiting := p.waiting ++ [w] } :=
  if_neg (mt ready_iff.mp h)

theorem Sound.visit (h : Sound initial (w :: rest) p) : Sound initial rest (p.visit w) := by
  by_cases hr : ∀ need ∈ w.needs, need ∈ p.done
  · rw [visit_of_ready hr]
    refine ⟨?_, ?_, h.ordered.snoc hr⟩
    · have hm : (p.placed ++ [w] ++ (p.waiting ++ rest)).Perm
          (p.placed ++ (p.waiting ++ w :: rest)) := by
        rw [List.append_assoc, List.singleton_append]
        exact List.Perm.append_left _ List.perm_middle.symm
      exact hm.trans h.perm
    · exact (List.Sublist.append_left (List.sublist_cons_self w rest) _).trans h.sublist
  · rw [visit_of_not_ready hr]
    have ha : p.waiting ++ [w] ++ rest = p.waiting ++ w :: rest := by simp
    exact ⟨ha ▸ h.perm, ha ▸ h.sublist, h.ordered⟩

theorem Sound.foldl_visit (h : Sound initial rest p) :
    Sound initial [] (rest.foldl Progress.visit p) := by
  induction rest generalizing p with
  | nil => exact h
  | cons w rest ih => exact ih h.visit

theorem Sound.round (h : Sound initial [] p) : Sound initial [] p.round := by
  have hp := h.perm
  have hs := h.sublist
  rw [List.append_nil] at hp hs
  exact Sound.foldl_visit ⟨hp, hs, h.ordered⟩

theorem Sound.rounds (n : ℕ) (h : Sound initial [] p) : Sound initial [] (rounds n p) := by
  induction n generalizing p with
  | zero => exact h
  | succ n ih => exact ih h.round

def Stuck (p : Progress) : Prop := ∀ w ∈ p.waiting, ¬ ∀ need ∈ w.needs, need ∈ p.done

theorem foldl_visit_of_stuck (h : ∀ w ∈ rest, ¬ ∀ need ∈ w.needs, need ∈ p.done) :
    rest.foldl visit p = { p with waiting := p.waiting ++ rest } := by
  induction rest generalizing p with
  | nil => simp
  | cons w rest ih =>
    have hw := h w List.mem_cons_self
    have hr : ∀ v ∈ rest, ¬ ∀ need ∈ v.needs, need ∈ (p.visit w).done := by
      intro v hv
      rw [visit_of_not_ready hw]
      exact h v (List.mem_cons_of_mem w hv)
    rw [List.foldl_cons, ih hr, visit_of_not_ready hw]
    simp

theorem Stuck.round_eq (h : Stuck p) : p.round = p := by
  have hf := foldl_visit_of_stuck (p := { p with waiting := [] }) h
  rw [round, hf, List.nil_append]

theorem Stuck.rounds_eq (h : Stuck p) (n : ℕ) : rounds n p = p := by
  induction n with
  | zero => rfl
  | succ n ih => rw [rounds, h.round_eq, ih]

theorem done_subset_visit (p : Progress) (w : Waiting) : p.done ⊆ (p.visit w).done := by
  intro name hn
  by_cases hr : ∀ need ∈ w.needs, need ∈ p.done
  · rw [visit_of_ready hr, done, List.map_append]
    exact List.mem_append_left _ hn
  · rw [visit_of_not_ready hr]
    exact hn

theorem length_visit_le (p : Progress) (w : Waiting) :
    (p.visit w).waiting.length ≤ p.waiting.length + 1 := by
  by_cases hr : ∀ need ∈ w.needs, need ∈ p.done
  · simp [visit_of_ready hr]
  · simp [visit_of_not_ready hr]

theorem length_foldl_visit_le (p : Progress) (rest : List Waiting) :
    (rest.foldl visit p).waiting.length ≤ p.waiting.length + rest.length := by
  induction rest generalizing p with
  | nil => simp
  | cons w rest ih =>
    have hv := length_visit_le p w
    have hr := ih (p.visit w)
    simp only [List.foldl_cons, List.length_cons]
    omega

theorem length_foldl_visit_lt (h : ∃ w ∈ rest, ∀ need ∈ w.needs, need ∈ p.done) :
    (rest.foldl visit p).waiting.length < p.waiting.length + rest.length := by
  induction rest generalizing p with
  | nil => simp at h
  | cons w rest ih =>
    simp only [List.foldl_cons, List.length_cons]
    by_cases hw : ∀ need ∈ w.needs, need ∈ p.done
    · have hr := length_foldl_visit_le (p.visit w) rest
      have hl : (p.visit w).waiting.length = p.waiting.length := by rw [visit_of_ready hw]
      omega
    · obtain ⟨v, hv, hready⟩ := h
      have hvr : v ∈ rest := by
        rcases List.mem_cons.mp hv with rfl | hv
        · exact absurd hready hw
        · exact hv
      have hr := ih ⟨v, hvr, fun need hn => done_subset_visit p w (hready need hn)⟩
      have hl := length_visit_le p w
      omega

theorem length_round_lt (h : ¬ Stuck p) : p.round.waiting.length < p.waiting.length := by
  have hready : ∃ w ∈ p.waiting, ∀ need ∈ w.needs, need ∈ p.done := by
    by_contra hn
    exact h fun w hw hready => hn ⟨w, hw, hready⟩
  have hl := length_foldl_visit_lt (p := { p with waiting := [] }) hready
  simpa [round] using hl

theorem stuck_rounds (n : ℕ) (h : p.waiting.length ≤ n) : Stuck (rounds n p) := by
  induction n generalizing p with
  | zero =>
    intro w hw
    have hnil : p.waiting = [] := List.eq_nil_of_length_eq_zero (Nat.le_zero.mp h)
    rw [rounds, hnil] at hw
    simp at hw
  | succ n ih =>
    by_cases hs : Stuck p
    · rw [hs.rounds_eq]
      exact hs
    · have hl := length_round_lt hs
      exact ih (by omega)

end Progress

variable {m : Model} {module : String} {members : List Member}

def Needs (m : Model) (module : String) (member : Member) (fqn : String) : Prop :=
  ∃ own d siblings, member.nested? = some own ∧ m.declaration own = .ok d ∧
    m.siblings d module = .ok siblings ∧ Dependency.type fqn ∈ siblings

/-- Every type stands behind members that declare what it needs. -/
def Respects (m : Model) (module : String) (order : List Member) : Prop :=
  ∀ before member after, order = before ++ member :: after →
    ∀ fqn, Needs m module member fqn → ∃ other ∈ before, other.nested? = some fqn

theorem mem_typeNames {siblings : List Dependency} {fqn : String} :
    fqn ∈ (siblings.filter (!·.isModule)).map Dependency.fqn ↔
      Dependency.type fqn ∈ siblings := by
  simp only [List.mem_map, List.mem_filter]
  constructor
  · rintro ⟨d, ⟨hd, hm⟩, rfl⟩
    cases d with
    | type name => exact hd
    | module name => simp [Dependency.isModule] at hm
  · intro h
    exact ⟨.type fqn, ⟨h, rfl⟩, rfl⟩

structure Waiting.Faithful (m : Model) (module : String) (w : Waiting) : Prop where
  nested : w.member.nested? = some w.fqn
  needs : ∀ fqn, fqn ∈ w.needs ↔ Needs m module w.member fqn

theorem waitingFor_faithful {member : Member} {fqn : String} {w : Waiting}
    (hn : member.nested? = some fqn) (h : waitingFor m module member fqn = .ok w) :
    w.member = member ∧ w.Faithful m module := by
  simp only [waitingFor, Outcome.bind_eq_ok, Outcome.pure_eq_ok] at h
  obtain ⟨d, hd, siblings, hs, rfl⟩ := h
  refine ⟨rfl, hn, fun need => ?_⟩
  rw [mem_typeNames]
  constructor
  · intro hm
    exact ⟨fqn, d, siblings, hn, hd, hs, hm⟩
  · rintro ⟨own, d', siblings', hn', hd', hs', hm⟩
    obtain rfl : fqn = own := Option.some.inj (hn.symm.trans hn')
    obtain rfl : d = d' := Except.ok.inj (hd.symm.trans hd')
    obtain rfl : siblings = siblings' := Except.ok.inj (hs.symm.trans hs')
    exact hm

theorem waitingTypes_cons (m : Model) (module : String) (member : Member)
    (members : List Member) :
    waitingTypes m module (member :: members) =
      match member.nested? with
      | none => waitingTypes m module members
      | some fqn => do
        let w ← waitingFor m module member fqn
        return w :: (← waitingTypes m module members) := by
  cases h : member.nested? with
  | none => simp [waitingTypes, h]
  | some fqn => simp [waitingTypes, h]

theorem waitingTypes_spec {waiting : List Waiting}
    (h : waitingTypes m module members = .ok waiting) :
    waiting.map (·.member) = members.filter (·.nested?.isSome) ∧
      ∀ w ∈ waiting, w.Faithful m module := by
  induction members generalizing waiting with
  | nil =>
    obtain rfl : [] = waiting := Outcome.pure_eq_ok.mp h
    simp
  | cons member members ih =>
    rw [waitingTypes_cons] at h
    cases hn : member.nested? with
    | none =>
      rw [hn] at h
      simpa [hn] using ih h
    | some fqn =>
      rw [hn] at h
      simp only [Outcome.bind_eq_ok, Outcome.pure_eq_ok] at h
      obtain ⟨w, hw, rest, hr, rfl⟩ := h
      obtain ⟨hm, hf⟩ := waitingFor_faithful hn hw
      obtain ⟨hrest, hfaithful⟩ := ih hr
      constructor
      · simp [hn, hm, hrest]
      · intro v hv
        rcases List.mem_cons.mp hv with rfl | hv
        · exact hf
        · exact hfaithful v hv

def lastProgress (waiting : List Waiting) : Progress :=
  Progress.rounds waiting.length { waiting }

theorem lastProgress_sound (waiting : List Waiting) :
    (lastProgress waiting).Sound waiting [] := by
  apply Progress.Sound.rounds
  exact ⟨by simp, by simp, Ordered.nil⟩

theorem lastProgress_stuck (waiting : List Waiting) : (lastProgress waiting).Stuck :=
  Progress.stuck_rounds waiting.length le_rfl

theorem placed_subset {waiting : List Waiting} : (lastProgress waiting).placed ⊆ waiting :=
  fun _ h => (lastProgress_sound waiting).perm.subset (List.mem_append_left _ h)

theorem sort_of_waiting {waiting : List Waiting} (h : waitingTypes m module members = .ok waiting) :
    sort m module members =
      if (lastProgress waiting).waiting = [] then
        .ok (members.filter (·.nested?.isNone) ++ (lastProgress waiting).placed.map (·.member))
      else .error (.circular ((lastProgress waiting).waiting.map (·.member.pythonName))) := by
  rw [sort, h]
  simp only [List.isEmpty_iff]
  rfl

theorem sort_eq_ok {out : List Member} (h : sort m module members = .ok out) :
    ∃ waiting, waitingTypes m module members = .ok waiting ∧
      (lastProgress waiting).waiting = [] ∧
      out = members.filter (·.nested?.isNone) ++ (lastProgress waiting).placed.map (·.member) := by
  obtain ⟨waiting, hw, -⟩ := Outcome.bind_eq_ok.mp h
  rw [sort_of_waiting hw] at h
  split at h
  · exact ⟨waiting, hw, ‹_›, (Except.ok.inj h).symm⟩
  · cases h

theorem respects_append {front : List Member} {placed : List Waiting}
    (hfront : ∀ member ∈ front, member.nested? = none)
    (hfaithful : ∀ w ∈ placed, w.Faithful m module) (ho : Ordered placed) :
    Respects m module (front ++ placed.map (·.member)) := by
  intro before member after hsplit fqn hneed
  have htype : member.nested? ≠ none := by
    obtain ⟨own, -, -, hn, -⟩ := hneed
    simp [hn]
  have hinner : ∃ inner, before = front ++ inner ∧
      placed.map (·.member) = inner ++ member :: after := by
    rcases List.append_eq_append_iff.mp hsplit with ⟨inner, hb, hp⟩ | ⟨inner, hf, hp⟩
    · exact ⟨inner, hb, hp⟩
    · cases inner with
      | nil => exact ⟨[], by simpa using hf.symm, by simpa using hp.symm⟩
      | cons head inner =>
        obtain ⟨rfl, -⟩ := List.cons.inj hp
        exact absurd (hfront member (by simp [hf])) htype
  obtain ⟨inner, rfl, hplaced⟩ := hinner
  obtain ⟨l, r, rfl, rfl, hr⟩ := List.map_eq_append_iff.mp hplaced
  obtain ⟨w, r, rfl, rfl, -⟩ := List.map_eq_cons_iff.mp hr
  have hmem : fqn ∈ w.needs := ((hfaithful w (by simp)).needs fqn).mpr hneed
  obtain ⟨v, hv, rfl⟩ := List.mem_map.mp (ho l w r rfl fqn hmem)
  exact ⟨v.member, List.mem_append_right _ (List.mem_map_of_mem hv),
    (hfaithful v (by simp [hv])).nested⟩

theorem sort_perm {out : List Member} (h : sort m module members = .ok out) :
    out.Perm members := by
  obtain ⟨waiting, hw, hempty, rfl⟩ := sort_eq_ok h
  have hperm : (lastProgress waiting).placed.Perm waiting := by
    simpa [hempty] using (lastProgress_sound waiting).perm
  have htypes : ((lastProgress waiting).placed.map (·.member)).Perm
      (members.filter (·.nested?.isSome)) := (waitingTypes_spec hw).1 ▸ hperm.map _
  have hparts := List.filter_append_perm (fun member : Member => member.nested?.isNone) members
  refine (htypes.append_left _).trans ?_
  simpa using hparts

theorem sort_respects {out : List Member} (h : sort m module members = .ok out) :
    Respects m module out := by
  obtain ⟨waiting, hw, -, rfl⟩ := sort_eq_ok h
  have hplaced : ∀ w ∈ (lastProgress waiting).placed, w.Faithful m module :=
    fun w hp => (waitingTypes_spec hw).2 w (placed_subset hp)
  refine respects_append ?_ hplaced (lastProgress_sound waiting).ordered
  intro member hm
  simpa using (List.mem_filter.mp hm).2

/-- A sorted list is a permutation with the types last, each behind the types it needs. -/
theorem sort_topological {out : List Member} (h : sort m module members = .ok out) :
    out.Perm members ∧
      (∃ types, out = members.filter (·.nested?.isNone) ++ types ∧
        ∀ member ∈ types, member.nested?.isSome) ∧
      Respects m module out := by
  refine ⟨sort_perm h, ?_, sort_respects h⟩
  obtain ⟨waiting, hw, -, rfl⟩ := sort_eq_ok h
  refine ⟨_, rfl, fun member hm => ?_⟩
  obtain ⟨w, hp, rfl⟩ := List.mem_map.mp hm
  simp [((waitingTypes_spec hw).2 w (placed_subset hp)).nested]

def interfaceDeclaration (fqn : String) (bases : List String) : Declaration :=
  { fqn, name := Dotted.last fqn, parent := Dotted.parent fqn, shape := .interface bases }

def interfaceModel (types : List (String × List String)) : Model :=
  { assembly := .ofModule "Acme" "1.0.0" "acme"
    symbols := { entries := .ofList (types.map fun (fqn, bases) =>
      (fqn, interfaceDeclaration fqn bases)) } }

def interfaceMember (fqn : String) : Member := .type { fqn, pythonName := Dotted.last fqn }

theorem sort_topological_chain :
    let m := interfaceModel [("Acme.C", ["Acme.B"]), ("Acme.B", ["Acme.A"]), ("Acme.A", [])]
    let value : Member := .value { pythonName := "ON", value := "on" }
    let sorted := [value] ++ ["Acme.A", "Acme.B", "Acme.C"].map interfaceMember
    sort m "acme" [interfaceMember "Acme.C", interfaceMember "Acme.B", value,
        interfaceMember "Acme.A"] = .ok sorted ∧
      Needs m "acme" (interfaceMember "Acme.C") "Acme.B" ∧ Respects m "acme" sorted := by
  intro m value sorted
  have hsort : sort m "acme" [interfaceMember "Acme.C", interfaceMember "Acme.B", value,
      interfaceMember "Acme.A"] = .ok sorted := rfl
  exact ⟨hsort, ⟨_, _, _, rfl, rfl, rfl, List.mem_singleton_self _⟩, (sort_topological hsort).2.2⟩

/-- A set that holds every type of the list whose needs are met by types of the list in the
set. -/
def IsClosed (m : Model) (module : String) (members : List Member) (S : Set Member) : Prop :=
  ∀ member ∈ members, member.nested?.isSome →
    (∀ fqn, Needs m module member fqn → ∃ other ∈ members, other ∈ S ∧ other.nested? = some fqn) →
    member ∈ S

/-- The types that can be placed one after the other: the least closed set. -/
def orderable (m : Model) (module : String) (members : List Member) : Set Member :=
  ⋂₀ {S | IsClosed m module members S}

theorem orderable_isClosed (m : Model) (module : String) (members : List Member) :
    IsClosed m module members (orderable m module members) := by
  intro member hm htype hneeds S hS
  apply hS member hm htype
  intro fqn hneed
  obtain ⟨other, ho, hin, hn⟩ := hneeds fqn hneed
  exact ⟨other, ho, hin S hS, hn⟩

theorem Respects.of_append {start after : List Member} (h : Respects m module (start ++ after)) :
    Respects m module start := by
  intro before member rest hsplit
  exact h before member (rest ++ after) (by simp [hsplit])

theorem orderable_of_respects {order : List Member} (hsub : order ⊆ members)
    (hr : Respects m module order) :
    ∀ member ∈ order, member.nested?.isSome → member ∈ orderable m module members := by
  induction order using List.reverseRecOn with
  | nil => simp
  | append_singleton start last ih =>
    have hstart := ih (fun x hx => hsub (List.mem_append_left _ hx)) hr.of_append
    intro member hm htype
    rcases List.mem_append.mp hm with hm | hm
    · exact hstart member hm htype
    · obtain rfl := List.mem_singleton.mp hm
      refine orderable_isClosed m module members member (hsub (by simp)) htype ?_
      intro fqn hneed
      obtain ⟨other, ho, hn⟩ := hr start member [] rfl fqn hneed
      exact ⟨other, hsub (by simp [ho]), hstart other ho (by simp [hn]), hn⟩

section Leftover

variable {waiting : List Waiting} (hw : waitingTypes m module members = .ok waiting)

include hw

theorem member_of_waiting {w : Waiting} (h : w ∈ waiting) :
    w.member ∈ members ∧ w.Faithful m module := by
  obtain ⟨hmembers, hfaithful⟩ := waitingTypes_spec hw
  have hm : w.member ∈ members.filter (·.nested?.isSome) := hmembers ▸ List.mem_map_of_mem h
  exact ⟨List.mem_of_mem_filter hm, hfaithful w h⟩

theorem placed_orderable {w : Waiting} (h : w ∈ (lastProgress waiting).placed) :
    w.member ∈ orderable m module members := by
  have hplaced : ∀ v ∈ (lastProgress waiting).placed, v.member ∈ members ∧ v.Faithful m module :=
    fun v hv => member_of_waiting hw (placed_subset hv)
  have hr : Respects m module ([] ++ (lastProgress waiting).placed.map (·.member)) :=
    respects_append (by simp) (fun v hv => (hplaced v hv).2) (lastProgress_sound waiting).ordered
  refine orderable_of_respects ?_ hr w.member (List.mem_map_of_mem h) ?_
  · intro member hm
    obtain ⟨v, hv, rfl⟩ := List.mem_map.mp hm
    exact (hplaced v hv).1
  · simp [(hplaced w h).2.nested]

theorem placed_isClosed :
    IsClosed m module members
      {member | ∃ w ∈ (lastProgress waiting).placed, w.member = member} := by
  intro member hm htype hneeds
  obtain ⟨hmembers, hfaithful⟩ := waitingTypes_spec hw
  have hin : member ∈ waiting.map (·.member) :=
    hmembers ▸ List.mem_filter.mpr ⟨hm, htype⟩
  obtain ⟨w, hwaits, rfl⟩ := List.mem_map.mp hin
  have hready : ∀ need ∈ w.needs, need ∈ (lastProgress waiting).done := by
    intro need hn
    obtain ⟨other, -, ⟨v, hv, rfl⟩, hname⟩ := hneeds need (((hfaithful w hwaits).needs need).mp hn)
    have hfqn := (hfaithful v (placed_subset hv)).nested.symm.trans hname
    exact Option.some.inj hfqn ▸ List.mem_map_of_mem hv
  have hsplit := (lastProgress_sound waiting).perm.symm.subset hwaits
  rw [List.append_nil] at hsplit
  rcases List.mem_append.mp hsplit with hp | hp
  · exact ⟨w, hp, rfl⟩
  · exact absurd hready (lastProgress_stuck waiting w hp)

theorem waiting_not_orderable {w : Waiting} (h : w ∈ (lastProgress waiting).waiting) :
    w.member ∉ orderable m module members := by
  intro hin
  obtain ⟨v, hv, heq⟩ := hin _ (placed_isClosed hw)
  have hsound := lastProgress_sound waiting
  have hwf := (member_of_waiting hw (hsound.sublist.subset (by simpa using h))).2
  have hvf := (member_of_waiting hw (placed_subset hv)).2
  refine lastProgress_stuck waiting w h fun need hn => ?_
  have hneed : need ∈ v.needs := (hvf.needs need).mpr (heq ▸ (hwf.needs need).mp hn)
  exact hsound.ordered.needs_placed hv need hneed

open Classical in
theorem waiting_eq_filter :
    (lastProgress waiting).waiting =
      waiting.filter fun w => w.member ∉ orderable m module members := by
  have hsound := lastProgress_sound waiting
  have hperm := hsound.perm
  have hsub := hsound.sublist
  rw [List.append_nil] at hperm hsub
  have hplaced : (lastProgress waiting).placed.filter
      (fun w => w.member ∉ orderable m module members) = [] := by
    simp only [List.filter_eq_nil_iff, decide_not, Bool.not_eq_true', decide_eq_false_iff_not,
      not_not]
    exact fun w h => placed_orderable hw h
  have hleft : (lastProgress waiting).waiting.filter
      (fun w => w.member ∉ orderable m module members) = (lastProgress waiting).waiting := by
    rw [List.filter_eq_self]
    intro w h
    simpa using waiting_not_orderable hw h
  have hlength := (hperm.filter fun w => w.member ∉ orderable m module members).length_eq
  rw [List.filter_append, hplaced, hleft, List.nil_append] at hlength
  have hsub' := hsub.filter fun w => w.member ∉ orderable m module members
  rw [hleft] at hsub'
  exact hsub'.eq_of_length hlength

end Leftover

def Resolvable (m : Model) (module : String) (members : List Member) : Prop :=
  ∀ member ∈ members, ∀ fqn, member.nested? = some fqn →
    ∃ d siblings, m.declaration fqn = .ok d ∧ m.siblings d module = .ok siblings

theorem Resolvable.exists_waiting (h : Resolvable m module members) :
    ∃ waiting, waitingTypes m module members = .ok waiting := by
  apply Outcome.exists_mapM_eq_ok
  rintro ⟨member, fqn⟩ hin
  obtain ⟨member', hm, hpair⟩ := List.mem_filterMap.mp hin
  obtain ⟨fqn', hn, hpair⟩ := Option.map_eq_some_iff.mp hpair
  obtain ⟨rfl, rfl⟩ := Prod.mk.inj hpair
  obtain ⟨d, siblings, hd, hs⟩ := h member' hm fqn' hn
  refine ⟨⟨member', fqn', (siblings.filter (!·.isModule)).map Dependency.fqn⟩, ?_⟩
  simp only [waitingFor, Outcome.bind_eq_ok, Outcome.pure_eq_ok]
  exact ⟨d, hd, siblings, hs, rfl⟩

theorem resolvable_of_waiting {waiting : List Waiting}
    (h : waitingTypes m module members = .ok waiting) : Resolvable m module members := by
  intro member hm fqn hn
  have hin : (member, fqn) ∈ members.filterMap fun member => member.nested?.map (member, ·) :=
    List.mem_filterMap.mpr ⟨member, hm, by simp [hn]⟩
  obtain ⟨w, -, hw⟩ := Outcome.exists_mem_mapM h hin
  simp only [waitingFor, Outcome.bind_eq_ok, Outcome.pure_eq_ok] at hw
  obtain ⟨d, hd, siblings, hs, -⟩ := hw
  exact ⟨d, siblings, hd, hs⟩

theorem Resolvable.sort_ok_iff (h : Resolvable m module members) :
    (∃ out, sort m module members = .ok out) ↔
      ∃ order : List Member, order.Perm members ∧ Respects m module order := by
  obtain ⟨waiting, hw⟩ := h.exists_waiting
  constructor
  · rintro ⟨out, hout⟩
    exact ⟨out, sort_perm hout, sort_respects hout⟩
  · rintro ⟨order, hperm, hr⟩
    have hnone : (lastProgress waiting).waiting = [] := by
      rw [List.eq_nil_iff_forall_not_mem]
      intro w hleft
      have hin := (lastProgress_sound waiting).sublist.subset (by simpa using hleft)
      obtain ⟨hm, hf⟩ := member_of_waiting hw hin
      exact waiting_not_orderable hw hleft (orderable_of_respects hperm.subset hr w.member
        (hperm.symm.subset hm) (by simp [hf.nested]))
    rw [sort_of_waiting hw, if_pos hnone]
    exact ⟨_, rfl⟩

theorem Resolvable.sort_circular_iff (h : Resolvable m module members) :
    (∃ leftover, sort m module members = .error (.circular leftover)) ↔
      ¬ ∃ out, sort m module members = .ok out := by
  obtain ⟨waiting, hw⟩ := h.exists_waiting
  rw [sort_of_waiting hw]
  split
  · simp
  · simp

theorem Resolvable.perm {shuffled : List Member} (h : Resolvable m module members)
    (hperm : shuffled.Perm members) : Resolvable m module shuffled :=
  fun member hm => h member (hperm.subset hm)

open Classical in
theorem sort_circular_leftover {waiting : List Waiting} {leftover : List String}
    (hw : waitingTypes m module members = .ok waiting)
    (h : sort m module members = .error (.circular leftover)) :
    leftover = (members.filter fun member =>
      member.nested?.isSome ∧ member ∉ orderable m module members).map Member.pythonName := by
  rw [sort_of_waiting hw] at h
  split at h
  · cases h
  · obtain rfl := Fault.circular.inj (Except.error.inj h)
    have hfilter : (waiting.map (·.member)).filter (· ∉ orderable m module members) =
        members.filter fun member =>
          member.nested?.isSome ∧ member ∉ orderable m module members := by
      rw [(waitingTypes_spec hw).1, List.filter_filter]
      simp [Bool.and_comm]
    rw [waiting_eq_filter hw, ← hfilter, List.filter_map, List.map_map]
    rfl

open Classical in
/-- A sort finds a cycle exactly if the members have no order in which all needs are met. What
is left over are the types outside the least closed set, and no other order of the same
members would have made a difference. -/
theorem sort_circular_iff_unorderable (h : Resolvable m module members) :
    ((∃ leftover, sort m module members = .error (.circular leftover)) ↔
        ¬ ∃ order : List Member, order.Perm members ∧ Respects m module order) ∧
      (∀ leftover, sort m module members = .error (.circular leftover) →
        leftover = (members.filter fun member =>
          member.nested?.isSome ∧ member ∉ orderable m module members).map Member.pythonName) ∧
      ∀ shuffled : List Member, shuffled.Perm members →
        ((∃ out, sort m module shuffled = .ok out) ↔ ∃ out, sort m module members = .ok out) := by
  refine ⟨by rw [h.sort_circular_iff, h.sort_ok_iff], fun leftover hl => ?_, fun shuffled hp => ?_⟩
  · obtain ⟨waiting, hw⟩ := h.exists_waiting
    exact sort_circular_leftover hw hl
  · rw [(h.perm hp).sort_ok_iff, h.sort_ok_iff]
    constructor
    · rintro ⟨order, ho, hr⟩
      exact ⟨order, ho.trans hp, hr⟩
    · rintro ⟨order, ho, hr⟩
      exact ⟨order, ho.trans hp.symm, hr⟩

theorem sort_circular_iff_unorderable_cycle :
    let m := interfaceModel [("Acme.A", ["Acme.B"]), ("Acme.B", ["Acme.A"]),
      ("Acme.Behind", ["Acme.A"]), ("Acme.Free", [])]
    let members := ["Acme.A", "Acme.Behind", "Acme.Free", "Acme.B"].map interfaceMember
    sort m "acme" members = .error (.circular ["A", "Behind", "B"]) ∧
      Resolvable m "acme" members ∧
      ¬ ∃ order : List Member, order.Perm members ∧ Respects m "acme" order := by
  intro m members
  have hsort : sort m "acme" members = .error (.circular ["A", "Behind", "B"]) := rfl
  have hr : Resolvable m "acme" members := by
    intro member hm fqn hn
    simp only [members, List.map_cons, List.map_nil, List.mem_cons, List.not_mem_nil,
      or_false] at hm
    rcases hm with rfl | rfl | rfl | rfl <;> cases hn <;> exact ⟨_, _, rfl, rfl⟩
  exact ⟨hsort, hr, (sort_circular_iff_unorderable hr).1.mp ⟨_, hsort⟩⟩

theorem mem_namesakes_of_keeper {name : String} {member : Member}
    (h : keeper members name = .ok member) : member ∈ namesakes members name := by
  rw [keeper] at h
  split at h
  · rename_i only honly
    obtain rfl := Except.ok.inj h
    exact honly ▸ List.mem_cons_self
  · split at h
    · rename_i live hlive
      obtain rfl := Except.ok.inj h
      exact List.mem_of_mem_filter (hlive ▸ List.mem_cons_self)
    · cases h
    · cases h

theorem mem_of_keeper {name : String} {member : Member} (h : keeper members name = .ok member) :
    member ∈ members :=
  List.mem_of_mem_filter (mem_namesakes_of_keeper h)

theorem nodup_eraseDups (texts : List String) : texts.eraseDups.Nodup := by
  induction hsize : texts.length using Nat.strong_induction_on generalizing texts with
  | _ size ih =>
    cases texts with
    | nil => simp
    | cons text rest =>
      rw [List.eraseDups_cons, List.nodup_cons]
      have hle := List.length_filter_le (fun other => !other == text) rest
      rw [List.length_cons] at hsize
      refine ⟨?_, ih _ (by omega) _ rfl⟩
      simp [List.mem_eraseDups]

theorem map_pythonName_select {kept : List Member} (h : select members = .ok kept) :
    kept.map Member.pythonName = names members := by
  have hnames : kept.map Member.pythonName = (names members).map id := by
    refine Outcome.map_eq_map_of_mapM (fun name member hkeeper => ?_) h
    simpa using (List.mem_filter.mp (mem_namesakes_of_keeper hkeeper)).2
  rw [hnames, List.map_id]

theorem nodup_select {kept : List Member} (h : select members = .ok kept) : kept.Nodup := by
  refine List.Nodup.of_map Member.pythonName ?_
  rw [map_pythonName_select h]
  exact nodup_eraseDups _

theorem arrange_perm {out : List Member} (h : arrange m module members = .ok out) :
    ∃ kept, select members = .ok kept ∧ out.Perm kept := by
  obtain ⟨kept, hkept, hsort⟩ := Outcome.bind_eq_ok.mp h
  exact ⟨kept, hkept, sort_perm hsort⟩

theorem arrange_subset {out : List Member} (h : arrange m module members = .ok out) :
    out ⊆ members := by
  obtain ⟨kept, hkept, hperm⟩ := arrange_perm h
  intro member hin
  obtain ⟨name, -, hkeeper⟩ := Outcome.exists_mem_of_mapM hkept (hperm.subset hin)
  exact mem_of_keeper hkeeper

theorem mem_nested_of_select {kept out : List Member} (hkept : select members = .ok kept)
    (h : arrange m module members = .ok out) {member : Member} (hmember : member ∈ kept)
    {fqn : String} (hnested : member.nested? = some fqn) : fqn ∈ out.filterMap Member.nested? := by
  obtain ⟨kept', hkept', hperm⟩ := arrange_perm h
  obtain rfl := Except.ok.inj (hkept.symm.trans hkept')
  exact List.mem_filterMap.mpr ⟨member, hperm.symm.subset hmember, hnested⟩

theorem map_pythonName_arrange {out : List Member} (h : arrange m module members = .ok out) :
    (out.map Member.pythonName).Perm (names members) := by
  obtain ⟨kept, hkept, hperm⟩ := arrange_perm h
  rw [← map_pythonName_select hkept]
  exact hperm.map _

theorem arrange_eq_append {out : List Member} (h : arrange m module members = .ok out) :
    ∃ quiet types, out = quiet ++ types ∧ (∀ member ∈ quiet, member.nested? = none) ∧
      ∀ member ∈ types, member.nested?.isSome := by
  obtain ⟨kept, -, hsort⟩ := Outcome.bind_eq_ok.mp h
  obtain ⟨waiting, hwaiting, -, rfl⟩ := sort_eq_ok hsort
  refine ⟨_, _, rfl, fun member hmember => ?_, fun member hmember => ?_⟩
  · exact Option.isNone_iff_eq_none.mp (List.mem_filter.mp hmember).2
  · obtain ⟨w, hw, rfl⟩ := List.mem_map.mp hmember
    simp [((waitingTypes_spec hwaiting).2 w (placed_subset hw)).nested]

theorem nodup_arrange {out : List Member} (h : arrange m module members = .ok out) :
    out.Nodup := by
  obtain ⟨kept, hkept, hperm⟩ := arrange_perm h
  exact hperm.nodup_iff.mpr (nodup_select hkept)

theorem nodup_nested_of_arrange {out : List Member} (h : arrange m module members = .ok out)
    (hnested : (members.filterMap Member.nested?).Nodup) :
    (out.filterMap Member.nested?).Nodup := by
  obtain ⟨part, hperm, hsub⟩ := (nodup_arrange h).subperm (arrange_subset h)
  have hsome : (part.filterMap Member.nested?).Nodup := hnested.sublist (hsub.filterMap _)
  exact ((hperm.filterMap _).nodup_iff).mp hsome

theorem arrange_spec {out : List Member} (h : arrange m module members = .ok out) {fqn : String}
    {before after : List String}
    (hsplit : out.filterMap Member.nested? = before ++ fqn :: after) :
    ∃ d siblings, m.declaration fqn = .ok d ∧ m.siblings d module = .ok siblings ∧
      ∀ sibling, Dependency.type sibling ∈ siblings → sibling ∈ before := by
  obtain ⟨kept, -, hsort⟩ := Outcome.bind_eq_ok.mp h
  obtain ⟨first, rest, rfl, rfl, hrest⟩ := List.filterMap_eq_append_iff.mp hsplit
  obtain ⟨quiet, member, last, rfl, hquiet, hnested, -⟩ := List.filterMap_eq_cons_iff.mp hrest
  obtain ⟨waiting, hwaiting, -, -⟩ := sort_eq_ok hsort
  have hin : member ∈ kept := (sort_perm hsort).subset (by simp)
  obtain ⟨d, siblings, hd, hsiblings⟩ := resolvable_of_waiting hwaiting member hin fqn hnested
  refine ⟨d, siblings, hd, hsiblings, fun sibling hsibling => ?_⟩
  obtain ⟨other, hother, hname⟩ := sort_respects hsort (first ++ quiet) member last (by simp)
    sibling ⟨fqn, d, siblings, hnested, hd, hsiblings, hsibling⟩
  rcases List.mem_append.mp hother with hother | hother
  · exact List.mem_filterMap.mpr ⟨other, hother, hname⟩
  · simp [hquiet other hother] at hname

end Bindery.Members
