import Bindery.Proofs.MemberOrder
import Mathlib.Data.Finset.Max
import Mathlib.Data.Prod.Lex

/-!
# The rounds of a sort

A type is placed in the first round that comes to it after all it needs. A need that has its turn
before the type may be met in the same round, any other need only in an earlier one. This fixes a
number for every type, and a sort writes the types by that number and, within a round, in the
order of the list. A list that is sorted already is placed in a single round and stays as it is.
-/

namespace Bindery.Members

variable {m : Model} {module : String} {members : List Member}

theorem Ordered.of_append {start after : List Waiting} (h : Ordered (start ++ after)) :
    Ordered start := by
  intro before w rest hsplit
  apply h before w (rest ++ after)
  simp [hsplit]

theorem Progress.foldl_visit_of_ordered {placed rest : List Waiting}
    (h : Ordered (placed ++ rest)) :
    rest.foldl Progress.visit { placed, waiting := [] } =
      { placed := placed ++ rest, waiting := [] } := by
  induction rest generalizing placed with
  | nil => simp
  | cons w rest ih =>
    have hready : ∀ need ∈ w.needs, need ∈ placed.map (·.fqn) := h placed w rest rfl
    rw [List.foldl_cons, Progress.visit_of_ready hready, ih (by simpa using h)]
    simp

theorem lastProgress_of_ordered {waiting : List Waiting} (h : Ordered waiting) :
    lastProgress waiting = { placed := waiting, waiting := [] } := by
  have hround : Progress.round { waiting } = { placed := waiting, waiting := [] } :=
    Progress.foldl_visit_of_ordered h
  have hstuck : Progress.Stuck { placed := waiting, waiting := [] } := by
    intro w hw
    cases hw
  cases waiting with
  | nil => rfl
  | cons w rest => rw [lastProgress, List.length_cons, Progress.rounds, hround, hstuck.rounds_eq]

theorem waitingFor_of_mem {waiting : List Waiting}
    (hw : waitingTypes m module members = .ok waiting) {w : Waiting} (h : w ∈ waiting) :
    waitingFor m module w.member w.fqn = .ok w := by
  obtain ⟨⟨member, fqn⟩, -, hmade⟩ := Outcome.exists_mem_of_mapM hw h
  have hsame : w.member = member ∧ w.fqn = fqn := by
    simp only [waitingFor, Outcome.bind_eq_ok, Outcome.pure_eq_ok] at hmade
    obtain ⟨d, -, siblings, -, rfl⟩ := hmade
    exact ⟨rfl, rfl⟩
  rw [hsame.1, hsame.2]
  exact hmade

theorem waitingTypes_append {front : List Member} {placed : List Waiting}
    (hfront : ∀ member ∈ front, member.nested? = none)
    (hnested : ∀ w ∈ placed, w.member.nested? = some w.fqn)
    (hmade : ∀ w ∈ placed, waitingFor m module w.member w.fqn = .ok w) :
    waitingTypes m module (front ++ placed.map (·.member)) = .ok placed := by
  induction front with
  | nil =>
    induction placed with
    | nil => rfl
    | cons w placed ih =>
      have hrest := ih (fun v hv => hnested v (List.mem_cons_of_mem w hv))
        (fun v hv => hmade v (List.mem_cons_of_mem w hv))
      rw [List.nil_append, List.map_cons, waitingTypes_cons, hnested w List.mem_cons_self]
      apply Outcome.bind_eq_ok.mpr
      refine ⟨w, hmade w List.mem_cons_self, Outcome.bind_eq_ok.mpr ⟨placed, hrest, rfl⟩⟩
  | cons member front ih =>
    rw [List.cons_append, waitingTypes_cons, hfront member List.mem_cons_self]
    exact ih fun other ho => hfront other (List.mem_cons_of_mem member ho)

theorem sort_sorted {out : List Member} (h : sort m module members = .ok out) :
    sort m module out = .ok out := by
  obtain ⟨waiting, hw, -, rfl⟩ := sort_eq_ok h
  have hin : ∀ w ∈ (lastProgress waiting).placed, w ∈ waiting := fun w hp => placed_subset hp
  have hnested : ∀ w ∈ (lastProgress waiting).placed, w.member.nested? = some w.fqn :=
    fun w hp => ((waitingTypes_spec hw).2 w (hin w hp)).nested
  have hquiet : ∀ member ∈ members.filter (·.nested?.isNone), member.nested? = none := by
    intro member hm
    simpa using (List.mem_filter.mp hm).2
  have hagain := waitingTypes_append hquiet hnested fun w hp => waitingFor_of_mem hw (hin w hp)
  have hfilter : (members.filter (·.nested?.isNone) ++
      (lastProgress waiting).placed.map (·.member)).filter (·.nested?.isNone) =
        members.filter (·.nested?.isNone) := by
    have htypes : ((lastProgress waiting).placed.map (·.member)).filter (·.nested?.isNone) = [] := by
      rw [List.filter_eq_nil_iff]
      intro member hm
      obtain ⟨w, hp, rfl⟩ := List.mem_map.mp hm
      simp [hnested w hp]
    rw [List.filter_append, htypes, List.append_nil, List.filter_filter]
    simp
  rw [sort_of_waiting hagain, lastProgress_of_ordered (lastProgress_sound waiting).ordered,
    if_pos rfl, hfilter]

/-- The first round in which a need of the type `fqn` is met when the type has its turn: the round
of the need if that comes first in the list, else the next one. -/
def metIn (position r : String → ℕ) (fqn need : String) : ℕ :=
  if position need < position fqn then r need else r need + 1

namespace Waiting

def metRounds (position r : String → ℕ) (w : Waiting) : Set ℕ :=
  insert 1 {n | ∃ need ∈ w.needs, n = metIn position r w.fqn need}

def IsRound (position r : String → ℕ) (w : Waiting) : Prop :=
  IsGreatest (w.metRounds position r) (r w.fqn)

variable {position r r' : String → ℕ} {w : Waiting}

theorem metRounds_congr (h : ∀ need ∈ w.needs, r' need = r need) :
    w.metRounds position r' = w.metRounds position r := by
  have hmet : ∀ need ∈ w.needs, metIn position r' w.fqn need = metIn position r w.fqn need := by
    intro need hneed
    rw [metIn, metIn, h need hneed]
  ext n
  apply or_congr_right
  exact exists_congr fun need => and_congr_right fun hneed => by rw [hmet need hneed]

theorem exists_isGreatest (w : Waiting) (position r : String → ℕ) :
    ∃ n, IsGreatest (w.metRounds position r) n := by
  have hfinite : w.metRounds position r =
      ↑(insert 1 (w.needs.map (metIn position r w.fqn)).toFinset) := by
    ext n
    simp [metRounds, eq_comm]
  rw [hfinite]
  exact ⟨_, Finset.isGreatest_max' _ (Finset.insert_nonempty 1 _)⟩

theorem IsRound.pos (h : w.IsRound position r) : 1 ≤ r w.fqn := h.2 (Set.mem_insert 1 _)

theorem IsRound.le_succ_iff (h : w.IsRound position r) (n : ℕ) :
    r w.fqn ≤ n + 1 ↔ ∀ need ∈ w.needs, metIn position r w.fqn need ≤ n + 1 := by
  rw [isLUB_le_iff h.isLUB]
  constructor
  · intro hbound need hneed
    exact hbound (Set.mem_insert_of_mem 1 ⟨need, hneed, rfl⟩)
  · rintro hneeds _ (rfl | ⟨need, hneed, rfl⟩)
    · omega
    · exact hneeds need hneed

end Waiting

section Numbers

variable {placed : List Waiting} {position : String → ℕ}

theorem exists_isRound (ho : Ordered placed) (hdistinct : (placed.map (·.fqn)).Nodup)
    (position : String → ℕ) : ∃ r : String → ℕ, ∀ w ∈ placed, w.IsRound position r := by
  induction placed using List.reverseRecOn with
  | nil => exact ⟨fun _ => 1, by simp⟩
  | append_singleton placed w ih =>
    rw [List.map_append, List.nodup_append] at hdistinct
    obtain ⟨r, hr⟩ := ih ho.of_append hdistinct.1
    obtain ⟨n, hn⟩ := w.exists_isGreatest position r
    -- Only the last type gets a new number, and none of the types before it needs that one.
    have hkeeps : ∀ name ∈ placed.map (·.fqn), Function.update r w.fqn n name = r name := by
      intro name hname
      exact Function.update_of_ne (hdistinct.2.2 name hname w.fqn (by simp)) n r
    refine ⟨Function.update r w.fqn n, fun v hv => ?_⟩
    rcases List.mem_append.mp hv with hv | hv
    · have hneeds := ho.of_append.needs_placed hv
      rw [Waiting.IsRound, hkeeps v.fqn (List.mem_map_of_mem hv),
        Waiting.metRounds_congr fun need hneed => hkeeps need (hneeds need hneed)]
      exact hr v hv
    · obtain rfl := List.mem_singleton.mp hv
      have hneeds : ∀ need ∈ v.needs, need ∈ placed.map (·.fqn) := ho placed v [] rfl
      rw [Waiting.IsRound, Function.update_self,
        Waiting.metRounds_congr fun need hneed => hkeeps need (hneeds need hneed)]
      exact hn

theorem isRound_unique (ho : Ordered placed) {r r' : String → ℕ}
    (hr : ∀ w ∈ placed, w.IsRound position r) (hr' : ∀ w ∈ placed, w.IsRound position r') :
    ∀ w ∈ placed, r' w.fqn = r w.fqn := by
  induction placed using List.reverseRecOn with
  | nil => simp
  | append_singleton placed w ih =>
    have hplaced := ih ho.of_append (fun v hv => hr v (List.mem_append_left _ hv))
      (fun v hv => hr' v (List.mem_append_left _ hv))
    have hneeds : ∀ need ∈ w.needs, r' need = r need := by
      intro need hneed
      obtain ⟨v, hv, rfl⟩ := List.mem_map.mp (ho placed w [] rfl need hneed)
      exact hplaced v hv
    intro v hv
    rcases List.mem_append.mp hv with hv | hv
    · exact hplaced v hv
    · obtain rfl := List.mem_singleton.mp hv
      have hnew := hr' v (by simp)
      rw [Waiting.IsRound, Waiting.metRounds_congr hneeds] at hnew
      exact hnew.unique (hr v (by simp))

end Numbers

section Placing

variable {waiting : List Waiting} {position r : String → ℕ}

def reached (r : String → ℕ) (waiting : List Waiting) (n : ℕ) : Progress where
  placed := (List.range n).flatMap fun k => waiting.filter fun w => r w.fqn = k + 1
  waiting := waiting.filter fun w => n < r w.fqn

theorem mem_placed_reached {n : ℕ} {w : Waiting} :
    w ∈ (reached r waiting n).placed ↔ w ∈ waiting ∧ 1 ≤ r w.fqn ∧ r w.fqn ≤ n := by
  simp only [reached, List.mem_flatMap, List.mem_range, List.mem_filter, decide_eq_true_eq]
  constructor
  · rintro ⟨k, hk, hw, hround⟩
    exact ⟨hw, by omega, by omega⟩
  · rintro ⟨hw, hpos, hle⟩
    exact ⟨r w.fqn - 1, by omega, hw, by omega⟩

/-- The list is given by position, every type has its number and needs types of the list only. -/
structure Numbered (position r : String → ℕ) (waiting : List Waiting) : Prop where
  sorted : waiting.Pairwise fun v w => position v.fqn < position w.fqn
  isRound : ∀ w ∈ waiting, w.IsRound position r
  closed : ∀ w ∈ waiting, ∀ need ∈ w.needs, need ∈ waiting.map (·.fqn)

def midway (r : String → ℕ) (waiting before : List Waiting) (n : ℕ) : Progress where
  placed := (reached r waiting n).placed ++ before.filter fun w => r w.fqn = n + 1
  waiting := before.filter fun w => n + 1 < r w.fqn

theorem Numbered.mem_before_iff {before rest : List Waiting} {v w : Waiting}
    (h : Numbered position r (before ++ w :: rest)) (hv : v ∈ before ++ w :: rest) :
    v.fqn ∈ before.map (·.fqn) ↔ position v.fqn < position w.fqn := by
  obtain ⟨-, hbehind, hbefore⟩ := List.pairwise_append.mp h.sorted
  constructor
  · intro hin
    obtain ⟨u, hu, hsame⟩ := List.mem_map.mp hin
    exact hsame ▸ hbefore u hu w List.mem_cons_self
  · intro hlt
    rcases List.mem_append.mp hv with hv | hv
    · exact List.mem_map_of_mem hv
    · rcases List.mem_cons.mp hv with rfl | hv
      · exact absurd hlt (lt_irrefl _)
      · have hgt := (List.pairwise_cons.mp hbehind).1 v hv
        omega

theorem mem_done_midway {before : List Waiting} {v : Waiting} {n : ℕ} (hv : v ∈ waiting)
    (hpos : 1 ≤ r v.fqn) :
    v.fqn ∈ (midway r waiting before n).done ↔
      r v.fqn ≤ n ∨ v.fqn ∈ before.map (·.fqn) ∧ r v.fqn = n + 1 := by
  rw [Progress.done, midway, List.map_append, List.mem_append]
  apply or_congr
  · constructor
    · intro hin
      obtain ⟨u, hu, hsame⟩ := List.mem_map.mp hin
      exact hsame ▸ (mem_placed_reached.mp hu).2.2
    · intro hle
      exact List.mem_map_of_mem (mem_placed_reached.mpr ⟨hv, hpos, hle⟩)
  · simp only [List.mem_map, List.mem_filter, decide_eq_true_eq]
    constructor
    · rintro ⟨u, ⟨hu, hround⟩, hsame⟩
      exact ⟨⟨u, hu, hsame⟩, hsame ▸ hround⟩
    · rintro ⟨⟨u, hu, hsame⟩, hround⟩
      exact ⟨u, ⟨hu, hsame ▸ hround⟩, hsame⟩

theorem Numbered.ready_iff {before rest : List Waiting} {w : Waiting} {n : ℕ}
    (h : Numbered position r (before ++ w :: rest)) :
    (∀ need ∈ w.needs, need ∈ (midway r (before ++ w :: rest) before n).done) ↔
      r w.fqn ≤ n + 1 := by
  rw [(h.isRound w (by simp)).le_succ_iff]
  apply forall₂_congr
  intro need hneed
  obtain ⟨v, hv, rfl⟩ := List.mem_map.mp (h.closed w (by simp) need hneed)
  rw [mem_done_midway hv (h.isRound v hv).pos, h.mem_before_iff hv, metIn]
  split <;> omega

theorem Numbered.visit_midway {before rest : List Waiting} {w : Waiting} {n : ℕ}
    (h : Numbered position r (before ++ w :: rest)) (hlate : n < r w.fqn) :
    (midway r (before ++ w :: rest) before n).visit w =
      midway r (before ++ w :: rest) (before ++ [w]) n := by
  by_cases hready : r w.fqn ≤ n + 1
  · have hround : r w.fqn = n + 1 := by omega
    rw [Progress.visit_of_ready (h.ready_iff.mpr hready)]
    simp [midway, List.filter_append, hround]
  · have hlater : n + 1 < r w.fqn := by omega
    have hne : r w.fqn ≠ n + 1 := by omega
    rw [Progress.visit_of_not_ready (mt h.ready_iff.mp hready)]
    simp [midway, List.filter_append, hlater, hne]

theorem midway_skip {before : List Waiting} {w : Waiting} {n : ℕ} (hearly : ¬ n < r w.fqn) :
    midway r waiting (before ++ [w]) n = midway r waiting before n := by
  have hlater : ¬ n + 1 < r w.fqn := by omega
  have hne : r w.fqn ≠ n + 1 := by omega
  simp [midway, List.filter_append, hlater, hne]

theorem Numbered.foldl_visit {before rest : List Waiting} (n : ℕ)
    (h : Numbered position r (before ++ rest)) :
    (rest.filter fun w => n < r w.fqn).foldl Progress.visit
        (midway r (before ++ rest) before n) =
      midway r (before ++ rest) (before ++ rest) n := by
  induction rest generalizing before with
  | nil => simp
  | cons w rest ih =>
    have hsplit : before ++ w :: rest = before ++ [w] ++ rest := by simp
    by_cases hlate : n < r w.fqn
    · rw [List.filter_cons_of_pos (by simpa using hlate), List.foldl_cons, h.visit_midway hlate]
      rw [hsplit] at h ⊢
      exact ih h
    · rw [List.filter_cons_of_neg (by simpa using hlate), ← midway_skip hlate]
      rw [hsplit] at h ⊢
      exact ih h

theorem Numbered.round_reached (h : Numbered position r waiting) (n : ℕ) :
    (reached r waiting n).round = reached r waiting (n + 1) := by
  have hstart : midway r waiting [] n = { reached r waiting n with waiting := [] } := by
    simp [midway]
  have hend : midway r waiting waiting n = reached r waiting (n + 1) := by
    simp [midway, reached, List.range_succ]
  have hfold := @Numbered.foldl_visit position r [] waiting n h
  rw [List.nil_append, hstart, hend] at hfold
  exact hfold

theorem Numbered.rounds_reached (h : Numbered position r waiting) (n k : ℕ) :
    Progress.rounds n (reached r waiting k) = reached r waiting (k + n) := by
  induction n generalizing k with
  | zero => rfl
  | succ n ih =>
    rw [Progress.rounds, h.round_reached, ih]
    congr 1
    omega

theorem Numbered.lastProgress_eq (h : Numbered position r waiting) :
    lastProgress waiting = reached r waiting waiting.length := by
  have hstart : reached r waiting 0 = { waiting } := by
    have hall : waiting.filter (fun w => 0 < r w.fqn) = waiting := by
      rw [List.filter_eq_self]
      intro w hw
      exact decide_eq_true (h.isRound w hw).pos
    rw [reached, hall]
    rfl
  rw [lastProgress, ← hstart, h.rounds_reached, Nat.zero_add]

theorem Numbered.pairwise_placed (h : Numbered position r waiting) (n : ℕ) :
    (reached r waiting n).placed.Pairwise fun v w =>
      toLex (r v.fqn, position v.fqn) < toLex (r w.fqn, position w.fqn) := by
  rw [reached, List.pairwise_flatMap]
  constructor
  · intro k hk
    refine (h.sorted.filter _).imp_of_mem fun {v w} hv hw hlt => ?_
    rw [Prod.Lex.toLex_lt_toLex]
    have hsame : r v.fqn = r w.fqn := by
      have hround := (List.mem_filter.mp hv).2
      have hround' := (List.mem_filter.mp hw).2
      simp only [decide_eq_true_eq] at hround hround'
      omega
    exact .inr ⟨hsame, hlt⟩
  · refine List.pairwise_lt_range.imp fun {k l} hkl v hv w hw => ?_
    rw [Prod.Lex.toLex_lt_toLex]
    simp only [List.mem_filter, decide_eq_true_eq] at hv hw
    exact .inl (by simp only; omega)

end Placing

def position (members : List Member) (fqn : String) : ℕ :=
  members.findIdx fun member => member.nested? = some fqn

/-- Every type of the list has the number of the first round in which its needs are met: the
greatest of 1 and the rounds in which each of them is met. -/
def IsRounds (m : Model) (module : String) (members : List Member) (r : String → ℕ) : Prop :=
  ∀ member ∈ members, ∀ fqn, member.nested? = some fqn →
    IsGreatest (insert 1 {n | ∃ need, Needs m module member need ∧
      n = metIn (position members) r fqn need}) (r fqn)

theorem position_cons_of_ne {member : Member} {fqn : String} (h : member.nested? ≠ some fqn) :
    position (member :: members) fqn = position members fqn + 1 := by
  simp [position, List.findIdx_cons, h]

theorem position_cons_self {member : Member} {fqn : String} (h : member.nested? = some fqn) :
    position (member :: members) fqn = 0 := by
  simp [position, List.findIdx_cons, h]

theorem position_sorted (hdistinct : (members.filterMap Member.nested?).Nodup) :
    (members.filterMap Member.nested?).Pairwise fun a b =>
      position members a < position members b := by
  induction members with
  | nil => exact .nil
  | cons member members ih =>
    cases hnested : member.nested? with
    | none =>
      rw [List.filterMap_cons_none hnested] at hdistinct ⊢
      refine (ih hdistinct).imp fun {a b} hlt => ?_
      rw [position_cons_of_ne (by simp [hnested]), position_cons_of_ne (by simp [hnested])]
      omega
    | some own =>
      rw [List.filterMap_cons_some hnested] at hdistinct ⊢
      obtain ⟨hfresh, hrest⟩ := List.nodup_cons.mp hdistinct
      have hbehind : ∀ fqn ∈ members.filterMap Member.nested?,
          position (member :: members) fqn = position members fqn + 1 := by
        intro fqn hfqn
        apply position_cons_of_ne
        rw [hnested]
        rintro ⟨rfl⟩
        exact hfresh hfqn
      rw [List.pairwise_cons]
      constructor
      · intro fqn hfqn
        rw [position_cons_self hnested, hbehind fqn hfqn]
        omega
      · refine (ih hrest).imp_of_mem fun {a b} ha hb hlt => ?_
        rw [hbehind a ha, hbehind b hb]
        omega

theorem filterMap_nested_append {front : List Member} {placed : List Waiting}
    (hfront : ∀ member ∈ front, member.nested? = none)
    (hnested : ∀ w ∈ placed, w.member.nested? = some w.fqn) :
    (front ++ placed.map (·.member)).filterMap Member.nested? = placed.map (·.fqn) := by
  rw [List.filterMap_append, List.filterMap_eq_nil_iff.mpr hfront, List.nil_append,
    List.filterMap_map, ← List.filterMap_eq_map]
  exact List.filterMap_congr hnested

theorem Waiting.Faithful.metRounds_eq {w : Waiting} (h : w.Faithful m module)
    (position r : String → ℕ) :
    w.metRounds position r =
      insert 1 {n | ∃ need, Needs m module w.member need ∧ n = metIn position r w.fqn need} := by
  ext n
  apply or_congr_right
  exact exists_congr fun need => and_congr_left' (h.needs need)

section Canonical

variable {waiting : List Waiting} (hw : waitingTypes m module members = .ok waiting)

include hw

theorem map_fqn_waiting : waiting.map (·.fqn) = members.filterMap Member.nested? := by
  obtain ⟨hmembers, hfaithful⟩ := waitingTypes_spec hw
  have htypes := @filterMap_nested_append [] waiting (by simp) fun w hin => (hfaithful w hin).nested
  rw [← htypes, List.nil_append, hmembers, List.filterMap_filter]
  apply List.filterMap_congr
  intro member hm
  cases hnested : member.nested? <;> simp

theorem isRounds_iff {r : String → ℕ} :
    IsRounds m module members r ↔ ∀ w ∈ waiting, w.IsRound (position members) r := by
  constructor
  · intro hr w hin
    obtain ⟨hm, hfaithful⟩ := member_of_waiting hw hin
    rw [Waiting.IsRound, hfaithful.metRounds_eq]
    exact hr w.member hm w.fqn hfaithful.nested
  · intro hr member hm fqn hnested
    obtain ⟨hmembers, hfaithful⟩ := waitingTypes_spec hw
    have htype : member ∈ waiting.map (·.member) :=
      hmembers ▸ List.mem_filter.mpr ⟨hm, by simp [hnested]⟩
    obtain ⟨w, hin, rfl⟩ := List.mem_map.mp htype
    obtain rfl := Option.some.inj ((hfaithful w hin).nested.symm.trans hnested)
    have hround := hr w hin
    rwa [Waiting.IsRound, (hfaithful w hin).metRounds_eq] at hround

theorem numbered_of_isRounds {r : String → ℕ} (hperm : (lastProgress waiting).placed.Perm waiting)
    (hdistinct : (members.filterMap Member.nested?).Nodup) (hr : IsRounds m module members r) :
    Numbered (position members) r waiting where
  sorted := by
    have hsorted := position_sorted hdistinct
    rwa [← map_fqn_waiting hw, List.pairwise_map] at hsorted
  isRound := (isRounds_iff hw).mp hr
  closed := by
    intro w hin need hneed
    have hplaced := (lastProgress_sound waiting).ordered.needs_placed (hperm.symm.subset hin)
    exact (hperm.map _).subset (hplaced need hneed)

theorem exists_isRounds (hperm : (lastProgress waiting).placed.Perm waiting)
    (hdistinct : (members.filterMap Member.nested?).Nodup) :
    ∃ r, IsRounds m module members r ∧ ∀ r', IsRounds m module members r' →
      ∀ fqn ∈ members.filterMap Member.nested?, r' fqn = r fqn := by
  have ho := (lastProgress_sound waiting).ordered
  have hplaced : ((lastProgress waiting).placed.map (·.fqn)).Nodup := by
    rwa [(hperm.map _).nodup_iff, map_fqn_waiting hw]
  obtain ⟨r, hr⟩ := exists_isRound ho hplaced (position members)
  refine ⟨r, (isRounds_iff hw).mpr fun w hin => hr w (hperm.symm.subset hin), ?_⟩
  intro r' hr' fqn hfqn
  rw [← map_fqn_waiting hw] at hfqn
  obtain ⟨w, hin, rfl⟩ := List.mem_map.mp hfqn
  have hall := (isRounds_iff hw).mp hr'
  exact isRound_unique ho hr (fun v hv => hall v (hperm.subset hv)) w (hperm.symm.subset hin)

end Canonical

/-- A sort writes types with different names by the numbers of their rounds, which their needs
determine, and those of one round in the order of the list. A sorted list stays as it is. -/
theorem sort_canonical {out : List Member} (hdistinct : (members.filterMap Member.nested?).Nodup)
    (h : sort m module members = .ok out) :
    ∃ r, IsRounds m module members r ∧
      (∀ r', IsRounds m module members r' →
        ∀ fqn ∈ members.filterMap Member.nested?, r' fqn = r fqn) ∧
      ((out.filterMap Member.nested?).Pairwise fun a b =>
        toLex (r a, position members a) < toLex (r b, position members b)) ∧
      sort m module out = .ok out := by
  obtain ⟨waiting, hw, hempty, hout⟩ := sort_eq_ok h
  have hperm : (lastProgress waiting).placed.Perm waiting := by
    simpa [hempty] using (lastProgress_sound waiting).perm
  obtain ⟨r, hr, hunique⟩ := exists_isRounds hw hperm hdistinct
  refine ⟨r, hr, hunique, ?_, sort_sorted h⟩
  have hnumbered := numbered_of_isRounds hw hperm hdistinct hr
  have htypes : out.filterMap Member.nested? = (lastProgress waiting).placed.map (·.fqn) := by
    rw [hout]
    apply filterMap_nested_append
    · intro member hm
      simpa using (List.mem_filter.mp hm).2
    · intro w hp
      exact ((waitingTypes_spec hw).2 w (placed_subset hp)).nested
  rw [htypes, List.pairwise_map, hnumbered.lastProgress_eq]
  exact hnumbered.pairwise_placed waiting.length

theorem sort_canonical_late :
    let m := interfaceModel [("Acme.Derived", ["Acme.Middle"]), ("Acme.Middle", ["Acme.Root"]),
      ("Acme.Root", []), ("Acme.Free", []), ("Acme.Late", ["Acme.Root"])]
    let members := ["Acme.Derived", "Acme.Middle", "Acme.Root", "Acme.Free", "Acme.Late"].map
      interfaceMember
    let sorted := ["Acme.Root", "Acme.Free", "Acme.Late", "Acme.Middle", "Acme.Derived"].map
      interfaceMember
    (members.filterMap Member.nested?).Nodup ∧ sort m "acme" members = .ok sorted ∧
      sort m "acme" sorted = .ok sorted ∧
      ∃ r, IsRounds m "acme" members r ∧
        (sorted.filterMap Member.nested?).Pairwise fun a b =>
          toLex (r a, position members a) < toLex (r b, position members b) := by
  intro m members sorted
  have hdistinct : (members.filterMap Member.nested?).Nodup := by decide
  have hsort : sort m "acme" members = .ok sorted := rfl
  obtain ⟨r, hr, -, hpairwise, hagain⟩ := sort_canonical hdistinct hsort
  exact ⟨hdistinct, hsort, hagain, r, hr, hpairwise⟩

end Bindery.Members
