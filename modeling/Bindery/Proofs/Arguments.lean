import Bindery.Command.Arguments
import Mathlib.Data.List.Basic

/-!
# Grammar of arguments

The arguments behind the verb are groups: a flag that stands alone, or a flag and the value behind
it, which may be any text. Arguments are understood exactly if they can be cut into groups that the
verb allows. There is then only one way to cut them, and the options can be told from the groups
without reading them in order.
-/

namespace Bindery.Command

inductive Group where
  | alone (word : String)
  | valued (word value : String)
  deriving DecidableEq

namespace Group

def word : Group → String
  | alone word => word
  | valued word _ => word

def tokens : Group → List String
  | alone word => [word]
  | valued word value => [word, value]

def value? (words : List String) : Group → Option String
  | alone _ => none
  | valued word value => if word ∈ words then some value else none

end Group

def Verb.word : Verb → String
  | generate => "generate"
  | symbols => "symbols"

def Verb.loneWords : Verb → List String
  | generate => ["--verbose", "-v", "--no-runtime-type-checking", "--dry-run"]
  | symbols => ["--verbose", "-v"]

def Verb.valueWords : Verb → List String
  | generate => ["--config", "--assembly", "--dep", "--output", "-o"]
  | symbols => ["--config", "--assembly", "--dep", "--target"]

def Group.Allowed (verb : Verb) : Group → Prop
  | alone word => word ∈ verb.loneWords
  | valued word value =>
    word ∈ verb.valueWords ∧ (word = "--target" → value = "python" ∨ value = "php")

structure Cut (verb : Verb) (words : List String) (groups : List Group) : Prop where
  allowed : ∀ group ∈ groups, group.Allowed verb
  tokens : groups.flatMap Group.tokens = words

def valuesOf (words : List String) (groups : List Group) : List String :=
  groups.filterMap (Group.value? words)

def heads (words : List String) (groups : List Group) : Bool :=
  groups.any fun group => group.word ∈ words

/-- The options that groups ask for: the last value of a flag counts, except that all dependencies
are kept. -/
def Options.ofGroups (groups : List Group) : Options :=
  { config := (valuesOf ["--config"] groups).getLast?.map Path.mk
    assembly := (valuesOf ["--assembly"] groups).getLast?.map Path.mk
    dependencies := (valuesOf ["--dep"] groups).map Path.mk
    output := (valuesOf ["--output", "-o"] groups).getLast?.map Path.mk
    target := (valuesOf ["--target"] groups).getLast?.bind Target.ofWord?
    verbose := heads ["--verbose", "-v"] groups
    skipChecks := heads ["--no-runtime-type-checking"] groups
    dryRun := heads ["--dry-run"] groups }

theorem ofWord?_word (verb : Verb) : Verb.ofWord? verb.word = some verb := by
  cases verb <;> rfl

theorem word_injective {verb verb' : Verb} (h : verb.word = verb'.word) : verb = verb' := by
  apply Option.some.inj
  rw [← ofWord?_word verb, h, ofWord?_word]

theorem word_of_ofWord? {word : String} {verb : Verb} (h : Verb.ofWord? word = some verb) :
    verb.word = word := by
  unfold Verb.ofWord? at h
  split at h
  · rw [← Option.some.inj h, Verb.word]
  · rw [← Option.some.inj h, Verb.word]
  · cases h

theorem mem_words_of_ofWord? {verb : Verb} {word : String} {flag : Flag}
    (h : Flag.ofWord? verb word = some flag) :
    word ∈ if flag.takesValue then verb.valueWords else verb.loneWords := by
  cases verb
  all_goals
    unfold Flag.ofWord? at h
    split at h <;> cases h <;> simp_all [Flag.takesValue, Verb.valueWords, Verb.loneWords]

theorem disjoint_words {verb : Verb} {word : String} (hlone : word ∈ verb.loneWords)
    (hvalue : word ∈ verb.valueWords) : False := by
  have hall : ∀ verb : Verb, ∀ word ∈ verb.loneWords, word ∉ verb.valueWords := by
    intro verb
    cases verb <;> decide
  exact hall verb word hlone hvalue

theorem valuesOf_snoc (words : List String) (groups : List Group) (group : Group) :
    valuesOf words (groups ++ [group]) = valuesOf words groups ++ (group.value? words).toList := by
  cases h : group.value? words <;> simp [valuesOf, h]

theorem heads_snoc (words : List String) (groups : List Group) (group : Group) :
    heads words (groups ++ [group]) = (heads words groups || decide (group.word ∈ words)) := by
  simp [heads]

theorem note_alone {verb : Verb} {word : String} (h : word ∈ verb.loneWords)
    (groups : List Group) :
    ∃ flag, Flag.ofWord? verb word = some flag ∧ flag.takesValue = false ∧
      (Options.ofGroups groups).note flag "" = .ok (.ofGroups (groups ++ [.alone word])) := by
  cases verb
  all_goals
    simp only [Verb.loneWords, List.mem_cons, List.not_mem_nil, or_false] at h
    rcases h with rfl | rfl | rfl | rfl
  all_goals
    refine ⟨_, rfl, rfl, ?_⟩
    simp [Options.note, Options.ofGroups, valuesOf_snoc, heads_snoc, Group.value?, Group.word]

theorem note_target {value : String} (h : value = "python" ∨ value = "php") (o : Options) :
    o.note .target value = .ok { o with target := Target.ofWord? value } := by
  rcases h with rfl | rfl <;> rfl

theorem note_valued {verb : Verb} {word value : String}
    (h : (Group.valued word value).Allowed verb) (groups : List Group) :
    ∃ flag, Flag.ofWord? verb word = some flag ∧ flag.takesValue = true ∧
      (Options.ofGroups groups).note flag value =
        .ok (.ofGroups (groups ++ [.valued word value])) := by
  obtain ⟨hword, htarget⟩ := h
  cases verb
  all_goals
    simp only [Verb.valueWords, List.mem_cons, List.not_mem_nil, or_false] at hword
    rcases hword with rfl | rfl | rfl | rfl | rfl
  case symbols.inr.inr.inr =>
    refine ⟨.target, rfl, rfl, ?_⟩
    rw [note_target (htarget rfl)]
    simp [Options.ofGroups, valuesOf_snoc, heads_snoc, Group.value?, Group.word]
  all_goals
    refine ⟨_, rfl, rfl, ?_⟩
    simp [Options.note, Options.ofGroups, valuesOf_snoc, heads_snoc, Group.value?, Group.word]

theorem read_alone {verb : Verb} {word : String} {flag : Flag} {o o' : Options}
    (hflag : Flag.ofWord? verb word = some flag) (hvalue : flag.takesValue = false)
    (hnote : o.note flag "" = .ok o') (rest : List String) :
    Options.read verb (word :: rest) o = Options.read verb rest o' := by
  cases rest with
  | nil => simp [Options.read, hflag, hvalue, hnote]
  | cons next rest =>
    simp only [Options.read, hflag, hvalue, hnote]
    rfl

theorem read_valued {verb : Verb} {word value : String} {flag : Flag} {o o' : Options}
    (hflag : Flag.ofWord? verb word = some flag) (hvalue : flag.takesValue = true)
    (hnote : o.note flag value = .ok o') (rest : List String) :
    Options.read verb (word :: value :: rest) o = Options.read verb rest o' := by
  simp only [Options.read, hflag, hvalue, hnote]
  rfl

theorem read_groups {verb : Verb} {groups : List Group}
    (h : ∀ group ∈ groups, group.Allowed verb) (before : List Group) :
    Options.read verb (groups.flatMap Group.tokens) (.ofGroups before) =
      .ok (.ofGroups (before ++ groups)) := by
  induction groups generalizing before with
  | nil => simp [Options.read]
  | cons group groups ih =>
    obtain ⟨hgroup, hgroups⟩ := List.forall_mem_cons.mp h
    have hrest := ih hgroups (before ++ [group])
    rw [List.append_assoc, List.singleton_append] at hrest
    rw [List.flatMap_cons, ← hrest]
    cases group with
    | alone word =>
      obtain ⟨flag, hflag, hvalue, hnote⟩ := note_alone hgroup before
      exact read_alone hflag hvalue hnote _
    | valued word value =>
      obtain ⟨flag, hflag, hvalue, hnote⟩ := note_valued hgroup before
      exact read_valued hflag hvalue hnote _

theorem Cut.cons {verb : Verb} {words : List String} {group : Group} {groups : List Group}
    (hgroup : group.Allowed verb) (h : Cut verb words groups) :
    Cut verb (group.tokens ++ words) (group :: groups) where
  allowed := List.forall_mem_cons.mpr ⟨hgroup, h.allowed⟩
  tokens := by rw [List.flatMap_cons, h.tokens]

theorem word_of_target {value : String} {target : Target} (h : Target.ofWord value = .ok target) :
    value = "python" ∨ value = "php" := by
  rw [Target.ofWord] at h
  split at h
  · rename_i hword
    unfold Target.ofWord? at hword
    split at hword
    · exact .inl rfl
    · exact .inr rfl
    · cases hword
  · cases h

theorem allowed_of_note {verb : Verb} {word value : String} {flag : Flag} {o o' : Options}
    (hflag : Flag.ofWord? verb word = some flag) (hvalue : flag.takesValue = true)
    (hnote : o.note flag value = .ok o') : (Group.valued word value).Allowed verb := by
  have hword := mem_words_of_ofWord? hflag
  rw [hvalue, if_pos rfl] at hword
  refine ⟨hword, ?_⟩
  rintro rfl
  cases verb with
  | generate => cases hflag
  | symbols =>
    cases hflag
    rw [Options.note] at hnote
    split at hnote
    · rename_i htarget
      exact word_of_target htarget
    · cases hnote

theorem allowed_alone {verb : Verb} {word : String} {flag : Flag}
    (hflag : Flag.ofWord? verb word = some flag) (hvalue : ¬ flag.takesValue = true) :
    (Group.alone word).Allowed verb := by
  have hword := mem_words_of_ofWord? hflag
  rwa [if_neg hvalue] at hword

theorem exists_note_of_bind {x : Except UsageFault Options}
    {f : Options → Except UsageFault Options} {o : Options} (h : x >>= f = .ok o) :
    ∃ middle, x = .ok middle ∧ f middle = .ok o := by
  cases x with
  | error fault => cases h
  | ok middle => exact ⟨middle, rfl, h⟩

theorem exists_cut_of_read {verb : Verb} {words : List String} {o o' : Options}
    (h : Options.read verb words o = .ok o') : ∃ groups, Cut verb words groups := by
  fun_induction Options.read verb words o with
  | case1 => exact ⟨[], by simp, rfl⟩
  | case2 => cases h
  | case3 => cases h
  | case4 word o flag hflag hvalue =>
    exact ⟨[.alone word], .cons (allowed_alone hflag hvalue) ⟨by simp, rfl⟩⟩
  | case5 => cases h
  | case6 word value rest o flag hflag hvalue ih =>
    obtain ⟨middle, hnote, hrest⟩ := exists_note_of_bind h
    obtain ⟨groups, hgroups⟩ := ih middle hrest
    exact ⟨.valued word value :: groups, .cons (allowed_of_note hflag hvalue hnote) hgroups⟩
  | case7 word next rest o flag hflag hvalue ih =>
    obtain ⟨middle, -, hrest⟩ := exists_note_of_bind h
    obtain ⟨groups, hgroups⟩ := ih middle hrest
    exact ⟨.alone word :: groups, .cons (allowed_alone hflag hvalue) hgroups⟩

theorem Cut.unique {verb : Verb} {words : List String} {groups groups' : List Group}
    (h : Cut verb words groups) (h' : Cut verb words groups') : groups' = groups := by
  induction groups generalizing words groups' with
  | nil =>
    cases groups' with
    | nil => rfl
    | cons group groups' =>
      have htokens := h'.tokens.trans h.tokens.symm
      cases group <;> simp [Group.tokens] at htokens
  | cons group groups ih =>
    obtain ⟨hgroup, hgroups⟩ := List.forall_mem_cons.mp h.allowed
    have htokens := h'.tokens.trans h.tokens.symm
    cases groups' with
    | nil => cases group <;> simp [Group.tokens] at htokens
    | cons group' groups' =>
      obtain ⟨hgroup', hgroups'⟩ := List.forall_mem_cons.mp h'.allowed
      have htail : groups'.flatMap Group.tokens = groups.flatMap Group.tokens →
          groups' = groups :=
        fun heq => ih ⟨hgroups, heq.symm⟩ ⟨hgroups', rfl⟩
      cases group with
      | alone word =>
        cases group' with
        | alone word' =>
          obtain ⟨rfl, hrest⟩ := List.cons.inj htokens
          rw [htail hrest]
        | valued word' value' =>
          obtain ⟨rfl, -⟩ := List.cons.inj htokens
          exact (disjoint_words hgroup hgroup'.1).elim
      | valued word value =>
        cases group' with
        | alone word' =>
          obtain ⟨rfl, -⟩ := List.cons.inj htokens
          exact (disjoint_words hgroup' hgroup.1).elim
        | valued word' value' =>
          obtain ⟨rfl, hvalues⟩ := List.cons.inj htokens
          obtain ⟨rfl, hrest⟩ := List.cons.inj hvalues
          rw [htail hrest]

theorem read_of_cut {verb : Verb} {rest : List String} {groups : List Group}
    (h : Cut verb rest groups) :
    Request.read (verb.word :: rest) = .ok { verb, options := .ofGroups groups } := by
  have hoptions : Options.read verb rest {} = .ok (.ofGroups groups) := by
    have hgroups := read_groups h.allowed []
    rwa [h.tokens] at hgroups
  simp only [Request.read, ofWord?_word, hoptions]
  rfl

theorem exists_cut_of_request {args : List String} {request : Request}
    (h : Request.read args = .ok request) :
    ∃ verb rest groups, args = verb.word :: rest ∧ Cut verb rest groups := by
  cases args with
  | nil => cases h
  | cons word rest =>
    simp only [Request.read] at h
    cases hverb : Verb.ofWord? word with
    | none => simp [hverb] at h
    | some verb =>
      rw [hverb] at h
      cases hoptions : Options.read verb rest {} with
      | error fault => simp [hoptions, bind, Except.bind] at h
      | ok o =>
        obtain ⟨groups, hcut⟩ := exists_cut_of_read hoptions
        exact ⟨verb, rest, groups, by rw [word_of_ofWord? hverb], hcut⟩

/-- Arguments are understood exactly if they are a verb and groups that it allows. The verb and the
groups are then unique, and the options are those of the groups. -/
theorem read_iff_cut (args : List String) :
    ((∃ request, Request.read args = .ok request) ↔
      ∃ verb rest groups, args = verb.word :: rest ∧ Cut verb rest groups) ∧
    ∀ verb rest groups, args = verb.word :: rest → Cut verb rest groups →
      (∀ verb' rest' groups', args = verb'.word :: rest' → Cut verb' rest' groups' →
        verb' = verb ∧ groups' = groups) ∧
      Request.read args = .ok { verb, options := .ofGroups groups } := by
  refine ⟨⟨?_, ?_⟩, ?_⟩
  · rintro ⟨request, hrequest⟩
    exact exists_cut_of_request hrequest
  · rintro ⟨verb, rest, groups, rfl, hcut⟩
    exact ⟨_, read_of_cut hcut⟩
  · rintro verb rest groups rfl hcut
    refine ⟨?_, read_of_cut hcut⟩
    intro verb' rest' groups' hargs hcut'
    obtain ⟨hword, rfl⟩ := List.cons.inj hargs
    obtain rfl := word_injective hword
    exact ⟨rfl, hcut.unique hcut'⟩

theorem read_iff_cut_symbols :
    let groups : List Group := [.valued "--dep" "--target", .valued "--target" "php", .alone "-v",
      .valued "--dep" "b.json", .valued "--target" "python"]
    let args := ["symbols", "--dep", "--target", "--target", "php", "-v", "--dep", "b.json",
      "--target", "python"]
    Cut .symbols args.tail groups ∧
      Request.read args = .ok {
        verb := .symbols
        options := {
          dependencies := [⟨"--target"⟩, ⟨"b.json"⟩]
          target := some .python
          verbose := true } } := by
  intro groups args
  have hcut : Cut .symbols args.tail groups :=
    ⟨by simp [groups, Group.Allowed, Verb.loneWords, Verb.valueWords], rfl⟩
  exact ⟨hcut, ((read_iff_cut args).2 .symbols args.tail groups rfl hcut).2⟩

end Bindery.Command
