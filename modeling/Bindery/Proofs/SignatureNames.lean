import Bindery.Proofs.FieldCoverage
import Bindery.Proofs.FreshNames

/-!
# Names in signatures

A signature introduces the receiver, the positional parameters, the one that takes any number of
values and the keyword parameters. A positional parameter gives way to the fields that the lifted
struct declares itself, and the receiver gives way to the texts in front of the types. This leaves
three ways for two names to be the same, and there is no other.
-/

namespace Bindery

theorem Text.trimChars_eq_self {text : List Char} (h : ∀ c ∈ text, isBlank c = false) :
    trimChars text = text := by
  have hdrop : ∀ chars : List Char, (∀ c ∈ chars, isBlank c = false) →
      chars.dropWhile isBlank = chars := by
    intro chars hchars
    cases chars with
    | nil => rfl
    | cons c chars => rw [List.dropWhile_cons, hchars c List.mem_cons_self]; rfl
  rw [trimChars, hdrop text h, trimEndChars, hdrop _ (by simpa using h), List.reverse_reverse]

namespace Binding

open Api Catalog

variable {ctx : Context} {method : MethodMember} {head : MethodHead} {script : Script}

def spelling (argument : Argument) : String := Identifier.parameter argument.name []

def positional (method : MethodMember) : List Argument :=
  if method.lifted.isSome || method.arguments.getLast?.any (·.variadic) then
    method.arguments.dropLast
  else method.arguments

def rest? (method : MethodMember) : Option Argument :=
  if method.lifted.isSome then none else method.arguments.getLast?.filter (·.variadic)

def positionalNames (method : MethodMember) (head : MethodHead) : List String :=
  (positional method).map fun argument => Identifier.parameter argument.name head.taken

def restNames (method : MethodMember) : List String := (rest? method).toList.map spelling

def keywordNames (head : MethodHead) : List String := head.fields.map (·.pythonName)

namespace Param

def IsPlain (name : String) (param : Param) : Prop :=
  ∃ type isOptional, param = .plain name type isOptional

def IsRest (name : String) (param : Param) : Prop := ∃ type, param = .rest name type

theorem IsPlain.name? {name : String} {param : Param} (h : IsPlain name param) :
    param.name? = some name := by
  obtain ⟨type, isOptional, rfl⟩ := h
  rfl

theorem IsRest.name? {name : String} {param : Param} (h : IsRest name param) :
    param.name? = some name := by
  obtain ⟨type, rfl⟩ := h
  rfl

theorem filterMap_name? {names : List String} {params : List Param}
    (h : List.Forall₂ (fun name param => param.name? = some name) names params) :
    params.filterMap Param.name? = names := by
  induction h with
  | nil => rfl
  | cons hname _ ih => rw [List.filterMap_cons_some hname, ih]

theorem exists_isPlain {names : List String} {params : List Param}
    (h : List.Forall₂ IsPlain names params) {name : String} (hname : name ∈ names) :
    ∃ param ∈ params, IsPlain name param := by
  induction h with
  | nil => exact absurd hname List.not_mem_nil
  | @cons _ param _ _ hparam _ ih =>
    rcases List.mem_cons.mp hname with rfl | hin
    · exact ⟨param, List.mem_cons_self, hparam⟩
    · obtain ⟨found, hfound, hplain⟩ := ih hin
      exact ⟨found, List.mem_cons_of_mem _ hfound, hplain⟩

theorem IsPlain.label {name : String} {param : Param} (h : IsPlain name param)
    (hname : ∀ c ∈ name.toList, c ≠ ':' ∧ Text.isBlank c = false) : param.label = name := by
  obtain ⟨type, isOptional, rfl⟩ := h
  have hstop : (name.toList ++
      ':' :: (" " ++ type.text ++ defaultValue isOptional).toList).takeWhile (· ≠ ':') =
        name.toList := by
    rw [List.takeWhile_append_of_pos (by simpa using fun c hc => (hname c hc).1)]
    simp
  have htext : (Param.plain name type isOptional).text.toList =
      name.toList ++ ':' :: (" " ++ type.text ++ defaultValue isOptional).toList := by
    simp [Param.text]
  rw [Param.label, htext, hstop, Text.trimChars_eq_self fun c hc => (hname c hc).2,
    String.ofList_toList]

end Param

theorem isPlain_of_argumentParams {taken : List String} {arguments : List Argument}
    {params : List Param} (h : arguments.mapM (argumentParam ctx taken) = .ok params) :
    List.Forall₂ Param.IsPlain (arguments.map fun a => Identifier.parameter a.name taken)
      params := by
  rw [List.forall₂_map_left_iff]
  refine (Outcome.mapM_eq_ok.mp h).imp fun argument param hparam => ?_
  obtain ⟨type, -, hparam⟩ := Outcome.bind_eq_ok.mp hparam
  exact ⟨type, argument.type.isOptional, (Outcome.pure_eq_ok.mp hparam).symm⟩

theorem isPlain_of_keywordParams {fields : List Field} {params : List Param}
    (hspelled : ∀ field ∈ fields, field.pythonName = Identifier.parameter field.name [])
    (h : keywordParams ctx fields = .ok params) :
    ∃ marks keywords, params = marks ++ keywords ∧ marks ⊆ [.keywordsFollow] ∧
      List.Forall₂ Param.IsPlain (fields.map (·.pythonName)) keywords := by
  simp only [keywordParams, Outcome.bind_eq_ok, Outcome.pure_eq_ok] at h
  obtain ⟨keywords, hkeywords, rfl⟩ := h
  refine ⟨if keywords.isEmpty then [] else [.keywordsFollow], keywords, ?_, ?_, ?_⟩
  · cases keywords <;> rfl
  · split <;> simp
  · rw [List.map_congr_left hspelled, List.forall₂_map_left_iff]
    refine (Outcome.mapM_eq_ok.mp hkeywords).imp fun field param hparam => ?_
    obtain ⟨type, -, hparam⟩ := Outcome.bind_eq_ok.mp hparam
    exact ⟨type, field.type.isOptional, (Outcome.pure_eq_ok.mp hparam).symm⟩

structure Parts (method : MethodMember) (head : MethodHead)
    (before rest marks keywords : List Param) : Prop where
  params_eq : head.params = before ++ rest ++ marks ++ keywords
  before : List.Forall₂ Param.IsPlain (positionalNames method head) before
  rest : List.Forall₂ Param.IsRest (restNames method) rest
  marks : marks ⊆ [.keywordsFollow]
  keywords : List.Forall₂ Param.IsPlain (keywordNames head) keywords
  unlifted : method.lifted = none → head.taken = [] ∧ head.fields = []

theorem exists_parts (h : methodHead ctx method = .ok head) :
    ∃ before rest marks keywords, Parts method head before rest marks keywords := by
  simp only [methodHead, Outcome.bind_eq_ok] at h
  obtain ⟨returns, -, taken, htaken, plain, hplain, h⟩ := h
  have hplain := isPlain_of_argumentParams hplain
  have hdrop : List.Forall₂ Param.IsPlain
      (method.arguments.dropLast.map fun a => Identifier.parameter a.name taken)
      plain.dropLast := by
    rw [List.map_dropLast, List.dropLast_eq_take, List.dropLast_eq_take, hplain.length_eq]
    exact List.forall₂_take _ hplain
  have hfree : method.lifted = none → taken = [] := by
    intro hlifted
    rw [hlifted] at htaken
    exact (Except.ok.inj htaken).symm
  split at h
  · -- The last argument is lifted, and its fields follow as keywords.
    rename_i lifted hlifted
    simp only [Outcome.bind_eq_ok, Outcome.pure_eq_ok] at h
    obtain ⟨fields, hfields, params, hparams, rfl⟩ := h
    obtain ⟨marks, keywords, rfl, hmarks, hkeywords⟩ :=
      isPlain_of_keywordParams (fun _ => pythonName_of_mem_liftedFields hfields) hparams
    refine ⟨plain.dropLast, [], marks, keywords, ?_, ?_, ?_, hmarks, hkeywords, ?_⟩
    · simp
    · simpa [positionalNames, positional, hlifted] using hdrop
    · simp [restNames, rest?, hlifted]
    · simp [hlifted]
  · rename_i last hlifted hlast
    split at h
    · -- The last argument takes any number of values.
      rename_i hvariadic
      simp only [restParam, Outcome.bind_eq_ok, Outcome.pure_eq_ok] at h
      obtain ⟨_, ⟨type, -, rfl⟩, rfl⟩ := h
      refine ⟨plain.dropLast, [.rest (spelling last) type], [], [], ?_, ?_, ?_, ?_, ?_,
        fun hnone => ⟨hfree hnone, rfl⟩⟩
      · simp [spelling]
      · simpa [positionalNames, positional, hlast, hvariadic] using hdrop
      · have hrest : rest? method = some last := by
          simp [rest?, hlifted, hlast, Option.filter, hvariadic]
        rw [restNames, hrest]
        exact .cons ⟨type, rfl⟩ .nil
      · simp
      · simp [keywordNames]
    · rename_i hvariadic
      obtain rfl := Outcome.pure_eq_ok.mp h
      refine ⟨plain, [], [], [], by simp, ?_, ?_, by simp, by simp [keywordNames],
        fun hnone => ⟨hfree hnone, rfl⟩⟩
      · simpa [positionalNames, positional, hlifted, hlast, hvariadic] using hplain
      · simp [restNames, rest?, hlifted, hlast, hvariadic]
  · rename_i hlifted hlast
    obtain rfl := Outcome.pure_eq_ok.mp h
    refine ⟨plain, [], [], [], by simp, ?_, ?_, by simp, by simp [keywordNames],
        fun hnone => ⟨hfree hnone, rfl⟩⟩
    · simpa [positionalNames, positional, hlifted, hlast] using hplain
    · simp [restNames, rest?, hlifted, hlast]

theorem params_filterMap_name? (h : methodHead ctx method = .ok head) :
    head.params.filterMap Param.name? =
      positionalNames method head ++ restNames method ++ keywordNames head := by
  obtain ⟨before, rest, marks, keywords, hparts⟩ := exists_parts h
  have hmarks : marks.filterMap Param.name? = [] := by
    refine List.filterMap_eq_nil_iff.mpr fun param hparam => ?_
    rw [List.mem_singleton.mp (hparts.marks hparam)]
    rfl
  rw [hparts.params_eq, List.filterMap_append, List.filterMap_append, List.filterMap_append, hmarks,
    Param.filterMap_name? (hparts.before.imp fun _ _ => Param.IsPlain.name?),
    Param.filterMap_name? (hparts.rest.imp fun _ _ => Param.IsRest.name?),
    Param.filterMap_name? (hparts.keywords.imp fun _ _ => Param.IsPlain.name?), List.append_nil]

theorem exists_isPlain_of_methodHead (h : methodHead ctx method = .ok head) {name : String}
    (hname : name ∈ positionalNames method head ++ keywordNames head) :
    ∃ param ∈ head.params, Param.IsPlain name param := by
  obtain ⟨before, rest, marks, keywords, hparts⟩ := exists_parts h
  rcases List.mem_append.mp hname with hin | hin
  · obtain ⟨param, hparam, hplain⟩ := Param.exists_isPlain hparts.before hin
    exact ⟨param, by simp [hparts.params_eq, hparam], hplain⟩
  · obtain ⟨param, hparam, hplain⟩ := Param.exists_isPlain hparts.keywords hin
    exact ⟨param, by simp [hparts.params_eq, hparam], hplain⟩

theorem receiver_clean (head : MethodHead) (kind : MethodKind) :
    ∀ c ∈ (head.receiver kind).toList, c ≠ ':' ∧ Text.isBlank c = false := by
  have hword : kind.receiver.toList.all (fun c => c ≠ ':' && !Text.isBlank c) = true := by
    cases kind <;> rfl
  obtain ⟨n, -, hreceiver⟩ :=
    Identifier.exists_firstFree kind.receiver (head.params.map Param.label)
  rw [MethodHead.receiver, hreceiver, Identifier.toList_suffixed]
  intro c hc
  rcases List.mem_append.mp hc with hin | hin
  · simpa using List.all_eq_true.mp hword c hin
  · obtain rfl := List.eq_of_mem_replicate hin
    decide

theorem receiver_not_mem (h : methodHead ctx method = .ok head) (kind : MethodKind) :
    head.receiver kind ∉ positionalNames method head ++ keywordNames head := by
  intro hin
  obtain ⟨param, hparam, hplain⟩ := exists_isPlain_of_methodHead h hin
  have hlabel := hplain.label (receiver_clean head kind)
  exact Identifier.uniquify_not_mem kind.receiver (head.params.map Param.label)
    (List.mem_map.mpr ⟨param, hparam, hlabel⟩)

/-- Two names of a signature that are the same. -/
inductive Collision (method : MethodMember) (head : MethodHead) : Prop where
  | inherited (argument : Argument) (field : Field) (hargument : argument ∈ positional method)
      (hfield : field ∈ head.fields) (hinherited : field.pythonName ∉ head.taken)
      (heq : Identifier.parameter argument.name head.taken = field.pythonName)
  | neighbour (one other : Argument) (hone : one ∈ positional method)
      (hother : other ∈ positional method)
      (hreaches : Identifier.Reaches head.taken (spelling one) (spelling other))
  | receiver (argument : Argument) (hrest : rest? method = some argument)
      (heq : spelling argument = head.receiver method.kind)

theorem positional_sublist (method : MethodMember) :
    (positional method ++ (rest? method).toList).Sublist method.arguments := by
  rw [positional, rest?]
  cases hlast : method.arguments.getLast? with
  | none => cases method.lifted <;> simp [List.dropLast_sublist]
  | some last =>
    have hsplit : method.arguments.dropLast ++ [last] = method.arguments :=
      List.dropLast_append_getLast? last hlast
    cases method.lifted with
    | none =>
      by_cases hvariadic : last.variadic
      · simp [Option.filter, hvariadic, hsplit]
      · simp [Option.filter, hvariadic]
    | some lifted => simp [List.dropLast_sublist]

theorem nodup_spellings (h : (method.arguments.map spelling).Nodup) :
    ((positional method).map spelling ++ restNames method).Nodup := by
  rw [restNames, ← List.map_append]
  exact h.sublist ((positional_sublist method).map spelling)

theorem positionalNames_eq (method : MethodMember) (head : MethodHead) :
    positionalNames method head =
      ((positional method).map spelling).map (Identifier.uniquify · head.taken) := by
  rw [List.map_map]
  rfl

theorem not_mem_taken {name : String} (h : name ∈ positionalNames method head) :
    name ∉ head.taken := by
  obtain ⟨argument, -, rfl⟩ := List.mem_map.mp h
  exact Identifier.uniquify_not_mem _ head.taken

theorem nodup_positionalNames_iff (h : ((positional method).map spelling).Nodup) :
    (positionalNames method head).Nodup ↔
      ∀ one ∈ positional method, ∀ other ∈ positional method,
        ¬ Identifier.Reaches head.taken (spelling one) (spelling other) := by
  rw [positionalNames_eq, List.nodup_map_iff_inj_on h]
  constructor
  · intro hinjective one hone other hother hreaches
    exact hreaches.ne (hinjective _ (List.mem_map_of_mem hone) _ (List.mem_map_of_mem hother)
      hreaches.uniquify_eq)
  · intro hnone name hname name' hname' heq
    obtain ⟨one, hone, rfl⟩ := List.mem_map.mp hname
    obtain ⟨other, hother, rfl⟩ := List.mem_map.mp hname'
    by_contra hne
    rcases (Identifier.uniquify_eq_uniquify_iff hne).mp heq with hreaches | hreaches
    · exact hnone one hone other hother hreaches
    · exact hnone other hother one hone hreaches

theorem nodup_params_iff (h : methodHead ctx method = .ok head)
    (harguments : (method.arguments.map spelling).Nodup) (hfields : (keywordNames head).Nodup) :
    (positionalNames method head ++ restNames method ++ keywordNames head).Nodup ↔
      (positionalNames method head).Nodup ∧
        List.Disjoint (positionalNames method head) (keywordNames head) := by
  cases hlifted : method.lifted with
  | some lifted =>
    have hrest : restNames method = [] := by simp [restNames, rest?, hlifted]
    rw [hrest, List.append_nil, List.nodup_append']
    simp [hfields]
  | none =>
    -- Without a struct no parameter gives way, so the names are the spellings.
    obtain ⟨before, rest, marks, keywords, hparts⟩ := exists_parts h
    obtain ⟨htaken, hnone⟩ := hparts.unlifted hlifted
    have hkeywords : keywordNames head = [] := by rw [keywordNames, hnone, List.map_nil]
    have hpositional : positionalNames method head = (positional method).map spelling := by
      rw [positionalNames, htaken]
      rfl
    have hspelled := nodup_spellings harguments
    rw [hkeywords, List.append_nil, hpositional]
    simp [hspelled, (List.nodup_append'.mp hspelled).1]

theorem nodup_names_iff (h : methodHead ctx method = .ok head)
    (harguments : (method.arguments.map spelling).Nodup) (hfields : (keywordNames head).Nodup) :
    (head.names method.kind).Nodup ↔ ¬ Collision method head := by
  have hspelled := (List.nodup_append'.mp (nodup_spellings harguments)).1
  have hreceiver := receiver_not_mem h method.kind
  rw [MethodHead.names, params_filterMap_name? h, List.nodup_cons,
    nodup_params_iff h harguments hfields, nodup_positionalNames_iff hspelled]
  constructor
  · rintro ⟨hfresh, hreaches, hdisjoint⟩ hcollision
    cases hcollision with
    | inherited argument field hargument hfield _ heq =>
      refine hdisjoint (List.mem_map_of_mem hargument) ?_
      rw [heq]
      exact List.mem_map_of_mem hfield
    | neighbour one other hone hother hone' => exact hreaches one hone other hother hone'
    | receiver argument hrest heq =>
      apply hfresh
      rw [← heq]
      simp [restNames, hrest]
  · intro hnone
    refine ⟨fun hin => ?_, fun one hone other hother hreaches => ?_, fun name hname hkeyword => ?_⟩
    · rw [List.mem_append, List.mem_append] at hin
      rcases hin with (hin | hin) | hin
      · exact hreceiver (List.mem_append_left _ hin)
      · obtain ⟨argument, hargument, heq⟩ := List.mem_map.mp hin
        exact hnone (.receiver argument (Option.mem_toList.mp hargument) heq)
      · exact hreceiver (List.mem_append_right _ hin)
    · exact hnone (.neighbour one other hone hother hreaches)
    · obtain ⟨field, hfield, rfl⟩ := List.mem_map.mp hkeyword
      obtain ⟨argument, hargument, heq⟩ := List.mem_map.mp hname
      exact hnone (.inherited argument field hargument hfield (not_mem_taken hname) heq)

theorem signature_mem_methodScript {style : Style}
    (h : methodScript ctx style method = .ok script) :
    ∃ head, methodHead ctx method = .ok head ∧ .signature (head.signature method) ∈ script := by
  simp only [methodScript, Outcome.bind_eq_ok] at h
  obtain ⟨head, hhead, h⟩ := h
  refine ⟨head, hhead, ?_⟩
  split at h
  · obtain ⟨body, -, h⟩ := Outcome.bind_eq_ok.mp h
    simp [← Outcome.pure_eq_ok.mp h]
  · obtain ⟨body, -, h⟩ := Outcome.bind_eq_ok.mp h
    simp [← Outcome.pure_eq_ok.mp h]

/-- The names of a written signature are distinct exactly if there is no collision. A positional
parameter never has the name of a field that the struct declares itself, and the receiver never has
the name of a positional or of a keyword parameter. -/
theorem signature_names_distinct_iff {style : Style}
    (h : methodScript ctx style method = .ok script)
    (harguments : (method.arguments.map spelling).Nodup)
    (hfields : ∀ lifted fields, method.lifted = some lifted →
      ctx.model.liftedFields lifted = .ok fields → (fields.map (·.pythonName)).Nodup) :
    ∃ head, methodHead ctx method = .ok head ∧ .signature (head.signature method) ∈ script ∧
      head.params.filterMap Param.name? =
        positionalNames method head ++ restNames method ++ keywordNames head ∧
      (∀ name ∈ positionalNames method head, name ∉ head.taken) ∧
      head.receiver method.kind ∉ positionalNames method head ++ keywordNames head ∧
      ((head.names method.kind).Nodup ↔ ¬ Collision method head) := by
  obtain ⟨head, hhead, hwritten⟩ := signature_mem_methodScript h
  have hkeywords : (keywordNames head).Nodup := by
    cases hlifted : method.lifted with
    | some lifted => exact hfields lifted head.fields hlifted (fields_of_methodHead hhead hlifted)
    | none =>
      obtain ⟨before, rest, marks, keywords, hparts⟩ := exists_parts hhead
      simp [keywordNames, (hparts.unlifted hlifted).2]
  exact ⟨head, hhead, hwritten, params_filterMap_name? hhead, fun name => not_mem_taken,
    receiver_not_mem hhead method.kind, nodup_names_iff hhead harguments hkeywords⟩

def writtenIn (a : Assembly) (fqn : String) :
    Outcome ((Context × MethodMember × MethodHead) × Script) := do
  let found ← methodIn a fqn
  return (found, ← methodScript found.1 .declared found.2.1)

def writtenView (found : (Context × MethodMember × MethodHead) × Script) :
    List String × List String × List String :=
  (found.1.2.1.arguments.map spelling, keywordNames found.1.2.2,
    found.1.2.2.names found.1.2.1.kind)

def lifting (arguments inherited own : List String) : Assembly :=
  assemblyOf [structEntry "Acme.Base" [] inherited, structEntry "Acme.Props" ["Acme.Base"] own,
    classEntry "Acme.Tool" {
      name := "run"
      parameters := arguments.map (fun name => { name, type := .primitive .string }) ++
        [{ name := "props", type := .named "Acme.Props" }] }]

def gathering (argument : String) : Assembly :=
  assemblyOf [classEntry "Acme.Tool" {
    name := "run"
    parameters := [{ name := argument, type := .primitive .string, variadic := true }] }]

theorem exists_of_writtenView {a : Assembly} {fqn : String} {arguments keywords names : List String}
    (h : (writtenIn a fqn).toOption.map writtenView = some (arguments, keywords, names)) :
    ∃ ctx method head script, methodIn a fqn = .ok (ctx, method, head) ∧
      methodScript ctx .declared method = .ok script ∧
      method.arguments.map spelling = arguments ∧ keywordNames head = keywords ∧
      head.names method.kind = names := by
  obtain ⟨_, hwritten, hview⟩ := Outcome.exists_eq_ok_of_map h
  simp only [writtenIn, Outcome.bind_eq_ok, Outcome.pure_eq_ok] at hwritten
  obtain ⟨⟨ctx, method, head⟩, hmethod, script, hscript, rfl⟩ := hwritten
  simp only [writtenView, Prod.mk.injEq] at hview
  exact ⟨ctx, method, head, script, hmethod, hscript, hview⟩

theorem signature_names_distinct_iff_lifting :
    ∃ ctx method script head,
      (method.arguments.map spelling).Nodup ∧ methodScript ctx .declared method = .ok script ∧
      methodHead ctx method = .ok head ∧ .signature (head.signature method) ∈ script ∧
      head.names method.kind = ["self", "scope_", "id", "scope", "size"] ∧
      ¬ Collision method head := by
  have hview : (writtenIn (lifting ["scope", "id"] ["size"] ["scope"]) "Acme.Tool").toOption.map
      writtenView = some (["scope", "id", "props"], ["scope", "size"],
        ["self", "scope_", "id", "scope", "size"]) := by
    decide +kernel
  obtain ⟨ctx, method, head, script, hmethod, hscript, harguments, hkeywords, hnames⟩ :=
    exists_of_writtenView hview
  have hhead := (methodIn_eq_ok hmethod).2
  have hdistinct : (method.arguments.map spelling).Nodup := by
    rw [harguments]
    decide
  have hfields : ∀ lifted fields, method.lifted = some lifted →
      ctx.model.liftedFields lifted = .ok fields → (fields.map (·.pythonName)).Nodup := by
    intro lifted fields hlifted hfields
    obtain rfl := Except.ok.inj (hfields.symm.trans (fields_of_methodHead hhead hlifted))
    rw [← keywordNames, hkeywords]
    decide
  obtain ⟨_, hhead', hwritten, -, -, -, hiff⟩ :=
    signature_names_distinct_iff hscript hdistinct hfields
  obtain rfl := Except.ok.inj (hhead'.symm.trans hhead)
  refine ⟨ctx, method, script, _, hdistinct, hscript, hhead, hwritten, hnames, hiff.mp ?_⟩
  rw [hnames]
  decide

def RepeatsName (a : Assembly) (names : List String) : Prop :=
  ∃ ctx method head script, methodIn a "Acme.Tool" = .ok (ctx, method, head) ∧
    methodScript ctx .declared method = .ok script ∧ (method.arguments.map spelling).Nodup ∧
    (keywordNames head).Nodup ∧ head.names method.kind = names ∧ ¬ names.Nodup

theorem repeatsName_of_writtenView {a : Assembly} {arguments keywords names : List String}
    (h : (writtenIn a "Acme.Tool").toOption.map writtenView = some (arguments, keywords, names))
    (harguments : arguments.Nodup) (hkeywords : keywords.Nodup) (hnames : ¬ names.Nodup) :
    RepeatsName a names := by
  obtain ⟨ctx, method, head, script, hmethod, hscript, rfl, rfl, rfl⟩ := exists_of_writtenView h
  exact ⟨ctx, method, head, script, hmethod, hscript, harguments, hkeywords, rfl, hnames⟩

theorem signature_names_collide :
    RepeatsName (lifting ["size"] ["size"] []) ["self", "size", "size"] ∧
    RepeatsName (lifting ["scope", "scope_"] [] ["scope"]) ["self", "scope_", "scope_", "scope"] ∧
    RepeatsName (gathering "self") ["self", "self"] := by
  have hinherited : (writtenIn (lifting ["size"] ["size"] []) "Acme.Tool").toOption.map
      writtenView = some (["size", "props"], ["size"], ["self", "size", "size"]) := by
    decide +kernel
  have hneighbour : (writtenIn (lifting ["scope", "scope_"] [] ["scope"])
      "Acme.Tool").toOption.map writtenView =
        some (["scope", "scope_", "props"], ["scope"], ["self", "scope_", "scope_", "scope"]) := by
    decide +kernel
  have hreceiver : (writtenIn (gathering "self") "Acme.Tool").toOption.map writtenView =
      some (["self"], [], ["self", "self"]) := by
    decide +kernel
  exact ⟨repeatsName_of_writtenView hinherited (by decide) (by decide) (by decide),
    repeatsName_of_writtenView hneighbour (by decide) (by decide) (by decide),
    repeatsName_of_writtenView hreceiver (by decide) (by decide) (by decide)⟩

end Binding

end Bindery
