import Bindery.Proofs.Identifier
import Bindery.Proofs.Layout

/-!
# Snake case of ASCII names

Between the underscores at the ends of a name, snake case lowers every character and marks the
starts of words. A mark stands between two characters, so both ends stay what they were, and without
its underscores the name is only lowered. Where no capital letter is left no word starts, so a
second pass changes nothing.
-/

namespace Bindery

namespace Text

structure Lowered (c : Char) : Prop where
  ascii : c.toNat < 128
  not_upper : isUpper c = false

theorem lowered_underscore : Lowered '_' := ⟨by decide, by decide⟩

theorem lowered_toLower {c : Char} (h : c.toNat < 128) : Lowered c.toLower := by
  obtain ⟨hascii, hupper⟩ : c.toLower.toNat < 128 ∧ isUpper c.toLower = false :=
    forall_ascii (P := fun c => c.toLower.toNat < 128 ∧ isUpper c.toLower = false)
      (by decide +kernel) h
  exact ⟨hascii, hupper⟩

theorem Lowered.toLower_eq {c : Char} (h : Lowered c) : c.toLower = c :=
  forall_ascii (P := fun c => isUpper c = false → c.toLower = c) (by decide +kernel) h.ascii
    h.not_upper

theorem toLower_eq_underscore_iff {c : Char} (h : c.toNat < 128) : c.toLower = '_' ↔ c = '_' :=
  forall_ascii (P := fun c => c.toLower = '_' ↔ c = '_') (by decide +kernel) h

theorem lowerChar_of_ascii {c : Char} (h : c.toNat < 128) : lowerChar c = [c.toLower] :=
  if_pos (decide_eq_true h)

theorem lowerFrom_of_ascii (before : List Char) {text : List Char}
    (h : ∀ c ∈ text, c.toNat < 128) : lowerFrom before text = text.map Char.toLower := by
  induction text generalizing before with
  | nil => rfl
  | cons c text ih =>
    obtain ⟨hc, htext⟩ := List.forall_mem_cons.mp h
    have hsigma : c ≠ 'Σ' := by
      rintro rfl
      exact absurd hc (by decide)
    rw [lowerFrom, if_neg hsigma, lowerChar_of_ascii hc, ih (c :: before) htext]
    rfl

theorem map_toLower_of_lowered {text : List Char} (h : ∀ c ∈ text, Lowered c) :
    text.map Char.toLower = text :=
  (List.map_congr_left fun c hc => (h c hc).toLower_eq).trans (List.map_id' text)

end Text

namespace Identifier

open Text

variable {text marked core : List Char} {leading trailing : ℕ}

/-- A text with underscores put between some of its characters. -/
inductive Marked : List Char → List Char → Prop
  | nil : Marked [] []
  | keep {text marked : List Char} (c : Char) (h : Marked text marked) :
      Marked (c :: text) (c :: marked)
  | mark {text marked : List Char} (c : Char) (hne : text ≠ []) (h : Marked text marked) :
      Marked (c :: text) (c :: '_' :: marked)

theorem Marked.refl (text : List Char) : Marked text text := by
  induction text with
  | nil => exact .nil
  | cons c text ih => exact .keep c ih

theorem Marked.filter_eq (h : Marked text marked) :
    marked.filter (· ≠ '_') = text.filter (· ≠ '_') := by
  induction h with
  | nil => rfl
  | keep c _ ih => rw [List.filter_cons, List.filter_cons, ih]
  | @mark text marked c _ _ ih =>
    have hmark : ('_' :: marked).filter (· ≠ '_') = text.filter (· ≠ '_') := by
      rw [List.filter_cons_of_neg (by decide), ih]
    rw [List.filter_cons, hmark, List.filter_cons]

theorem Marked.head?_eq (h : Marked text marked) : marked.head? = text.head? := by
  cases h <;> rfl

theorem Marked.getLast?_eq (h : Marked text marked) : marked.getLast? = text.getLast? := by
  induction h with
  | nil => rfl
  | keep c _ ih => rw [List.getLast?_cons, List.getLast?_cons, ih]
  | mark c hne _ ih =>
    rw [List.getLast?_cons, List.getLast?_cons, List.getLast?_cons, ih,
      List.getLast?_eq_some_getLast hne]
    rfl

theorem Marked.eq_underscore_or_mem (h : Marked text marked) {c : Char} (hc : c ∈ marked) :
    c = '_' ∨ c ∈ text := by
  induction h with
  | nil => cases hc
  | keep d _ ih =>
    rcases List.mem_cons.mp hc with rfl | hin
    · exact .inr List.mem_cons_self
    · exact (ih hin).imp_right (List.mem_cons_of_mem d)
  | mark d _ _ ih =>
    rcases List.mem_cons.mp hc with rfl | hin
    · exact .inr List.mem_cons_self
    · rcases List.mem_cons.mp hin with rfl | hin
      · exact .inl rfl
      · exact (ih hin).imp_right (List.mem_cons_of_mem d)

theorem marked_snakeTail (previous : Char) (h : ∀ c ∈ text, c.toNat < 128) :
    Marked ((previous :: text).map Char.toLower)
      (previous.toLower :: snakeTail previous text) := by
  induction text generalizing previous with
  | nil => exact .keep _ .nil
  | cons c text ih =>
    obtain ⟨hc, htext⟩ := List.forall_mem_cons.mp h
    rw [snakeTail, lowerChar_of_ascii hc]
    split
    · exact .mark _ (List.cons_ne_nil _ _) (ih c htext)
    · exact .keep _ (ih c htext)

theorem marked_snakeCore (h : ∀ c ∈ core, c.toNat < 128) :
    Marked (core.map Char.toLower) (snakeCore core) := by
  cases core with
  | nil => exact .nil
  | cons c rest =>
    obtain ⟨hc, hrest⟩ := List.forall_mem_cons.mp h
    rw [snakeCore]
    split
    · -- Without small letters the core is one word and gets no marks.
      rw [lowerChars, lowerFrom_of_ascii [] h]
      exact .refl _
    · rw [lowerChar_of_ascii hc]
      exact marked_snakeTail c hrest

theorem snakeTail_of_lowered (previous : Char) (h : ∀ c ∈ text, Lowered c) :
    snakeTail previous text = text := by
  induction text generalizing previous with
  | nil => rfl
  | cons c text ih =>
    obtain ⟨hc, htext⟩ := List.forall_mem_cons.mp h
    have hword : startsWord previous c text.head? = false := by simp [startsWord, hc.not_upper]
    rw [snakeTail, hword, lowerChar_of_ascii hc.ascii, hc.toLower_eq, ih c htext]
    rfl

theorem snakeCore_of_lowered (h : ∀ c ∈ core, Lowered c) : snakeCore core = core := by
  cases core with
  | nil => rfl
  | cons c rest =>
    obtain ⟨hc, hrest⟩ := List.forall_mem_cons.mp h
    rw [snakeCore]
    split
    · rw [lowerChars, lowerFrom_of_ascii [] fun c hc => (h c hc).ascii, map_toLower_of_lowered h]
    · rw [lowerChar_of_ascii hc.ascii, hc.toLower_eq, snakeTail_of_lowered c hrest]
      rfl

theorem Framed.reverse (h : Framed text core leading trailing) (hne : core ≠ []) :
    Framed text.reverse core.reverse trailing leading where
  text_eq := by simp [h.text_eq]
  head := by simpa using h.last
  last := by simpa using h.head
  trailing_eq hnil := absurd (List.reverse_eq_nil_iff.mp hnil) hne

theorem Framed.snake (h : Framed text core leading trailing) (hascii : ∀ c ∈ text, c.toNat < 128) :
    Framed (snakeChars text) (snakeCore core) leading trailing := by
  have hcore : ∀ c ∈ core, c.toNat < 128 := fun c hc => hascii c (h.mem hc)
  have hmarked := marked_snakeCore hcore
  have hend : ∀ c? : Option Char, (∀ c ∈ c?, c ∈ core) → c? ≠ some '_' →
      c?.map Char.toLower ≠ some '_' := by
    intro c? hin hne hunder
    obtain ⟨c, rfl, hlower⟩ := Option.map_eq_some_iff.mp hunder
    rw [toLower_eq_underscore_iff (hcore c (hin c rfl))] at hlower
    exact hne (congrArg some hlower)
  refine ⟨h.snakeChars_eq, ?_, ?_, ?_⟩
  · rw [hmarked.head?_eq, List.head?_map]
    exact hend _ (fun c => List.mem_of_head?) h.head
  · rw [hmarked.getLast?_eq, List.getLast?_map]
    exact hend _ (fun c => List.mem_of_getLast?) h.last
  · intro hnil
    by_contra hne
    exact snakeCore_ne_nil (fun hempty => hne (h.trailing_eq hempty)) hnil

theorem snakeChars_of_lowered (h : ∀ c ∈ text, Lowered c) : snakeChars text = text := by
  obtain ⟨core, leading, trailing, hframed⟩ := exists_framed text
  rw [hframed.snakeChars_eq, snakeCore_of_lowered fun c hc => h c (hframed.mem hc),
    ← hframed.text_eq]

theorem lowered_of_mem_snakeChars (h : ∀ c ∈ text, c.toNat < 128) :
    ∀ c ∈ snakeChars text, Lowered c := by
  obtain ⟨core, leading, trailing, hframed⟩ := exists_framed text
  have hmarked := marked_snakeCore fun c hc => h c (hframed.mem hc)
  intro c hc
  have hcases : c = '_' ∨ c ∈ snakeCore core := by
    simp only [hframed.snakeChars_eq, List.mem_append, List.mem_replicate] at hc
    tauto
  have hlowered : c = '_' ∨ c ∈ core.map Char.toLower := by
    rcases hcases with hunder | hin
    · exact .inl hunder
    · exact hmarked.eq_underscore_or_mem hin
  rcases hlowered with rfl | hin
  · exact lowered_underscore
  · obtain ⟨d, hd, rfl⟩ := List.mem_map.mp hin
    exact lowered_toLower (h d (hframed.mem hd))

theorem filter_snakeChars (h : ∀ c ∈ text, c.toNat < 128) :
    (snakeChars text).filter (· ≠ '_') = (text.filter (· ≠ '_')).map Char.toLower := by
  obtain ⟨core, leading, trailing, hframed⟩ := exists_framed text
  have hcore : ∀ c ∈ core, c.toNat < 128 := fun c hc => h c (hframed.mem hc)
  have hlower : (core.map Char.toLower).filter (· ≠ '_') =
      (core.filter (· ≠ '_')).map Char.toLower := by
    rw [List.filter_map]
    refine congrArg (List.map Char.toLower) (List.filter_congr fun c hc => ?_)
    simp [toLower_eq_underscore_iff (hcore c hc)]
  calc (snakeChars text).filter (· ≠ '_')
    _ = (snakeCore core).filter (· ≠ '_') := by simp [hframed.snakeChars_eq]
    _ = (core.map Char.toLower).filter (· ≠ '_') := (marked_snakeCore hcore).filter_eq
    _ = (core.filter (· ≠ '_')).map Char.toLower := hlower
    _ = (text.filter (· ≠ '_')).map Char.toLower := by simp [hframed.text_eq]

def underscoreRun (text : List Char) : ℕ := (text.takeWhile (· = '_')).length

theorem Framed.underscoreRun_eq (h : Framed text core leading trailing) :
    underscoreRun text = leading := by
  rw [underscoreRun, h.span_eq.1, List.length_replicate]

theorem underscoreRun_snakeChars (h : ∀ c ∈ text, c.toNat < 128) :
    underscoreRun (snakeChars text) = underscoreRun text ∧
      underscoreRun (snakeChars text).reverse = underscoreRun text.reverse := by
  obtain ⟨core, leading, trailing, hframed⟩ := exists_framed text
  have hsnake := hframed.snake h
  refine ⟨hsnake.underscoreRun_eq.trans hframed.underscoreRun_eq.symm, ?_⟩
  by_cases hne : core = []
  · -- All characters are underscores, and snake case changes none of them.
    have hkept : snakeChars text = text := by rw [hframed.snakeChars_eq, hframed.text_eq, hne]; rfl
    rw [hkept]
  · rw [(hsnake.reverse (snakeCore_ne_nil hne)).underscoreRun_eq,
      (hframed.reverse hne).underscoreRun_eq]

/-- Snake case is idempotent and loses nothing: the underscores at both ends stay, also those of a
name that has no other character, and without underscores the name is only lowered. -/
theorem snake_idempotent_lossless (name : String) (h : IsAscii name) :
    snake (snake name) = snake name ∧
      (∀ c ∈ (snake name).toList, isUpper c = false) ∧
      removeChar '_' (snake name) = lower (removeChar '_' name) ∧
      underscoreRun (snake name).toList = underscoreRun name.toList ∧
      underscoreRun (snake name).toList.reverse = underscoreRun name.toList.reverse := by
  have hchars : (snake name).toList = snakeChars name.toList := String.toList_ofList
  have hlowered := lowered_of_mem_snakeChars h
  refine ⟨?_, ?_, ?_, ?_⟩
  · rw [snake, hchars, snakeChars_of_lowered hlowered, snake]
  · rw [hchars]
    exact fun c hc => (hlowered c hc).not_upper
  · have hplain : ∀ c ∈ name.toList.filter (· ≠ '_'), c.toNat < 128 := fun c hc =>
      h c (List.mem_of_mem_filter hc)
    rw [removeChar, removeChar, hchars, filter_snakeChars h, lower, String.toList_ofList,
      lowerChars, lowerFrom_of_ascii [] hplain]
  · rw [hchars]
    exact underscoreRun_snakeChars h

theorem snake_idempotent_lossless_server :
    IsAscii "__HTTPServer2Name_x__" ∧
      snake "__HTTPServer2Name_x__" = "__http_server2_name_x__" ∧
      snake "__http_server2_name_x__" = "__http_server2_name_x__" ∧
      (∀ c ∈ "__http_server2_name_x__".toList, isUpper c = false) ∧
      removeChar '_' "__http_server2_name_x__" = lower (removeChar '_' "__HTTPServer2Name_x__") ∧
      underscoreRun "__http_server2_name_x__".toList =
        underscoreRun "__HTTPServer2Name_x__".toList ∧
      underscoreRun "__http_server2_name_x__".toList.reverse =
        underscoreRun "__HTTPServer2Name_x__".toList.reverse := by
  have hascii : IsAscii "__HTTPServer2Name_x__" := by simp [IsAscii]
  have hsnake : snake "__HTTPServer2Name_x__" = "__http_server2_name_x__" := by decide +kernel
  have hlossless := snake_idempotent_lossless _ hascii
  rw [hsnake] at hlossless
  exact ⟨hascii, hsnake, hlossless⟩

end Identifier

end Bindery
