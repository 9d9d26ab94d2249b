import Bindery.Code.Script
import Bindery.Proofs.AliasTable
import Bindery.Proofs.Reference

/-!
# Lines that fit

A layout that takes one line fits in the length of a line, its indentation included. Widths add up
bytes where a line counts characters, so a layout may take more lines than it needs, but never for
a signature of ASCII texts.
-/

namespace Bindery

namespace Text

theorem length_le_utf8ByteSize (text : String) : text.length ≤ text.utf8ByteSize := by
  have hchars : ∀ cs : List Char, cs.length ≤ (String.ofList cs).utf8ByteSize := by
    intro cs
    induction cs with
    | nil => exact Nat.zero_le _
    | cons c cs ih =>
      have hpos := c.utf8Size_pos
      rw [utf8ByteSize_cons, List.length_cons]
      omega
  have htext := hchars text.toList
  rwa [String.ofList_toList, String.length_toList] at htext

def IsAscii (text : String) : Prop := ∀ c ∈ text.toList, c.toNat < 128

theorem utf8ByteSize_of_isAscii {text : String} (h : IsAscii text) :
    text.utf8ByteSize = text.length := by
  have hchars : ∀ cs : List Char, (∀ c ∈ cs, c.toNat < 128) →
      (String.ofList cs).utf8ByteSize = cs.length := by
    intro cs hcs
    induction cs with
    | nil => rfl
    | cons c cs ih =>
      obtain ⟨hc, hcs⟩ := List.forall_mem_cons.mp hcs
      have hsize : c.utf8Size = 1 := by
        rw [Char.utf8Size_eq_one_iff, UInt32.le_iff_toNat_le]
        exact Nat.le_of_lt_succ hc
      rw [utf8ByteSize_cons, hsize, ih hcs, List.length_cons]
      omega
  have htext := hchars text.toList h
  rwa [String.ofList_toList, String.length_toList] at htext

theorem length_repeated (n : ℕ) (c : Char) : (repeated n c).length = n := by
  simp [repeated]

theorem breakOn?_of_not_mem {mark text : String} {c : Char} (hmark : c ∈ mark.toList)
    (h : c ∉ text.toList) : breakOn? mark text = none := by
  apply Option.eq_none_iff_forall_not_mem.mpr
  rintro ⟨before, rest⟩ hbreak
  have htext := (breakOn?_eq_some_iff.mp hbreak).1
  apply h
  rw [htext]
  simp [hmark]

theorem IsAscii.append {text text' : String} (h : IsAscii text) (h' : IsAscii text') :
    IsAscii (text ++ text') := by
  intro c hc
  rw [String.toList_append, List.mem_append] at hc
  exact hc.elim (h c) (h' c)

end Text

namespace Code

theorem foldl_width (elements : List String) (start : ℕ) :
    elements.foldl (fun width element => width + element.length) start =
      start + elementsWidth elements := by
  induction elements generalizing start with
  | nil => rfl
  | cons element elements ih =>
    have hcons : elementsWidth (element :: elements) =
        elements.foldl (fun width element => width + element.length) (0 + element.length) := rfl
    rw [List.foldl_cons, ih, hcons, ih]
    omega

theorem elementsWidth_cons (element : String) (elements : List String) :
    elementsWidth (element :: elements) = element.length + elementsWidth elements := by
  rw [← foldl_width, ← Nat.zero_add element.length]
  rfl

theorem length_commaList {elements : List String} :
    (commaList elements).length = listWidth elements := by
  induction elements with
  | nil => rfl
  | cons element elements ih =>
    cases elements with
    | nil => simp [commaList, listWidth, separatorsWidth, elementsWidth]
    | cons next rest =>
      have hcomma : (", ").length = 2 := rfl
      have hbytes : (", ").utf8ByteSize = 2 := rfl
      simp only [commaList, listWidth, separatorsWidth, elementsWidth_cons, List.length_cons,
        String.intercalate_cons_cons, String.length_append, hcomma, hbytes] at ih ⊢
      omega

theorem not_mem_commaList {c : Char} {elements : List String} (hc : c ∉ (", ").toList)
    (h : ∀ element ∈ elements, c ∉ element.toList) : c ∉ (commaList elements).toList := by
  induction elements with
  | nil => simp [commaList]
  | cons element elements ih =>
    obtain ⟨helement, helements⟩ := List.forall_mem_cons.mp h
    cases elements with
    | nil => simpa [commaList] using helement
    | cons next rest =>
      have hrest := ih helements
      simp only [commaList, String.intercalate_cons_cons, String.toList_append,
        List.mem_append, not_or] at hrest ⊢
      exact ⟨⟨helement, hc⟩, hrest⟩

theorem length_of_fits {level : ℕ} {before behind : String} {elements : List String} {extra : ℕ}
    (h : fits level before elements behind extra = true) :
    indentWidth * level + before.length + (commaList elements).length + behind.length + extra <
      lineLength := by
  have hfits := of_decide_eq_true h
  have hbefore := Text.length_le_utf8ByteSize before
  have hbehind := Text.length_le_utf8ByteSize behind
  rw [length_commaList]
  omega

def Command.isLine : Command → Bool
  | .line _ => true
  | _ => false

def lineCount (commands : List Command) : ℕ := commands.countP Command.isLine

theorem exists_writeLine_text (w : Writer) (line : String) :
    ∃ start, (w.writeLine line).text = w.text ++ (start ++ line ++ "\n") ∧
      start.length ≤ indentWidth * w.level := by
  refine ⟨if line.isEmpty then "" else Text.repeated (indentWidth * w.level) ' ', ?_, ?_⟩
  · simp only [Writer.writeLine, String.append_assoc]
  · split
    · exact Nat.zero_le _
    · rw [Text.length_repeated]

theorem exists_execAll_text (w : Writer) (commands : List Command) :
    ∃ more, (w.execAll commands).text = w.text ++ more := by
  induction commands generalizing w with
  | nil => exact ⟨"", by simp [Writer.execAll]⟩
  | cons command commands ih =>
    obtain ⟨more, hmore⟩ := ih (w.exec command)
    cases command with
    | line text =>
      obtain ⟨start, hstart, -⟩ := exists_writeLine_text w text
      exact ⟨start ++ text ++ "\n" ++ more, by
        rw [← String.append_assoc, ← hstart]
        exact hmore⟩
    | indent => exact ⟨more, hmore⟩
    | dedent => exact ⟨more, hmore⟩

theorem count_execAll (w : Writer) (commands : List Command) :
    w.text.toList.count '\n' + lineCount commands ≤
      (w.execAll commands).text.toList.count '\n' := by
  induction commands generalizing w with
  | nil => exact le_rfl
  | cons command commands ih =>
    have hrest := ih (w.exec command)
    refine le_trans ?_ hrest
    cases command with
    | line text =>
      obtain ⟨start, hstart, -⟩ := exists_writeLine_text w text
      have hcount : lineCount (.line text :: commands) = lineCount commands + 1 :=
        List.countP_cons_of_pos rfl
      have hfeed : ("\n").toList.count '\n' = 1 := rfl
      rw [hcount, Writer.exec, hstart]
      simp only [String.toList_append, List.count_append, hfeed]
      omega
    | indent => exact le_rfl
    | dedent => exact le_rfl

variable {Mark : Type}

/-- A step adds one line to the text and nothing else. -/
def WritesLine (w : Writer) (step : Step Mark) (line : String) : Prop :=
  (w.step step).text = w.text ++ line ++ "\n" ∧ '\n' ∉ line.toList

instance (w : Writer) (step : Step Mark) (line : String) : Decidable (WritesLine w step line) :=
  inferInstanceAs (Decidable (_ ∧ _))

theorem WritesLine.unique {w : Writer} {step : Step Mark} {line line' : String}
    (h : WritesLine w step line) (h' : WritesLine w step line') : line = line' := by
  have htext : w.text ++ line ++ "\n" = w.text ++ line' ++ "\n" := h.1.symm.trans h'.1
  have hchars := congrArg String.toList htext
  apply String.toList_inj.mp
  simpa using hchars

def Writer.indented (w : Writer) (text : String) : String :=
  Text.repeated (indentWidth * w.level) ' ' ++ text

theorem length_indented (w : Writer) (text : String) :
    (w.indented text).length = indentWidth * w.level + text.length := by
  rw [Writer.indented, String.length_append, Text.length_repeated]

theorem writeLine_of_ne {w : Writer} {line : String} (h : line ≠ "") :
    (w.writeLine line).text = w.text ++ w.indented line ++ "\n" := by
  simp [Writer.writeLine, Writer.indented, h, String.append_assoc]

theorem lineCount_le_one {w : Writer} {step : Step Mark} {line : String}
    (h : WritesLine w step line) : lineCount (step.commands w.level) ≤ 1 := by
  have hcount := count_execAll w (step.commands w.level)
  have htext : (w.execAll (step.commands w.level)).text = w.text ++ line ++ "\n" := h.1
  rw [htext] at hcount
  simpa [List.count_eq_zero.mpr h.2] using hcount

theorem length_le_of_commands {w : Writer} {step : Step Mark} {line text : String}
    {rest : List Command} (h : WritesLine w step line)
    (hcommands : step.commands w.level = .line text :: rest) :
    line.length ≤ indentWidth * w.level + text.length := by
  obtain ⟨start, hstart, hlength⟩ := exists_writeLine_text w text
  obtain ⟨more, hmore⟩ := exists_execAll_text (w.writeLine text) rest
  have htext : w.text ++ line ++ "\n" = w.text ++ (start ++ text ++ "\n") ++ more := by
    rw [← h.1, ← hstart, ← hmore, Writer.step, hcommands]
    rfl
  have hlines : line.toList ++ ['\n'] = (start ++ text).toList ++ '\n' :: more.toList := by
    have hchars := congrArg String.toList htext
    simpa [List.append_assoc] using hchars
  have hle : line.toList.length ≤ (start ++ text).toList.length := by
    by_contra hlt
    have hin : '\n' ∈ line.toList := by
      have hget := congrArg (·[(start ++ text).toList.length]?) hlines
      simp only [List.getElem?_append_right le_rfl, Nat.sub_self] at hget
      rw [List.getElem?_append_left (by omega)] at hget
      exact List.mem_of_getElem? hget
    exact h.2 hin
  rw [String.length_toList, String.length_toList, String.length_append] at hle
  omega

theorem fits_of_writesLine {w : Writer} {step : Step Mark} {line text : String} {fit : Bool}
    {rest many : List Command} (h : WritesLine w step line)
    (hcommands : step.commands w.level = if fit then .line text :: rest else many)
    (hmany : 2 ≤ lineCount many) :
    fit = true ∧ line.length ≤ indentWidth * w.level + text.length := by
  cases fit with
  | false =>
    have hcount := lineCount_le_one h
    rw [hcommands, if_neg Bool.false_ne_true] at hcount
    omega
  | true => exact ⟨rfl, length_le_of_commands h (hcommands.trans (if_pos rfl))⟩

theorem two_le_lineCount (first last : String) (inner rest : List Command) :
    2 ≤ lineCount ([.line first, .indent] ++ inner ++ .dedent :: .line last :: rest) := by
  simp [lineCount, List.countP_cons, Command.isLine]
  omega

namespace Signature

variable {s : Signature}

theorem commands_of_params (h : s.params ≠ []) (level : ℕ) :
    s.commands level = if s.fitsOneLine level then [.line s.oneLine, .indent] else
      [.line (s.opening ++ "("), .indent] ++ s.params.map (fun p => .line (withComma p)) ++
        [.dedent, .line (")" ++ s.result ++ ":" ++ s.trailer), .indent] := by
  rw [commands, if_neg (by simpa using h)]

theorem length_oneLine (h : s.comment = none) :
    s.oneLine.length = s.opening.length + (commaList s.params).length + s.result.length + 3 := by
  have hparen : ("(").length = 1 := rfl
  have hclose : (")").length = 1 := rfl
  have hcolon : (":").length = 1 := rfl
  simp only [oneLine, trailer, h, String.length_append, hparen, hclose, hcolon, String.length_empty]
  omega

theorem writesLine_fits {w : Writer} {line : String} (hparams : s.params ≠ [])
    (h : WritesLine w (.signature s : Step Mark) line) :
    s.fitsOneLine w.level = true ∧ line.length ≤ indentWidth * w.level + s.oneLine.length :=
  fits_of_writesLine h (commands_of_params hparams w.level) (two_le_lineCount _ _ _ _)

/-- A signature of ASCII texts on one line each, with parameters that carry no comment. -/
structure Plain (s : Signature) : Prop where
  name : Text.IsAscii s.name ∧ '\n' ∉ s.name.toList
  params : ∀ p ∈ s.params, Text.IsAscii p ∧ '\n' ∉ p.toList ∧ '#' ∉ p.toList
  returns : ∀ r ∈ s.returns, Text.IsAscii r ∧ '\n' ∉ r.toList

theorem Plain.fitsOneLine_iff (h : s.Plain) (hcomment : s.comment = none) (level : ℕ) :
    s.fitsOneLine level = true ↔ indentWidth * level + s.oneLine.length ≤ lineLength := by
  have hopening : Text.IsAscii s.opening := by
    have hword : Text.IsAscii (s.kind.word ++ " ") := by
      cases s.kind <;> simp [Text.IsAscii, SignatureKind.word]
    exact hword.append h.name.1
  have hresult : Text.IsAscii s.result := by
    unfold result
    split
    · rename_i type htype
      have harrow : Text.IsAscii " -> " := by simp [Text.IsAscii]
      exact harrow.append (h.returns type htype).1
    · simp [Text.IsAscii]
  have hparams : s.params.any hasComment = false := by
    apply List.any_eq_false.mpr
    intro p hp
    have hbreak : Text.breakOn? "#" p = none :=
      Text.breakOn?_of_not_mem (by decide) (h.params p hp).2.2
    simp [hasComment, hbreak]
  rw [fitsOneLine, hparams, fits, Text.utf8ByteSize_of_isAscii hopening,
    Text.utf8ByteSize_of_isAscii hresult, length_oneLine hcomment, length_commaList]
  simp only [Bool.not_false, Bool.true_and, decide_eq_true_eq]
  omega

end Signature

theorem length_lt_of_listed {w : Writer} {step : Step Mark} {line before behind : String}
    {elements : List String} {fit : Bool} {many : List Command} (h : WritesLine w step line)
    (hcommands : step.commands w.level =
      if fit then [.line (before ++ commaList elements ++ behind)] else many)
    (hmany : 2 ≤ lineCount many)
    (hfit : fit = true → fits w.level before elements behind 0 = true) :
    line.length < lineLength := by
  obtain ⟨hone, hlength⟩ := fits_of_writesLine h hcommands hmany
  have hwidth := length_of_fits (hfit hone)
  rw [String.length_append, String.length_append] at hlength
  omega

theorem Listing.length_lt {w : Writer} {l : Listing} {line : String} (hne : l.elements ≠ [])
    (h : WritesLine w (.listing l : Step Mark) line) : line.length < lineLength := by
  have hcommands : l.commands w.level =
      if fits w.level l.before l.elements l.behind 0 then [.line l.oneLine] else
        [.line (l.before ++ l.around.1), .indent] ++ l.body w.level ++
          [.dedent, .line (l.around.2 ++ l.behind)] := by
    rw [Listing.commands, if_neg (by simpa using hne)]
  exact length_lt_of_listed h hcommands (two_le_lineCount _ _ _ _) id

theorem Dictionary.length_lt {w : Writer} {d : Dictionary} {line : String} (hne : d.entries ≠ [])
    (h : WritesLine w (.dictionary d : Step Mark) line) : line.length < lineLength := by
  have hcommands : d.commands w.level =
      if d.compact && fits w.level d.before d.entries d.behind 0 then [.line d.oneLine] else
        [.line d.before, .indent] ++ onOwnLines d.entries ++ [.dedent, .line d.behind] := by
    rw [Dictionary.commands, if_neg (by simpa using hne)]
  exact length_lt_of_listed h hcommands (two_le_lineCount _ _ _ _) fun hfit =>
    (Bool.and_eq_true_iff.mp hfit).2

theorem Call.length_lt {w : Writer} {c : Call} {line : String} (hne : c.args ≠ [])
    (h : WritesLine w (.call c : Step Mark) line) : line.length < lineLength := by
  have hcommands : c.commands w.level =
      if fits w.level c.before c.args ")" 0 then [.line c.oneLine] else
        [.line c.before, .indent] ++ c.body w.level ++ [.dedent, .line ")"] := by
    rw [Call.commands, if_neg (by simpa using hne)]
  exact length_lt_of_listed h hcommands (two_le_lineCount _ _ _ _) id

namespace Signature

variable {s : Signature}

theorem length_le {w : Writer} {line : String} (hne : s.params ≠ []) (hcomment : s.comment = none)
    (h : WritesLine w (.signature s : Step Mark) line) : line.length ≤ lineLength := by
  obtain ⟨hfits, hlength⟩ := writesLine_fits hne h
  have hwidth := length_of_fits (Bool.and_eq_true_iff.mp hfits).2
  rw [length_oneLine hcomment] at hlength
  omega

theorem Plain.not_mem_oneLine (h : s.Plain) (hcomment : s.comment = none) :
    '\n' ∉ s.oneLine.toList := by
  have hopening : '\n' ∉ s.opening.toList := by
    have hword : '\n' ∉ (s.kind.word ++ " ").toList := by
      cases s.kind <;> simp [SignatureKind.word]
    rw [opening, String.toList_append, List.mem_append]
    exact not_or.mpr ⟨hword, h.name.2⟩
  have hparams := not_mem_commaList (by decide) fun p hp => (h.params p hp).2.1
  have hresult : '\n' ∉ s.result.toList := by
    unfold result
    split
    · rename_i type htype
      simpa using (h.returns type htype).2
    · simp
  simp [oneLine, trailer, hcomment, hopening, hparams, hresult]

theorem Plain.writesLine_oneLine (h : s.Plain) (hne : s.params ≠ []) (hcomment : s.comment = none)
    {w : Writer} (hfits : s.fitsOneLine w.level = true) :
    WritesLine w (.signature s : Step Mark) (w.indented s.oneLine) := by
  have hcommands := commands_of_params hne w.level
  rw [if_pos hfits] at hcommands
  have htext : (w.step (.signature s : Step Mark)).text = (w.writeLine s.oneLine).text := by
    rw [Writer.step, Step.commands, hcommands]
    rfl
  have hfull : s.oneLine ≠ "" := by
    intro hempty
    have hlength := length_oneLine hcomment
    rw [hempty] at hlength
    simp at hlength
  refine ⟨htext.trans (writeLine_of_ne hfull), ?_⟩
  rw [Writer.indented, String.toList_append, List.mem_append]
  exact not_or.mpr ⟨by simp [Text.repeated], h.not_mem_oneLine hcomment⟩

theorem Plain.writesLine_iff (h : s.Plain) (hne : s.params ≠ []) (hcomment : s.comment = none)
    (w : Writer) (line : String) :
    WritesLine w (.signature s : Step Mark) line ↔
      line = w.indented s.oneLine ∧ line.length ≤ lineLength := by
  constructor
  · intro hline
    have hfits := (writesLine_fits hne hline).1
    exact ⟨hline.unique (h.writesLine_oneLine hne hcomment hfits), length_le hne hcomment hline⟩
  · rintro ⟨rfl, hlength⟩
    rw [length_indented, ← h.fitsOneLine_iff hcomment] at hlength
    exact h.writesLine_oneLine hne hcomment hlength

end Signature

/-- A signature without a comment of its own, a listing, a dictionary or a call that is written on
one line fits in the line, with its indentation. A signature of ASCII texts, whose parameters carry
no comments, is written on one line exactly if that line fits. -/
theorem one_line_fits (w : Writer) :
    (∀ (s : Signature) (line : String), s.params ≠ [] → s.comment = none →
      WritesLine w (.signature s : Step Mark) line → line.length ≤ 88) ∧
    (∀ (l : Listing) (line : String), l.elements ≠ [] →
      WritesLine w (.listing l : Step Mark) line → line.length ≤ 88) ∧
    (∀ (d : Dictionary) (line : String), d.entries ≠ [] → d.compact = true →
      WritesLine w (.dictionary d : Step Mark) line → line.length ≤ 88) ∧
    (∀ (c : Call) (line : String), c.args ≠ [] →
      WritesLine w (.call c : Step Mark) line → line.length ≤ 88) ∧
    ∀ (s : Signature) (line : String), s.params ≠ [] → s.comment = none → s.Plain →
      (WritesLine w (.signature s : Step Mark) line ↔
        line = w.indented s.oneLine ∧ line.length ≤ 88) :=
  ⟨fun _ _ hne hcomment h => Signature.length_le hne hcomment h,
    fun _ _ hne h => (Listing.length_lt hne h).le,
    fun _ _ hne _ h => (Dictionary.length_lt hne h).le,
    fun _ _ hne h => (Call.length_lt hne h).le,
    fun _ line hne hcomment hplain => hplain.writesLine_iff hne hcomment w line⟩

def stretched (length : ℕ) : Signature :=
  { kind := .function
    name := Text.repeated length 'a'
    params := ["self"]
    returns := some "None" }

theorem plain_stretched (length : ℕ) : (stretched length).Plain where
  name := by simp [stretched, Text.repeated, Text.IsAscii]
  params := by simp [stretched, Text.IsAscii]
  returns := by simp [stretched, Text.IsAscii]

def stretchedListing (length : ℕ) : Listing :=
  { before := "[", elements := [Text.repeated length 'a'], behind := "]" }

def stretchedDictionary (length : ℕ) : Dictionary :=
  { variable_ := "d", entries := [Text.repeated length 'a'], compact := true }

def stretchedCall (length : ℕ) : Call :=
  { variable_ := "c", function := "f", args := [Text.repeated length 'a'] }

theorem one_line_fits_stretched :
    (∃ line, WritesLine { level := 1 } (.signature (stretched 65) : Step Unit) line ∧
      line.length = 88) ∧
    (¬ ∃ line, WritesLine { level := 1 } (.signature (stretched 66) : Step Unit) line) ∧
    (∃ line, WritesLine { level := 1 } (.listing (stretchedListing 81) : Step Unit) line ∧
      line.length ≤ 88) ∧
    (∃ line, WritesLine { level := 1 } (.dictionary (stretchedDictionary 79) : Step Unit) line ∧
      line.length ≤ 88) ∧
    ∃ line, WritesLine { level := 1 } (.call (stretchedCall 76) : Step Unit) line ∧
      line.length ≤ 88 := by
  obtain ⟨-, hlisting, hdictionary, hcall, hone⟩ := @one_line_fits Unit { level := 1 }
  refine ⟨?_, ?_, ?_, ?_, ?_⟩
  · refine ⟨_, (hone (stretched 65) _ (by simp [stretched]) rfl (plain_stretched 65)).mpr
      ⟨rfl, ?_⟩, ?_⟩ <;> decide +kernel
  · rintro ⟨line, hline⟩
    obtain ⟨rfl, hlength⟩ := (hone _ _ (by simp [stretched]) rfl (plain_stretched 66)).mp hline
    exact absurd hlength (by decide +kernel)
  · have hline : WritesLine { level := 1 } (.listing (stretchedListing 81) : Step Unit)
        (Writer.indented { level := 1 } (stretchedListing 81).oneLine) := by decide +kernel
    exact ⟨_, hline, hlisting _ _ (by simp [stretchedListing]) hline⟩
  · have hline : WritesLine { level := 1 } (.dictionary (stretchedDictionary 79) : Step Unit)
        (Writer.indented { level := 1 } (stretchedDictionary 79).oneLine) := by decide +kernel
    exact ⟨_, hline, hdictionary _ _ (by simp [stretchedDictionary]) rfl hline⟩
  · have hline : WritesLine { level := 1 } (.call (stretchedCall 76) : Step Unit)
        (Writer.indented { level := 1 } (stretchedCall 76).oneLine) := by decide +kernel
    exact ⟨_, hline, hcall _ _ (by simp [stretchedCall]) hline⟩

end Code

end Bindery
