import Bindery.Proofs.WrittenTypes

/-!
# Balanced indentation

A writer that dedents at level zero stays there, so a block that is closed once too often would go
unnoticed. No script of the generator gets that far: every piece of code leaves the level as it
found it and dedents only where it has indented before. A cursor follows a script through its levels
and its open definitions at once; where a definition begins, the level is the number of definitions
around it.
-/

namespace Bindery

namespace Code

variable {Mark : Type}

namespace Writer

def trace (w : Writer) : List Command → List (ℕ × Command)
  | [] => []
  | command :: rest => (w.level, command) :: (w.exec command).trace rest

def scriptTrace (w : Writer) : Script Mark → List (ℕ × Command)
  | [] => []
  | step :: rest => w.trace (step.commands w.level) ++ (w.step step).scriptTrace rest

end Writer

/-- A script leaves the level as it found it and never dedents at level zero. -/
def Balanced (script : Script Mark) : Prop :=
  ∀ w : Writer, (w.run script).level = w.level ∧ (0, .dedent) ∉ w.scriptTrace script

def Command.levelAfter? : ℕ → Command → Option ℕ
  | level, .line _ => some level
  | level, .indent => some (level + 1)
  | 0, .dedent => none
  | level + 1, .dedent => some level

def levelAfter? (level : ℕ) (commands : List Command) : Option ℕ :=
  commands.foldlM Command.levelAfter? level

@[simp] theorem levelAfter?_nil (level : ℕ) : levelAfter? level [] = some level := rfl

@[simp] theorem levelAfter?_line (level : ℕ) (text : String) (rest : List Command) :
    levelAfter? level (.line text :: rest) = levelAfter? level rest := rfl

@[simp] theorem levelAfter?_indent (level : ℕ) (rest : List Command) :
    levelAfter? level (.indent :: rest) = levelAfter? (level + 1) rest := rfl

@[simp] theorem levelAfter?_dedent (level : ℕ) (rest : List Command) :
    levelAfter? (level + 1) (.dedent :: rest) = levelAfter? level rest := rfl

@[simp] theorem levelAfter?_lines {α : Type} (level : ℕ) (items : List α) (f : α → String)
    (rest : List Command) :
    levelAfter? level (items.map (fun item => .line (f item)) ++ rest) =
      levelAfter? level rest := by
  induction items with
  | nil => rfl
  | cons item items ih => exact ih

theorem level_of_levelAfter? {w : Writer} {commands : List Command} {level : ℕ}
    (h : levelAfter? w.level commands = some level) :
    (w.execAll commands).level = level ∧ (0, .dedent) ∉ w.trace commands := by
  induction commands generalizing w with
  | nil => exact ⟨Option.some.inj h, List.not_mem_nil⟩
  | cons command commands ih =>
    have hstep : levelAfter? (w.exec command).level commands = some level ∧
        (0, Command.dedent) ≠ (w.level, command) := by
      cases command with
      | line text => exact ⟨h, by simp⟩
      | indent => exact ⟨h, by simp⟩
      | dedent =>
        cases hlevel : w.level with
        | zero =>
          rw [hlevel] at h
          cases h
        | succ n =>
          rw [hlevel] at h
          exact ⟨by simpa [Writer.exec, hlevel] using h, by simp⟩
    obtain ⟨hend, htrace⟩ := ih hstep.1
    refine ⟨hend, ?_⟩
    rw [Writer.trace, List.mem_cons, not_or]
    exact ⟨hstep.2, htrace⟩

theorem Signature.levelAfter?_commands (s : Signature) (level : ℕ) :
    levelAfter? level (s.commands level) = some (level + 1) := by
  rw [Signature.commands]
  split
  · simp
  · split <;> simp

theorem Listing.levelAfter?_commands (l : Listing) (level : ℕ) :
    levelAfter? level (l.commands level) = some level := by
  rw [Listing.commands]
  split
  · simp
  · split
    · simp
    · rw [Listing.body]
      split
      · simp
      · split <;> simp [onOwnLines]

theorem Dictionary.levelAfter?_commands (d : Dictionary) (level : ℕ) :
    levelAfter? level (d.commands level) = some level := by
  rw [Dictionary.commands]
  split
  · simp
  · split <;> simp [onOwnLines]

theorem Call.levelAfter?_commands (c : Call) (level : ℕ) :
    levelAfter? level (c.commands level) = some level := by
  rw [Call.commands]
  split
  · simp
  · split
    · simp
    · rw [Call.body]
      split <;> simp [onOwnLines]

end Code

namespace Binding

structure Cursor where
  level : ℕ
  inside : List String

namespace Cursor

def deeper (cursor : Cursor) : Cursor := ⟨cursor.level + 1, cursor.inside⟩

/-- The cursor behind a step. It is lost behind a dedent at level zero, and where a definition
begins at another level than the definitions around it demand. -/
def advance? (cursor : Cursor) : Code.Step Mark → Option Cursor
  | .indent _ => some cursor.deeper
  | .signature _ => some cursor.deeper
  | .unindent _ => (Code.Command.levelAfter? cursor.level .dedent).map (⟨·, cursor.inside⟩)
  | .dedent => (Code.Command.levelAfter? cursor.level .dedent).map (⟨·, cursor.inside⟩)
  | .mark (.opened fqn) =>
    if cursor.level = cursor.inside.length then some ⟨cursor.level, fqn :: cursor.inside⟩
    else none
  | .mark (.closed _) => some ⟨cursor.level, cursor.inside.tail⟩
  | _ => some cursor

def through? (cursor : Cursor) (script : Script) : Option Cursor := script.foldlM advance? cursor

theorem advance?_sound {cursor cursor' : Cursor} {step : Code.Step Mark}
    (h : cursor.advance? step = some cursor') :
    Code.levelAfter? cursor.level (step.commands cursor.level) = some cursor'.level ∧
      unclosedFrom cursor.inside (event? step).toList = cursor'.inside := by
  cases step with
  | signature s =>
    obtain rfl := Option.some.inj h
    exact ⟨s.levelAfter?_commands cursor.level, rfl⟩
  | listing l =>
    obtain rfl := Option.some.inj h
    exact ⟨l.levelAfter?_commands cursor.level, rfl⟩
  | dictionary d =>
    obtain rfl := Option.some.inj h
    exact ⟨d.levelAfter?_commands cursor.level, rfl⟩
  | call c =>
    obtain rfl := Option.some.inj h
    exact ⟨c.levelAfter?_commands cursor.level, rfl⟩
  | line text =>
    obtain rfl := Option.some.inj h
    exact ⟨rfl, rfl⟩
  | indent text =>
    obtain rfl := Option.some.inj h
    exact ⟨rfl, rfl⟩
  | unindent text =>
    obtain ⟨level, hlevel, rfl⟩ := Option.map_eq_some_iff.mp h
    refine ⟨?_, rfl⟩
    rw [Code.Step.commands, Code.levelAfter?, List.foldlM_cons, hlevel]
    rfl
  | dedent =>
    obtain ⟨level, hlevel, rfl⟩ := Option.map_eq_some_iff.mp h
    refine ⟨?_, rfl⟩
    rw [Code.Step.commands, Code.levelAfter?, List.foldlM_cons, hlevel]
    rfl
  | mark mark =>
    cases mark with
    | opened fqn =>
      rw [advance?] at h
      split at h
      · obtain rfl := Option.some.inj h
        exact ⟨rfl, rfl⟩
      · cases h
    | closed fqn =>
      obtain rfl := Option.some.inj h
      exact ⟨rfl, rfl⟩
    | _ =>
      obtain rfl := Option.some.inj h
      exact ⟨rfl, rfl⟩

theorem level_of_through? {cursor cursor' : Cursor} {script : Script}
    (h : cursor.through? script = some cursor') {w : Code.Writer} (hw : w.level = cursor.level) :
    (w.run script).level = cursor'.level ∧ (0, .dedent) ∉ w.scriptTrace script := by
  induction script generalizing cursor w with
  | nil =>
    obtain rfl := Option.some.inj h
    exact ⟨hw, List.not_mem_nil⟩
  | cons step script ih =>
    rw [through?, List.foldlM_cons] at h
    obtain ⟨middle, hmiddle, hrest⟩ := Option.bind_eq_some_iff.mp h
    have hstep := (advance?_sound hmiddle).1
    rw [← hw] at hstep
    obtain ⟨hlevel, htrace⟩ := Code.level_of_levelAfter? hstep
    obtain ⟨hend, hlater⟩ := ih hrest hlevel
    refine ⟨hend, ?_⟩
    rw [Code.Writer.scriptTrace, List.mem_append, not_or]
    exact ⟨htrace, hlater⟩

theorem unclosed_of_through? {cursor cursor' : Cursor} {script : Script}
    (h : cursor.through? script = some cursor') :
    unclosedFrom cursor.inside (outline script) = cursor'.inside := by
  induction script generalizing cursor with
  | nil =>
    obtain rfl := Option.some.inj h
    rfl
  | cons step script ih =>
    rw [through?, List.foldlM_cons] at h
    obtain ⟨middle, hmiddle, hrest⟩ := Option.bind_eq_some_iff.mp h
    rw [outline_cons, unclosedFrom_append, (advance?_sound hmiddle).2]
    exact ih hrest

def Kept (cursor : Cursor) (script : Script) : Prop := cursor.through? script = some cursor

section Steps

variable {cursor : Cursor} {script : Script} {step : Code.Step Mark}

-- The parentheses keep these facts from being used by unfolding alone, which would leave no proof
-- for the condition of `through?_cons`.
@[simp] theorem advance?_line (text : String) : cursor.advance? (line text) = some cursor := (rfl)

@[simp] theorem advance?_blank : cursor.advance? blank = some cursor := (rfl)

@[simp] theorem advance?_memberLine (name : String) :
    cursor.advance? (memberLine name) = some cursor := (rfl)

@[simp] theorem advance?_listing (l : Code.Listing) :
    cursor.advance? (.listing l) = some cursor := (rfl)

@[simp] theorem advance?_dictionary (d : Code.Dictionary) :
    cursor.advance? (.dictionary d) = some cursor := (rfl)

@[simp] theorem advance?_call (c : Code.Call) : cursor.advance? (.call c) = some cursor := (rfl)

@[simp] theorem advance?_step (s : Spelled) : cursor.advance? s.step = some cursor := (rfl)

@[simp] theorem advance?_stub (stub : Stub) :
    cursor.advance? (.mark (.stub stub)) = some cursor := (rfl)

@[simp] theorem advance?_member (member : Member) :
    cursor.advance? (.mark (.member member)) = some cursor := (rfl)

@[simp] theorem through?_nil : cursor.through? [] = some cursor := rfl

@[simp] theorem through?_cons (h : cursor.advance? step = some cursor) :
    cursor.through? (step :: script) = cursor.through? script := by
  rw [through?, List.foldlM_cons, h]
  rfl

@[simp] theorem through?_indent (text : String) :
    cursor.through? (.indent text :: script) = cursor.deeper.through? script := rfl

@[simp] theorem through?_block (text : String) :
    cursor.through? (.block text :: script) = cursor.deeper.through? script := rfl

@[simp] theorem through?_signature (s : Code.Signature) :
    cursor.through? (.signature s :: script) = cursor.deeper.through? script := rfl

@[simp] theorem through?_unindent (text : String) :
    cursor.deeper.through? (.unindent text :: script) = cursor.through? script := rfl

@[simp] theorem through?_dedent :
    cursor.deeper.through? (.dedent :: script) = cursor.through? script := rfl

theorem through?_append (script' : Script) :
    cursor.through? (script ++ script') = cursor.through? script >>= (·.through? script') :=
  List.foldlM_append

@[simp] theorem Kept.through?_append (h : cursor.Kept script) (script' : Script) :
    cursor.through? (script ++ script') = cursor.through? script' := by
  rw [Cursor.through?_append, h]
  rfl

@[simp] theorem kept_nil : cursor.Kept [] := rfl

theorem kept_line (text : String) : cursor.Kept [line text] := rfl

theorem kept_blank : cursor.Kept [blank] := rfl

theorem Kept.cons (hstep : cursor.advance? step = some cursor) (h : cursor.Kept script) :
    cursor.Kept (step :: script) :=
  (through?_cons hstep).trans h

theorem Kept.append {script' : Script} (h : cursor.Kept script) (h' : cursor.Kept script') :
    cursor.Kept (script ++ script') :=
  (h.through?_append script').trans h'

@[simp] theorem kept_map {α : Type} {items : List α} {f : α → Code.Step Mark}
    (h : ∀ item ∈ items, cursor.advance? (f item) = some cursor) : cursor.Kept (items.map f) := by
  induction items with
  | nil => rfl
  | cons item items ih =>
    obtain ⟨hitem, hitems⟩ := List.forall_mem_cons.mp h
    exact .cons hitem (ih hitems)

@[simp] theorem kept_flatMap {α : Type} {items : List α} {f : α → Script}
    (h : ∀ item ∈ items, cursor.Kept (f item)) : cursor.Kept (items.flatMap f) := by
  induction items with
  | nil => rfl
  | cons item items ih =>
    obtain ⟨hitem, hitems⟩ := List.forall_mem_cons.mp h
    exact hitem.append (ih hitems)

theorem kept_intercalate {between : Script} (hbetween : cursor.Kept between)
    {scripts : List Script} (h : ∀ script ∈ scripts, cursor.Kept script) :
    cursor.Kept (between.intercalate scripts) := by
  induction scripts with
  | nil => rfl
  | cons script scripts ih =>
    obtain ⟨hscript, hscripts⟩ := List.forall_mem_cons.mp h
    cases scripts with
    | nil => simpa using hscript
    | cons next scripts =>
      rw [List.intercalate_cons_cons]
      exact (hscript.append hbetween).append (ih hscripts)

theorem kept_toList_map {α : Type} (item : Option α) {f : α → Code.Step Mark}
    (h : ∀ x, cursor.advance? (f x) = some cursor) : cursor.Kept (item.map f).toList := by
  cases item with
  | none => rfl
  | some x => exact .cons (h x) kept_nil

end Steps

end Cursor

section Emitters

open Cursor

variable (cursor : Cursor)

@[simp] theorem kept_mentions (spelled : List Spelled) : cursor.Kept (mentions spelled) :=
  kept_map fun _ _ => rfl

@[simp] theorem kept_docstring (docs : Option Api.Docs) (arguments : Option (List DocArgument))
    (spaced : Bool) : cursor.Kept (docstring docs arguments spaced) := by
  simp only [docstring]
  split
  · rfl
  · rw [Kept]
    cases spaced <;> split <;> simp

@[simp] theorem kept_typeChecks (ctx : Context) (params : List String) (fqn : String) :
    cursor.Kept (typeChecks ctx params fqn) := by
  simp only [typeChecks]
  split
  · rfl
  · split
    · rfl
    · rw [Kept]
      simp

@[simp] theorem kept_abstractLine (style : Style) (isAbstract : Bool) :
    cursor.Kept (abstractLine style isAbstract) := by
  rw [abstractLine]
  split <;> rfl

@[simp] theorem kept_noBody : cursor.Kept noBody := rfl

@[simp] theorem kept_stub (stub : Stub) : cursor.Kept stub.script := rfl

theorem kept_rebuildStruct {ctx : Context} {method : MethodMember} {head : MethodHead}
    {script : Script} (h : rebuildStruct ctx method head = .ok script) : cursor.Kept script := by
  rw [rebuildStruct] at h
  split at h
  · obtain ⟨struct, -, h⟩ := Outcome.bind_eq_ok.mp h
    obtain rfl := Outcome.pure_eq_ok.mp h
    rfl
  · obtain rfl := Except.ok.inj h
    rfl

theorem kept_methodBody {ctx : Context} {method : MethodMember} {head : MethodHead}
    {script : Script} (h : methodBody ctx method head = .ok script) : cursor.Kept script := by
  simp only [methodBody, Outcome.bind_eq_ok, Outcome.pure_eq_ok] at h
  obtain ⟨struct, hstruct, rfl⟩ := h
  have hcall : cursor.Kept [callLine method head] := by
    rw [callLine]
    split <;> rfl
  exact ((kept_typeChecks ..).append (kept_rebuildStruct cursor hstruct)).append hcall

theorem kept_methodScript {ctx : Context} {style : Style} {method : MethodMember}
    {script : Script} (h : methodScript ctx style method = .ok script) : cursor.Kept script := by
  simp only [methodScript, Outcome.bind_eq_ok] at h
  obtain ⟨head, -, h⟩ := h
  have hname : cursor.Kept (method.name?.map memberLine).toList := kept_toList_map _ fun _ => rfl
  have hdecorator : cursor.Kept (method.kind.decorator?.map fun d => line ("@" ++ d)).toList :=
    kept_toList_map _ fun _ => rfl
  split at h
  all_goals
    simp only [Outcome.bind_eq_ok, Outcome.pure_eq_ok] at h
    obtain ⟨body, hbody, rfl⟩ := h
    rw [Kept]
  · have hkept := kept_methodBody cursor.deeper hbody
    simp [hname, hdecorator, hkept]
  · obtain rfl := Except.ok.inj hbody
    simp [hname, hdecorator]

theorem kept_getterScript (style : Style) (property : PropertyMember) (type : Spelled) :
    cursor.Kept (getterScript style property type) := by
  rw [Kept, getterScript]
  cases style.hasPropertyBody property <;> simp [propertyDecorators]

theorem kept_setterScript (ctx : Context) (style : Style) (property : PropertyMember)
    (type : Spelled) : cursor.Kept (setterScript ctx style property type) := by
  rw [Kept, setterScript]
  cases style.hasPropertyBody property <;> simp

theorem kept_propertyScript {ctx : Context} {style : Style} {property : PropertyMember}
    {script : Script} (h : propertyScript ctx style property = .ok script) :
    cursor.Kept script := by
  simp only [propertyScript, Outcome.bind_eq_ok, Outcome.pure_eq_ok] at h
  obtain ⟨type, -, rfl⟩ := h
  refine (kept_getterScript cursor style property type).append ?_
  split
  · rfl
  · exact kept_setterScript cursor ctx style property type

theorem kept_fieldScript {ctx : Context} {field : Field} {script : Script}
    (h : fieldScript ctx field = .ok script) : cursor.Kept script := by
  simp only [fieldScript, Outcome.bind_eq_ok, Outcome.pure_eq_ok] at h
  obtain ⟨type, -, rfl⟩ := h
  exact Kept.append rfl (kept_docstring ..)

theorem kept_valueScript (value : ValueMember) : cursor.Kept (valueScript value) :=
  .cons (advance?_line _) (kept_docstring cursor value.docs none false)

@[simp] theorem kept_coercionScript (f : StructField) : cursor.Kept (coercionScript f) := by
  rw [coercionScript]
  split <;> rfl

@[simp] theorem kept_optionalScript (receiver : String) (f : StructField) :
    cursor.Kept (optionalScript receiver f) := rfl

@[simp] theorem kept_dataTypeScript (fqn : String) (bases : List String) (fields : List Field) :
    cursor.Kept (dataTypeScript fqn bases fields) := rfl

@[simp] theorem kept_specialMethods (name : String) : cursor.Kept (specialMethods name) := rfl

@[simp] theorem kept_constructorScript (ctx : Context) (d : Declaration)
    (fields : List StructField) : cursor.Kept (constructorScript ctx d fields) := by
  rw [Kept, constructorScript]
  simp

@[simp] theorem kept_fieldGetterScript (f : StructField) :
    cursor.Kept (blank :: fieldGetterScript f) := by
  rw [Kept, fieldGetterScript]
  split <;> simp

theorem kept_structScript {ctx : Context} {d : Declaration} {script : Script}
    (h : structScript ctx d = .ok script) : cursor.Kept script := by
  simp only [structScript, Outcome.bind_eq_ok, Outcome.pure_eq_ok] at h
  obtain ⟨fields, -, bases, -, spelled, -, rfl⟩ := h
  rw [Kept]
  simp

def Cursor.KeptBy (cursor : Cursor) (nesting : Nesting) : Prop :=
  ∀ ctx fqn script, nesting ctx fqn = .ok script → cursor.Kept script

theorem keptBy_noNesting : cursor.KeptBy noNesting := by
  intro ctx fqn script h
  obtain rfl := Except.ok.inj h
  rfl

theorem kept_memberScript {cursor : Cursor} {nesting : Nesting} (hnesting : cursor.KeptBy nesting)
    {ctx : Context} {style : Style} {member : Member} {script : Script}
    (h : memberScript nesting ctx style member = .ok script) : cursor.Kept script := by
  have hmark : ∀ {inner : Script}, cursor.Kept inner →
      cursor.Kept (.mark (.member member) :: inner) := Kept.cons (advance?_member member)
  cases member with
  | method method =>
    obtain ⟨inner, hinner, h⟩ := Outcome.bind_eq_ok.mp h
    obtain rfl := Outcome.pure_eq_ok.mp h
    exact hmark (kept_methodScript cursor hinner)
  | property property =>
    obtain ⟨inner, hinner, h⟩ := Outcome.bind_eq_ok.mp h
    obtain rfl := Outcome.pure_eq_ok.mp h
    exact hmark (kept_propertyScript cursor hinner)
  | value value =>
    obtain rfl := Outcome.pure_eq_ok.mp h
    exact hmark (kept_valueScript cursor value)
  | field field =>
    obtain ⟨inner, hinner, h⟩ := Outcome.bind_eq_ok.mp h
    obtain rfl := Outcome.pure_eq_ok.mp h
    exact hmark (kept_fieldScript cursor hinner)
  | type nested =>
    obtain ⟨inner, hinner, h⟩ := Outcome.bind_eq_ok.mp h
    obtain rfl := Outcome.pure_eq_ok.mp h
    exact hmark (hnesting ctx nested.fqn inner hinner)

theorem kept_of_memberScripts {cursor : Cursor} {nesting : Nesting}
    (hnesting : cursor.KeptBy nesting) {ctx : Context} {style : Style} {members : List Member}
    {scripts : List Script} (h : members.mapM (memberScript nesting ctx style) = .ok scripts) :
    ∀ script ∈ scripts, cursor.Kept script := by
  intro script hscript
  obtain ⟨member, -, hmember⟩ := Outcome.exists_mem_of_mapM h hscript
  exact kept_memberScript hnesting hmember

theorem kept_classScript {nesting : Nesting} (hnesting : cursor.deeper.KeptBy nesting)
    {ctx : Context} {d : Declaration} {params : List String} {between script : Script}
    (hbetween : cursor.deeper.Kept between)
    (h : classScript nesting ctx d params between = .ok script) : cursor.Kept script := by
  simp only [classScript, Outcome.bind_eq_ok, Outcome.pure_eq_ok] at h
  obtain ⟨members, -, scripts, hscripts, rfl⟩ := h
  have hbody := kept_intercalate hbetween (kept_of_memberScripts hnesting hscripts)
  rw [Kept]
  split <;> simp [hbody]

theorem kept_implementsScript (names : List Spelled) : cursor.Kept (implementsScript names) := by
  rw [implementsScript]
  split
  · rfl
  · exact (kept_mentions cursor names).append rfl

theorem kept_shapeScript {nesting : Nesting} (hnesting : cursor.deeper.KeptBy nesting)
    {ctx : Context} {d : Declaration} {script : Script}
    (h : shapeScript nesting ctx d = .ok script) : cursor.Kept script := by
  rw [shapeScript] at h
  split at h
  · simp only [Outcome.bind_eq_ok, Outcome.pure_eq_ok] at h
    obtain ⟨implemented, -, bases, -, body, hbody, rfl⟩ := h
    have hclass := kept_classScript cursor hnesting kept_blank hbody
    exact ((kept_implementsScript cursor implemented).append (kept_mentions cursor bases)).append
      hclass
  · simp only [Outcome.bind_eq_ok, Outcome.pure_eq_ok] at h
    obtain ⟨bases, -, body, hbody, rfl⟩ := h
    have hclass := kept_classScript cursor hnesting kept_blank hbody
    exact .cons (advance?_listing _) ((kept_mentions cursor bases).append hclass)
  · simp only [Outcome.bind_eq_ok, Outcome.pure_eq_ok] at h
    obtain ⟨body, hbody, rfl⟩ := h
    exact .cons (advance?_listing _) (kept_classScript cursor hnesting kept_nil hbody)
  · exact kept_structScript cursor h
  · cases h

theorem kept_proxyClass {cursor : Cursor} (d : Declaration) (params : List String)
    (bases : List Spelled) {body : Script} (hbody : cursor.deeper.Kept body) (what : String) :
    cursor.Kept (proxyClass d params bases body what) := by
  rw [Kept, proxyClass]
  simp [hbody, proxyHook]

theorem kept_passIfEmpty (scripts : List Script) : cursor.Kept (passIfEmpty scripts) := by
  rw [passIfEmpty]
  split <;> rfl

theorem kept_epilogueScript {ctx : Context} {d : Declaration} {script : Script}
    (h : epilogueScript ctx d = .ok script) : cursor.Kept script := by
  rw [epilogueScript] at h
  split at h
  · simp only [Outcome.bind_eq_ok, Outcome.pure_eq_ok] at h
    obtain ⟨bases, -, scripts, hscripts, rfl⟩ := h
    have hmembers := kept_of_memberScripts (keptBy_noNesting cursor.deeper) hscripts
    exact kept_proxyClass d _ bases
      ((kept_passIfEmpty _ scripts).append (kept_intercalate kept_blank hmembers)) _
  · simp only [Outcome.bind_eq_ok, Outcome.pure_eq_ok] at h
    obtain ⟨bases, -, scripts, hscripts, rfl⟩ := h
    have hmembers := kept_of_memberScripts (keptBy_noNesting cursor.deeper) hscripts
    have hspaced : cursor.deeper.Kept (scripts.flatMap (blank :: ·)) :=
      kept_flatMap fun script hscript => .cons advance?_blank (hmembers script hscript)
    refine kept_proxyClass d _ bases (Kept.append ?_ hspaced) _
    exact ((kept_docstring ..).append (kept_line _)).append (kept_passIfEmpty _ scripts)
  · obtain rfl := Outcome.pure_eq_ok.mp h
    rfl

def Cursor.within (stack : List String) : Cursor := ⟨stack.length, stack⟩

theorem kept_definitionScript {nesting : Nesting} {ctx : Context} {d : Declaration}
    {stack : List String} (hnesting : (Cursor.within (d.fqn :: stack)).KeptBy nesting)
    {script : Script} (h : definitionScript nesting ctx d = .ok script) :
    (Cursor.within stack).Kept script := by
  simp only [definitionScript, Outcome.bind_eq_ok, Outcome.pure_eq_ok] at h
  obtain ⟨shape, hshape, rfl⟩ := h
  -- The level is that of the definitions around; the mark only adds a name to them.
  have hopened : (Cursor.within stack).advance? (.mark (.opened d.fqn)) =
      some ⟨stack.length, d.fqn :: stack⟩ := if_pos rfl
  have hbody : Cursor.Kept ⟨stack.length, d.fqn :: stack⟩ shape :=
    kept_shapeScript ⟨stack.length, d.fqn :: stack⟩ hnesting hshape
  rw [Kept, Cursor.through?, List.cons_append, List.foldlM_cons, hopened]
  exact hbody.through?_append _

def nestedScript (fuel : ℕ) : Nesting := fun ctx fqn => do
  let nested ← ctx.model.declaration fqn
  return (← define fuel ctx nested) ++ (← epilogueScript ctx nested)

theorem define_succ (fuel : ℕ) (ctx : Context) (d : Declaration) :
    define (fuel + 1) ctx d = definitionScript (nestedScript fuel) ctx d := rfl

theorem keptBy_nestedScript {fuel : ℕ} (hdefine : ∀ {ctx d script},
    define fuel ctx d = .ok script → ∀ stack, (Cursor.within stack).Kept script)
    (stack : List String) : (Cursor.within stack).KeptBy (nestedScript fuel) := by
  intro ctx fqn script h
  simp only [nestedScript, Outcome.bind_eq_ok, Outcome.pure_eq_ok] at h
  obtain ⟨nested, -, definition, hdefinition, epilogue, hepilogue, rfl⟩ := h
  exact (hdefine hdefinition stack).append (kept_epilogueScript _ hepilogue)

theorem kept_define {fuel : ℕ} {ctx : Context} {d : Declaration} {script : Script}
    (h : define fuel ctx d = .ok script) (stack : List String) :
    (Cursor.within stack).Kept script := by
  induction fuel generalizing ctx d script stack with
  | zero => cases h
  | succ fuel ih =>
    rw [define_succ] at h
    exact kept_definitionScript (keptBy_nestedScript ih _) h

end Emitters

section Modules

open Cursor

def StandsAtTop (script part : Script) : Prop :=
  ∃ before after, script = before ++ part ++ after ∧ (Code.Writer.run {} before).level = 0

theorem standsAtTop_of_kept {script before part : Script} (after : Script)
    (h : (within []).Kept before) (hsplit : script = before ++ part ++ after) :
    StandsAtTop script part :=
  ⟨before, after, hsplit, (level_of_through? h rfl).1⟩

theorem kept_addTypes {m : Model} {checks : Bool} {place : Declaration} {names : List String}
    {written script : Script} (hwritten : (within []).Kept written)
    (h : names.foldlM (addType m checks place) written = .ok script) :
    (within []).Kept script ∧ written <+: script ∧ ∀ fqn ∈ names,
      ∃ d before definition epilogue after, m.declaration fqn = .ok d ∧
        define (nestingLimit m) (topContext m checks place before) d = .ok definition ∧
        epilogueScript (topContext m checks place (before ++ definition)) d = .ok epilogue ∧
        script = before ++ definition ++ epilogue ++ after ∧ (within []).Kept before := by
  induction names generalizing written with
  | nil =>
    obtain rfl := Outcome.pure_eq_ok.mp h
    exact ⟨hwritten, List.prefix_rfl, by simp⟩
  | cons fqn names ih =>
    rw [List.foldlM_cons] at h
    obtain ⟨middle, hmiddle, hrest⟩ := Outcome.bind_eq_ok.mp h
    simp only [addType, Outcome.bind_eq_ok, Outcome.pure_eq_ok] at hmiddle
    obtain ⟨d, hd, definition, hdefinition, epilogue, hepilogue, rfl⟩ := hmiddle
    have hbefore : (within []).Kept (written ++ [blank, blank]) := hwritten.append rfl
    have hthrough := (hbefore.append (kept_define hdefinition [])).append
      (kept_epilogueScript _ hepilogue)
    obtain ⟨hscript, ⟨after, rfl⟩, hlater⟩ := ih hthrough hrest
    refine ⟨hscript, ⟨[blank, blank] ++ definition ++ epilogue ++ after, ?_⟩, ?_⟩
    · simp only [List.append_assoc]
    intro name hname
    rcases List.mem_cons.mp hname with rfl | hname
    · exact ⟨d, _, definition, epilogue, after, hd, hdefinition, hepilogue, rfl, hbefore⟩
    · exact hlater name hname

theorem kept_preamble (cursor : Cursor) : cursor.Kept preamble := rfl

theorem kept_readmeScript (cursor : Cursor) (readme : Option String) :
    cursor.Kept (readmeScript readme) := by
  rw [readmeScript]
  split
  · rfl
  · rw [Kept]
    simp

theorem kept_importScript (cursor : Cursor) (imports : Imports) :
    cursor.Kept (importScript imports) := by
  have hstep : ∀ statement : Statement, cursor.advance? statement.step = some cursor := by
    intro statement
    cases statement <;> rfl
  simp only [importScript]
  split
  · rfl
  · exact .cons advance?_blank (kept_map fun statement _ => hstep statement)

theorem kept_exportScript (cursor : Cursor) (names : List String) :
    cursor.Kept (exportScript names) := by
  rw [Kept, exportScript]
  split <;> simp

theorem kept_childScript (cursor : Cursor) (children : List Child) :
    cursor.Kept (childScript children) := by
  rw [childScript]
  split
  · rfl
  · exact Kept.append rfl (kept_map fun _ _ => rfl)

theorem kept_stubs (cursor : Cursor) (stubs : List Stub) :
    cursor.Kept (stubs.flatMap Stub.script) :=
  kept_flatMap fun stub _ => kept_stub cursor stub

theorem moduleScript_parts {m : Model} {checks : Bool} {place : Declaration} {script : Script}
    (h : moduleScript m checks place = .ok script) :
    ∃ members types start finish, Members.arrange m place.name place.members = .ok members ∧
      typesScript m checks place members = .ok types ∧
      script = start ++ types ++ finish ++ (stubs types).flatMap Stub.script ∧
      (∀ cursor : Cursor, cursor.Kept start) ∧ ∀ cursor : Cursor, cursor.Kept finish := by
  rw [moduleScript] at h
  split at h
  · rename_i readme hshape
    simp only [Outcome.bind_eq_ok, Outcome.pure_eq_ok] at h
    obtain ⟨imports, -, members, hmembers, types, htypes, rfl⟩ := h
    refine ⟨members, types, readmeScript readme ++ preamble ++
      [blank, line ("from " ++ loaderPath m.toCatalog place ++ " import *")] ++
      importScript imports, (if members.isEmpty then [] else [blank]) ++ [blank] ++
      exportScript (exportNames members (childModules m place)) ++
      childScript (childModules m place), hmembers, htypes, ?_, ?_, ?_⟩
    · simp only [List.append_assoc]
    · intro cursor
      refine Kept.append ?_ (kept_importScript cursor imports)
      exact ((kept_readmeScript cursor readme).append (kept_preamble cursor)).append rfl
    · intro cursor
      have hblanks : cursor.Kept ((if members.isEmpty then [] else [blank]) ++ [blank]) := by
        split <;> rfl
      exact (hblanks.append (kept_exportScript ..)).append (kept_childScript ..)
  · cases h

theorem balanced_of_kept {script : Script} (h : ∀ cursor : Cursor, cursor.Kept script) :
    Code.Balanced script :=
  fun w => level_of_through? (h ⟨w.level, []⟩) rfl

theorem balanced_of_kept_within {script : Script} (h : ∀ stack, (within stack).Kept script) :
    Code.Balanced script :=
  fun w => by
    have hlevel : (within (List.replicate w.level "")).level = w.level := List.length_replicate
    exact hlevel ▸ level_of_through? (h _) hlevel.symm

theorem level_at_opened {before after : Script} {fqn : String}
    (h : (within []).Kept (before ++ .mark (.opened fqn) :: after)) :
    (Code.Writer.run {} before).level = (unclosed before).length := by
  rw [Kept, through?_append] at h
  obtain ⟨cursor, hbefore, h⟩ := Option.bind_eq_some_iff.mp h
  rw [through?, List.foldlM_cons] at h
  obtain ⟨_, hopened, -⟩ := Option.bind_eq_some_iff.mp h
  have hlevel : cursor.level = cursor.inside.length := by
    by_contra hne
    rw [advance?, if_neg hne] at hopened
    cases hopened
  calc (Code.Writer.run {} before).level = cursor.level := (level_of_through? hbefore rfl).1
    _ = cursor.inside.length := hlevel
    _ = (unclosed before).length := congrArg List.length (unclosed_of_through? hbefore).symm

/-- Every type of a module, what follows it and every stub that the types rely on begin at level
zero. -/
def TopLevel (m : Model) (checks : Bool) (place : Declaration) (script : Script) : Prop :=
  ∃ members types, Members.arrange m place.name place.members = .ok members ∧
    typesScript m checks place members = .ok types ∧
    (∀ fqn ∈ members.filterMap Member.nested?, ∃ d before definition epilogue,
      m.declaration fqn = .ok d ∧
      define (nestingLimit m) (topContext m checks place before) d = .ok definition ∧
      epilogueScript (topContext m checks place (before ++ definition)) d = .ok epilogue ∧
      StandsAtTop script definition ∧ StandsAtTop script epilogue) ∧
    ∀ stub ∈ stubs types, StandsAtTop script stub.script

theorem topLevel_of_moduleScript {m : Model} {checks : Bool} {place : Declaration} {script : Script}
    (h : moduleScript m checks place = .ok script) :
    (within []).Kept script ∧ TopLevel m checks place script := by
  obtain ⟨members, types, start, finish, hmembers, htypes, rfl, hstart, hfinish⟩ :=
    moduleScript_parts h
  obtain ⟨hkept, -, htop⟩ := kept_addTypes kept_nil htypes
  have hbefore : (within []).Kept (start ++ types ++ finish) :=
    ((hstart _).append hkept).append (hfinish _)
  refine ⟨hbefore.append (kept_stubs _ _), members, types, hmembers, htypes, ?_, ?_⟩
  · intro fqn hfqn
    obtain ⟨d, before, definition, epilogue, after, hd, hdefinition, hepilogue, hsplit, hlevel⟩ :=
      htop fqn hfqn
    have hbegun := (hstart _).append hlevel
    refine ⟨d, before, definition, epilogue, hd, hdefinition, hepilogue, ?_, ?_⟩
    · refine standsAtTop_of_kept
        (epilogue ++ after ++ finish ++ (stubs types).flatMap Stub.script) hbegun ?_
      rw [hsplit]
      simp only [List.append_assoc]
    · refine standsAtTop_of_kept (after ++ finish ++ (stubs types).flatMap Stub.script)
        (hbegun.append (kept_define hdefinition [])) ?_
      rw [hsplit]
      simp only [List.append_assoc]
  · intro stub hstub
    obtain ⟨earlier, later, hsplit⟩ := List.append_of_mem hstub
    refine standsAtTop_of_kept (later.flatMap Stub.script)
      (hbefore.append (kept_stubs _ earlier)) ?_
    rw [hsplit, List.flatMap_append, List.flatMap_cons]
    simp only [List.append_assoc]

/-- Indentation is balanced: whatever the generator writes leaves the level as it found it and never
dedents at level zero. In a module, a definition begins at the level of a body in the definitions
that are open there, so those at the top level begin at level zero. -/
theorem indentation_balanced :
    (∀ fuel ctx d script, define fuel ctx d = .ok script → Code.Balanced script) ∧
    (∀ ctx d script, epilogueScript ctx d = .ok script → Code.Balanced script) ∧
    (∀ fuel ctx style member script,
      memberScript (nestedScript fuel) ctx style member = .ok script → Code.Balanced script) ∧
    (∀ ctx d script, structScript ctx d = .ok script → Code.Balanced script) ∧
    (∀ ctx style method script, methodScript ctx style method = .ok script →
      Code.Balanced script) ∧
    (∀ ctx style property script, propertyScript ctx style property = .ok script →
      Code.Balanced script) ∧
    (∀ docs arguments spaced, Code.Balanced (docstring docs arguments spaced)) ∧
    (∀ ctx params fqn, Code.Balanced (typeChecks ctx params fqn)) ∧
    (∀ l, Code.Balanced ([.listing l] : Script)) ∧
    (∀ d, Code.Balanced ([.dictionary d] : Script)) ∧
    (∀ c, Code.Balanced ([.call c] : Script)) ∧
    (∀ stub : Stub, Code.Balanced stub.script) ∧
    ∀ m checks place script, moduleScript m checks place = .ok script →
      (Code.Writer.run {} script).level = 0 ∧
      (0, .dedent) ∉ Code.Writer.scriptTrace {} script ∧
      (∀ before fqn after, script = before ++ .mark (.opened fqn) :: after →
        (Code.Writer.run {} before).level = (unclosed before).length) ∧
      TopLevel m checks place script := by
  refine ⟨?_, ?_, ?_, ?_, ?_, ?_, ?_, ?_, ?_, ?_, ?_, ?_, ?_⟩
  · exact fun fuel ctx d script h => balanced_of_kept_within (kept_define h)
  · exact fun ctx d script h => balanced_of_kept (kept_epilogueScript · h)
  · exact fun fuel ctx style member script h =>
      balanced_of_kept_within fun stack =>
        kept_memberScript (keptBy_nestedScript kept_define stack) h
  · exact fun ctx d script h => balanced_of_kept (kept_structScript · h)
  · exact fun ctx style method script h => balanced_of_kept (kept_methodScript · h)
  · exact fun ctx style property script h => balanced_of_kept (kept_propertyScript · h)
  · exact fun docs arguments spaced => balanced_of_kept (kept_docstring · docs arguments spaced)
  · exact fun ctx params fqn => balanced_of_kept (kept_typeChecks · ctx params fqn)
  · exact fun l => balanced_of_kept fun _ => .cons (advance?_listing l) kept_nil
  · exact fun d => balanced_of_kept fun _ => .cons (advance?_dictionary d) kept_nil
  · exact fun c => balanced_of_kept fun _ => .cons (advance?_call c) kept_nil
  · exact fun stub => balanced_of_kept (kept_stub · stub)
  · intro m checks place script h
    obtain ⟨hkept, htop⟩ := topLevel_of_moduleScript h
    obtain ⟨hend, htrace⟩ := level_of_through? (w := {}) hkept rfl
    refine ⟨hend, htrace, ?_, htop⟩
    rintro before fqn after rfl
    exact level_at_opened hkept

theorem openings_spareParts :
    (rendered spareParts "Acme.core").toOption.map (fun module =>
      (openings module.2.2, module.1.enclosingTypes "Acme.core.Engine.Part")) =
      some (["Acme.core.Engine", "Acme.core.Engine.Part"], ["Acme.core.Engine"]) := by
  decide +kernel

theorem indentation_balanced_spare :
    ∃ m place script before after, Model.build spareParts [] = .ok m ∧
      moduleScript m true place = .ok script ∧
      (0, .dedent) ∉ Code.Writer.scriptTrace {} script ∧
      script = before ++ .mark (.opened "Acme.core.Engine.Part") :: after ∧
      unclosed before = ["Acme.core.Engine"] ∧ (Code.Writer.run {} before).level = 1 := by
  obtain ⟨⟨m, place, script⟩, hrendered, hview⟩ :=
    Outcome.exists_eq_ok_of_map openings_spareParts
  obtain ⟨hbuild, hplace, hscript⟩ := rendered_eq_ok hrendered
  obtain ⟨hopenings, hinside⟩ := Prod.mk.inj hview
  have hpart : "Acme.core.Engine.Part" ∈ openings script := by simp [hopenings]
  obtain ⟨before, after, hsplit⟩ := List.append_of_mem (mem_outline.mp (mem_opened.mp hpart))
  have hkeyed : spareParts.Keyed := by decide +kernel
  have hopen := (placed_of_moduleScript hbuild hkeyed hplace hscript hsplit).2.1.trans hinside
  obtain ⟨-, -, -, -, -, -, -, -, -, -, -, -, hmodule⟩ := indentation_balanced
  obtain ⟨-, htrace, hlevel, -⟩ := hmodule m true place script hscript
  refine ⟨m, place, script, before, after, hbuild, hscript, htrace, hsplit, hopen, ?_⟩
  rw [hlevel before _ after hsplit, hopen]
  rfl

end Modules

end Binding

end Bindery
