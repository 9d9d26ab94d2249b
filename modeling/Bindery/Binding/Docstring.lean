import Bindery.Binding.Mark

/-!
# Docstrings

Documentation as a docstring: the summary, the remarks, the arguments, further notes as
named fields, and the example. A break sets one blank line between parts and none at the
beginning. Nothing is written for empty documentation unless arguments are given.
-/

namespace Bindery.Binding

open Api

structure DocArgument where
  name : String
  docs : Option Docs

def summaryText (docs : Docs) : String :=
  let summary := docs.summary.getD ""
  match docs.stability with
  | some .experimental => "(experimental) " ++ summary
  | some .deprecated => "(deprecated) " ++ summary
  | _ => summary

def oneLine (docs : Option Docs) : String :=
  match docs.filter (!·.isEmpty) with
  | none => "-"
  | some docs =>
    let parts :=
      (docs.summary.map fun _ => summaryText docs).toList ++ docs.remarks.toList ++
        (docs.default.map ("Default: " ++ ·)).toList
    String.intercalate " " (Text.words (String.intercalate " " parts))

/-- A blank line, unless the lines are empty or end in one. -/
def addBreak (lines : List String) : List String :=
  match lines.getLast? with
  | some last => if (Text.trim last).isEmpty then lines else lines ++ [""]
  | none => lines

def addField (heading text : String) (lines : List String) : List String :=
  match Text.split '\n' text with
  | [only] => lines ++ [Text.trim (":" ++ heading ++ ": " ++ only)]
  | several => addBreak (lines ++ [":" ++ heading ++ ":"]) ++ several.map Text.trim

def addSeparateField (heading text : String) (lines : List String) : List String :=
  addBreak (addField heading text (addBreak lines))

def addSummary (docs : Docs) (lines : List String) : List String :=
  match docs.summary with
  | some _ => addBreak (lines ++ Text.split '\n' (summaryText docs))
  | none => lines ++ [""]

def addRemarks (docs : Docs) (lines : List String) : List String :=
  match docs.remarks with
  | some remarks => addBreak (addBreak lines ++ Text.split '\n' remarks)
  | none => lines

def argumentLine (argument : DocArgument) : String :=
  ":param " ++ Identifier.parameter argument.name [] ++ ": " ++ oneLine argument.docs

def addArguments (arguments : List DocArgument) (lines : List String) : List String :=
  if arguments.isEmpty then lines
  else addBreak (addBreak lines ++ arguments.map argumentLine)

def addOptional (add : String → String → List String → List String) (heading : String)
    (text : Option String) (lines : List String) : List String :=
  match text with
  | some text => add heading text lines
  | none => lines

def addExample (docs : Docs) (lines : List String) : List String :=
  match docs.sample with
  | some sample =>
    let body := (Text.split '\n' sample).map ("    " ++ ·)
    addBreak (addBreak lines ++ ["Example::", ""] ++ body)
  | none => lines

def addNotes (docs : Docs) (lines : List String) : List String :=
  let lines := addOptional addSeparateField "default" docs.default lines
  let lines := addOptional addSeparateField "return" docs.returns lines
  let lines := addOptional addSeparateField "deprecated" docs.deprecated lines
  let lines := addOptional addField "see" docs.see lines
  let notable := (docs.stability.filter Stability.isNotable).map Stability.word
  let lines := addOptional addField "stability" notable lines
  let lines := if docs.subclassable then addSeparateField "subclassable" "Yes" lines else lines
  docs.custom.entries.foldl (fun lines (key, text) => addField key text lines) lines

def docLines (docs : Docs) (arguments : List DocArgument) : List String :=
  let lines := addSummary docs []
  let lines := addRemarks docs lines
  let lines := addArguments arguments lines
  let lines := addNotes docs lines
  let lines := addExample docs lines
  (lines.reverse.dropWhile (· = "")).reverse

def docQuotes : String := "'''"

/-- The docstring of a declaration or a member. `spaced` asks for a blank line behind it. -/
def docstring (docs : Option Docs) (arguments : Option (List DocArgument)) (spaced : Bool) :
    Script :=
  let docs := docs.getD {}
  if docs.isEmpty && arguments.isNone then []
  else
    let behind := if spaced then [blank] else []
    match docLines docs (arguments.getD []) with
    | [] => []
    | [only] => line (docQuotes ++ only ++ docQuotes) :: behind
    | first :: rest =>
      line (docQuotes ++ first) :: rest.map (fun text => line (Text.trimEnd text)) ++
        line docQuotes :: behind

end Bindery.Binding
