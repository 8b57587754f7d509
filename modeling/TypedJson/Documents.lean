import TypedJson.Filter.Reader
import TypedJson.Json.Pointer
import TypedJson.Basic
import TypedJson.Files.Bytes
import TypedJson.LoadError
/-!
# The documents to be checked

A file holds one JSON document, or one on every line that is not blank.  Each document
has a label that says where it came from: the file, and `:k` behind it for the k-th line.
A pointer then selects a part of every document, and a filter turns each into any number
of documents, which are told apart by `#i` where there are several.
-/
namespace TypedJson

structure LabelledDocument where
  label : String
  value : Json

/-- What is done with the files of data. -/
structure InputSettings where
  /-- Whether every line is a document of its own. -/
  byLine : Bool
  pointer? : Option String
  filter? : Option String
  deriving Repr

inductive InputFault
  | unreadable (path : String) (fault : FileFault)
  | badDocument (path : String) (fault : SyntaxFault)
  | badLine (label : String) (fault : SyntaxFault)
  | nothingSelected (pointer label : String)
  | filterFailed (filter label : String) (fault : Filter.RunFault)

/-- What happened, and behind it what caused it. -/
def InputFault.causes : InputFault → List String
  | .unreadable path fault => ["failed to read source file " ++ path, fault.message]
  | .badDocument path fault => ["failed to parse JSON source file (" ++ path ++ ")", fault.message]
  | .badLine label fault => ["failed to parse NDJSON line (" ++ label ++ ")", fault.message]
  | .nothingSelected pointer label =>
    ["JSON pointer " ++ pointer ++ " selects nothing in " ++ label]
  | .filterFailed filter label fault =>
    ["failed to apply jq expression to " ++ label, fault.message filter]

namespace LabelledDocument

/-- The one document of a text. -/
def ofText (path text : String) : Except InputFault LabelledDocument :=
  match Json.ofSource (Source.ofString text) with
  | .ok value => .ok ⟨path, value⟩
  | .error fault => .error (.badDocument path fault)

def isBlankLine (line : String) : Bool := line.toList.all Text.isBlank

/-- The document of one line, which is counted from one. -/
def ofLine (path : String) (number : Nat) (line : String) : Except InputFault LabelledDocument :=
  let label := path ++ ":" ++ toString number
  match Json.ofSource (Source.ofString line) with
  | .ok value => .ok ⟨label, value⟩
  | .error fault => .error (.badLine label fault)

/-- The documents of the lines from the given number on; blank lines hold none. -/
def ofLines (path : String) : Nat → List String → Except InputFault (List LabelledDocument)
  | _, [] => .ok []
  | number, line :: rest =>
    if isBlankLine line then ofLines path (number + 1) rest
    else do
      let document ← ofLine path number line
      pure (document :: (← ofLines path (number + 1) rest))

/-- The part of a document that a pointer selects, if there is a pointer. -/
def selected (pointer? : Option String) (d : LabelledDocument) :
    Except InputFault LabelledDocument :=
  match pointer? with
  | none => .ok d
  | some pointer =>
    match d.value.select? pointer with
    | some value => .ok { d with value }
    | none => .error (.nothingSelected pointer d.label)

/-- Labels the outputs of one document, and numbers them if there are several. -/
def outputs (label : String) (values : List Json) : List LabelledDocument :=
  if values.length ≤ 1 then values.map fun v => ⟨label, v⟩
  else values.zipIdx.map fun (v, i) => ⟨label ++ "#" ++ toString i, v⟩

def filtered (filter? : Option String) (d : LabelledDocument) :
    Except InputFault (List LabelledDocument) :=
  match filter? with
  | none => .ok [d]
  | some filter =>
    match Filter.runText filter d.value with
    | .ok values => .ok (outputs d.label values)
    | .error fault => .error (.filterFailed filter d.label fault)

end LabelledDocument

namespace InputSettings

def prepared (s : InputSettings) (d : LabelledDocument) : Except InputFault (List LabelledDocument) := do
  LabelledDocument.filtered s.filter? (← d.selected s.pointer?)

/-- The documents in the text of one file. -/
def ofText (s : InputSettings) (path text : String) : Except InputFault (List LabelledDocument) := do
  let documents ←
    if s.byLine then LabelledDocument.ofLines path 1 (Text.lines text)
    else (LabelledDocument.ofText path text).map ([·])
  pure (← documents.mapM s.prepared).flatten

/-- The documents in what was read of one file. -/
def ofFile (s : InputSettings) (path : String) (content : Except FileFault Bytes) :
    Except InputFault (List LabelledDocument) :=
  match content with
  | .error fault => .error (.unreadable path fault)
  | .ok bytes =>
    match (Source.ofBytes bytes).toText? with
    | some text => s.ofText path text
    | none => .error (.unreadable path .notText)

/-- The documents of all files, one file after another; the first fault ends it. -/
def load (s : InputSettings) (files : List (String × Except FileFault Bytes)) :
    Except InputFault (List LabelledDocument) := do
  pure (← files.mapM fun (path, content) => s.ofFile path content).flatten

end InputSettings
end TypedJson
