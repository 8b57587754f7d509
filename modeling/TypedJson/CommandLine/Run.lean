import TypedJson.CommandLine.Rendering
import TypedJson.Conformance.Check
import TypedJson.Files.Glob
import TypedJson.Types.Universe
import TypedJson.Schema.Building
/-!
# Running a command

A command reads files, computes, and writes one text: to a file, or to the standard
output.  Its exit status is 0, or 1 if a document has an error, whether or not errors are
shown; `CommandFault` is what keeps it from finishing.
-/
namespace TypedJson
namespace CommandLine

inductive CommandFault
  | badPattern (pattern : String) (fault : Glob.PatternFault)
  | noFiles (pattern : String)
  | declarations (fault : LoadError)
  | schema (path : String) (fault : LoadError)
  | endless
  | input (fault : InputFault)
  | directory (fault : FileFault)
  | unwritable (path : String) (fault : FileFault)

/-- What happened, and behind it what caused it in turn. -/
def CommandFault.causes : CommandFault → List String
  | .badPattern pattern fault => ["bad glob pattern: " ++ pattern, fault.message]
  | .noFiles pattern => ["glob pattern matched no files: " ++ pattern]
  | .declarations fault => "failed to load declarations" :: fault.causes
  | .schema path fault => ("failed to load schema " ++ path) :: fault.causes
  | .endless => ["the expansion of a type does not end"]
  | .input fault => fault.causes
  | .directory fault => [fault.message]
  | .unwritable path fault => ["failed to write " ++ path, fault.message]

def CommandFault.message (f : CommandFault) : String := ": ".intercalate f.causes

structure CommandResult where
  exit : Nat
  /-- What goes to the standard output. -/
  output : String

/-! ## Checking -/

/-- The full reports of documents. -/
def checkAll (schema : Schema) (typeName : String) (documents : List LabelledDocument) :
    List LabelledReport :=
  documents.map fun d => ⟨d.label, schema.validate typeName d.value⟩

def exitStatus (reports : List LabelledReport) : Nat :=
  if reports.any (·.report.hasErrors) then 1 else 0

/-- The reports without what is below a severity. -/
def shown (least : Severity) (reports : List LabelledReport) : List LabelledReport :=
  reports.map fun r => { r with report := r.report.atLeast least }

/-! ## Files -/

/-- How deep the expansion of types may go. -/
def expansionLimit : Nat := 4000

variable {m : Type → Type} [Monad m] (files : FileAccess m)

abbrev Run (m : Type → Type) := ExceptT CommandFault m

/-- The paths that patterns stand for; what has no wildcard stands for itself. -/
def pathsOf (pattern : String) : Run m (List String) := do
  if Glob.isMeant pattern then
    match Glob.Plan.read pattern with
    | .error fault => throw (.badPattern pattern fault)
    | .ok plan =>
      let paths ← ExceptT.lift (Glob.expand files plan)
      if paths.isEmpty then throw (.noFiles pattern) else pure paths
  else pure [pattern]

def allPaths (patterns : List String) : Run m (List String) := do
  pure (← patterns.mapM (pathsOf files)).flatten

def readFile (path : String) : m (String × Except FileFault Bytes) := do
  pure (path, ← files.read path)

def loadDeclarations (patterns : List String) : Run m Schema := do
  let paths ← allPaths files patterns
  let contents ← ExceptT.lift (paths.mapM (readFile files))
  match Universe.ofFiles (contents.map (·.2)) with
  | .error fault => throw (.declarations fault)
  | .ok u =>
    match u.schema? expansionLimit with
    | some schema => pure schema
    | none => throw .endless

def loadSchema : SchemaSource → Run m Schema
  | .declarations patterns => loadDeclarations files patterns
  | .prebuilt path => do
    match loadFile Schema.decode (← files.read path) with
    | .ok schema => pure schema
    | .error fault => throw (.schema path fault)

def loadDocuments (command : ValidateCommand) : Run m (List LabelledDocument) := do
  let paths ← allPaths files command.inputs
  let contents ← ExceptT.lift (paths.mapM (readFile files))
  match command.settings.load contents with
  | .ok documents => pure documents
  | .error fault => throw (.input fault)

/-- Writes the text of a command; on the standard output a line feed ends it. -/
def emit (out? : Option String) (exit : Nat) (text : String) : Run m CommandResult := do
  match out? with
  | none => pure ⟨exit, text ++ "\n"⟩
  | some path =>
    match FilePath.parent? path with
    | some parent =>
      match ← files.makeDirectories parent with
      | .ok () => pure ()
      | .error fault => throw (.directory fault)
    | none => pure ()
    match ← files.write path (Bytes.ofText text) with
    | .ok () => pure ⟨exit, ""⟩
    | .error fault => throw (.unwritable path fault)

/-! ## Commands -/

def SchemaCommand.run (command : SchemaCommand) : Run m CommandResult := do
  if command.dryRun then pure ⟨0, ""⟩
  else
    let schema ← loadDeclarations files command.declarations
    emit files command.out? 0 schema.toJson.pretty

/-- Colours are for the standard output alone. -/
def ValidateCommand.run (colour : Bool) (command : ValidateCommand) : Run m CommandResult := do
  if command.dryRun then pure ⟨0, ""⟩
  else
    let schema ← loadSchema files command.source
    let documents ← loadDocuments files command
    let reports := checkAll schema command.typeName documents
    let text := command.format.render (colour && command.out?.isNone) (shown command.least reports)
    emit files command.out? (exitStatus reports) text

def Command.run (colour : Bool) : Command → Run m CommandResult
  | .schema command => command.run files
  | .validate command => command.run files colour

end CommandLine
end TypedJson
