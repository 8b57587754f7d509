import TypedJson.Conformance.Finding
import TypedJson.Documents
/-!
# Commands

There are two: one builds a schema from declarations and writes it, the other checks
documents against a type and writes what it finds.
-/
namespace TypedJson
namespace CommandLine

inductive OutputFormat
  | text
  | json
  deriving DecidableEq, Repr

/-- Where a schema comes from: patterns for the files of declarations, or one file that
holds a schema. -/
inductive SchemaSource
  | declarations (patterns : List String)
  | prebuilt (path : String)
  deriving Repr

structure SchemaCommand where
  declarations : List String
  /-- The file to write to, in place of the standard output. -/
  out? : Option String
  /-- Shows the command and does nothing. -/
  dryRun : Bool
  deriving Repr

structure ValidateCommand where
  source : SchemaSource
  typeName : String
  /-- Patterns for the files of data. -/
  inputs : List String
  settings : InputSettings
  least : Severity
  format : OutputFormat
  out? : Option String
  dryRun : Bool
  deriving Repr

inductive Command
  | schema (command : SchemaCommand)
  | validate (command : ValidateCommand)
  deriving Repr

/-- Whether the command is only to be shown. -/
def Command.dryRun : Command → Bool
  | .schema c => c.dryRun
  | .validate c => c.dryRun

/-- Why arguments are no command. -/
inductive UsageFault
  | missingArgument
  | conflict
  | invalidValue
  | tooManyValues
  | unknownArgument
  | invalidSubcommand
  | help
  | helpForNothing
  | version
  deriving DecidableEq

end CommandLine
end TypedJson
