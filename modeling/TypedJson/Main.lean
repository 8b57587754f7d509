import TypedJson.CommandLine.Arguments
import TypedJson.CommandLine.Run
/-!
# The program

Reads the arguments, runs the command on the real file system, and reports what kept it
from finishing.
-/
namespace TypedJson
namespace CommandLine

/-- The fault that an error of the system stands for. -/
def faultOf : IO.Error → FileFault
  | .noFileOrDirectory _ _ _ => .notFound
  | .alreadyExists _ _ _ => .alreadyExists
  | e => .other (toString e)

/-- Runs an action that may fail. -/
def attempted (action : IO α) : IO (Except FileFault α) := do
  try pure (.ok (← action)) catch e => pure (.error (faultOf e))

def kindOnDisk (path : String) : IO (Option FileKind) := do
  let place := System.mkFilePath [path]
  if path.isEmpty || !(← place.pathExists) then pure none
  else if ← place.isDir then pure (some .directory)
  else pure (some .file)

/-- Does what is wanted of a path, unless a directory stands there. -/
def unlessDirectory (path : String) (action : IO α) : IO (Except FileFault α) := do
  match ← kindOnDisk path with
  | some .directory => pure (.error .isDirectory)
  | _ => attempted action

/-- The real file system. -/
def disk : FileAccess IO where
  kind? := kindOnDisk
  names path := do
    let entries ← try (System.mkFilePath [path]).readDir catch _ => pure #[]
    pure ((entries.toList.map (·.fileName)).mergeSort (fun a b => decide (a ≤ b)))
  read path := unlessDirectory path do
    pure (← IO.FS.readBinFile path).toList
  write path bytes := unlessDirectory path (IO.FS.writeBinFile path ⟨bytes.toArray⟩)
  makeDirectories path := do
    match ← kindOnDisk path with
    | some .directory => pure (.ok ())
    | some .file => pure (.error .alreadyExists)
    | none => if path.isEmpty then pure (.ok ()) else attempted (IO.FS.createDirAll path)

def usage : String :=
  "Usage: typed-json schema --decl <DECL>... [--out <OUT>]\n" ++
  "       typed-json validate (--decl <DECL>... | --schema <SCHEMA>) --type <TYPE> --input <INPUT>...\n" ++
  "           [--ndjson] [--json-pointer <POINTER>] [--jq-expr <FILTER>]\n" ++
  "           [--min-severity hint|warning|error] [--format text|json] [--out <OUT>]"

def UsageFault.message : UsageFault → String
  | .missingArgument => "error: a required argument is missing"
  | .conflict => "error: two arguments cannot be used together"
  | .invalidValue => "error: an argument has no value, or an invalid one"
  | .tooManyValues => "error: an argument takes no value"
  | .unknownArgument => "error: unexpected argument"
  | .invalidSubcommand => "error: unrecognized subcommand"
  | .help | .helpForNothing => "Build schema graphs and validate JSON documents against them"
  | .version => "typed-json 0.1.0"

/-- Asking for help or for the version is no error. -/
def UsageFault.exit : UsageFault → UInt32
  | .help | .version => 0
  | _ => 2

def reportUsage (fault : UsageFault) : IO UInt32 := do
  match fault with
  | .version => IO.println fault.message
  | .help => IO.println (fault.message ++ "\n\n" ++ usage)
  | fault => IO.eprintln (fault.message ++ "\n\n" ++ usage)
  pure fault.exit

def runOnDisk (colour : Bool) (command : Command) : IO UInt32 := do
  if command.dryRun then IO.eprintln (reprStr command)
  match ← (command.run disk colour).run with
  | .ok result =>
    IO.print result.output
    pure result.exit.toUInt32
  | .error fault =>
    IO.eprintln ("error: " ++ fault.message)
    pure 2

end CommandLine
end TypedJson

open TypedJson TypedJson.CommandLine in
/-- Colours are shown on a terminal. -/
def main (args : List String) : IO UInt32 := do
  match Command.ofArguments args with
  | .error fault => reportUsage fault
  | .ok command => runOnDisk (← (← IO.getStdout).isTty) command
