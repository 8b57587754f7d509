import TypedJson.Json.Decoding
import TypedJson.Files.Bytes
/-!
# Why an input cannot be loaded

Building and checking never fail; only reading inputs does.
-/
namespace TypedJson

/-- What the file system can refuse. -/
inductive FileFault
  | notFound
  | alreadyExists
  | isDirectory
  | notDirectory
  | notText
  | other (text : String)
  deriving DecidableEq

def FileFault.message : FileFault → String
  | .notFound => "No such file or directory (os error 2)"
  | .alreadyExists => "File exists (os error 17)"
  | .isDirectory => "Is a directory (os error 21)"
  | .notDirectory => "Not a directory (os error 20)"
  | .notText => "stream did not contain valid UTF-8"
  | .other text => text

inductive LoadError
  | file (cause : FileFault)
  | json (error : DecodeError)
  | duplicateDeclaration (name file : String)

def LoadError.message : LoadError → String
  | .file cause => "IO error: " ++ cause.message
  | .json ⟨path, cause⟩ => "at JSON path " ++ path.text ++ " → " ++ cause.message
  | .duplicateDeclaration name unit => "duplicate declaration `" ++ name ++ "` in " ++ unit

/-- The message and, behind it, what caused it in turn. -/
def LoadError.causes : LoadError → List String
  | .file cause => [(LoadError.file cause).message, cause.message]
  | e => [e.message]

/-- Decodes the document at the front of a source; what follows it does not matter. -/
def loadSource (decode : Decoder α) (s : Source) : Except LoadError α :=
  match decode [] (Document.ofSource s) with
  | .ok a => .ok a
  | .error e => .error (.json e)

def loadText (decode : Decoder α) (text : String) : Except LoadError α :=
  loadSource decode (Source.ofString text)

/-- Decodes what was read of a file. -/
def loadFile (decode : Decoder α) (content : Except FileFault Bytes) : Except LoadError α :=
  match content with
  | .error fault => .error (.file fault)
  | .ok bytes => loadSource decode (Source.ofBytes bytes)

end TypedJson
