import TypedJson.Files.Bytes
import TypedJson.LoadError
/-!
# Access to files

What the commands need of a file system, as a record of operations, so that the same
commands run on the real one and on a `FileTree`.
-/
namespace TypedJson

inductive FileKind
  | file
  | directory
  deriving DecidableEq

structure FileAccess (m : Type → Type) where
  /-- What stands at a path, if anything. -/
  kind? : String → m (Option FileKind)
  /-- The names in a directory, in alphabetical order. -/
  names : String → m (List String)
  read : String → m (Except FileFault Bytes)
  write : String → Bytes → m (Except FileFault Unit)
  /-- Makes a directory, and first those that lead to it. -/
  makeDirectories : String → m (Except FileFault Unit)

namespace FileAccess

def isDirectory [Monad m] (files : FileAccess m) (path : String) : m Bool := do
  pure ((← files.kind? path) == some .directory)

end FileAccess

namespace FilePath

/-- The path of an entry of a directory. -/
def join (directory name : String) : String :=
  if directory.toList.getLast? == some '/' then directory ++ name
  else directory ++ "/" ++ name

/-- The names in a path, without what stays in the same directory. -/
def names (path : String) : List String :=
  let parts := path.splitOn "/"
  (parts.take 1).filter (· != "") ++ (parts.drop 1).filter fun p => p != "" && p != "."

/-- What leads to the last name of a path; a path without names has no parent. -/
def parent? (path : String) : Option String :=
  let ns := names path
  if ns.isEmpty then none
  else some ((if path.startsWith "/" then "/" else "") ++ String.intercalate "/" ns.dropLast)

end FilePath
end TypedJson
