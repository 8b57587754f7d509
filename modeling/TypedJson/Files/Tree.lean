import TypedJson.Files.Access
/-!
# File trees in memory

A tree is the files below one working directory, each under the names that lead to it;
a directory exists because something is in it or because it was made.  Nothing is
known of what lies outside, so neither absolute paths nor those that climb out lead
anywhere.
-/
namespace TypedJson

structure FileTree where
  files : List (List String × Bytes)
  directories : List (List String)

namespace FileTree

def empty : FileTree := ⟨[], []⟩

def contents? (t : FileTree) (names : List String) : Option Bytes :=
  (t.files.find? (·.1 == names)).map (·.2)

def isDirectory (t : FileTree) (names : List String) : Bool :=
  names.isEmpty || t.directories.any names.isPrefixOf ||
    t.files.any fun f => names.isPrefixOf f.1 && names.length < f.1.length

def kind? (t : FileTree) (names : List String) : Option FileKind :=
  if t.isDirectory names then some .directory
  else if (t.contents? names).isSome then some .file
  else none

/-- The names that lead on from a directory, in alphabetical order. -/
def namesIn (t : FileTree) (names : List String) : List String :=
  let entries := (t.files.map (·.1) ++ t.directories).filterMap fun path =>
    if names.isPrefixOf path then (path.drop names.length).head? else none
  entries.eraseDups.mergeSort (fun a b => decide (a ≤ b))

/-- Puts a file in its place, or into the place of the file that is there. -/
def put (t : FileTree) (names : List String) (bytes : Bytes) : FileTree :=
  { t with files := (names, bytes) :: t.files.filter (·.1 != names) }

/-! ## Paths -/

/-- Walks on from a directory, part by part.  Whatever follows a name, be it empty, needs
a directory there. -/
def walk (t : FileTree) : List String → List String → Except FileFault (List String)
  | here, [] => .ok here
  | here, part :: rest =>
    match t.kind? here with
    | none => .error .notFound
    | some .file => .error .notDirectory
    | some .directory =>
      if part = "" ∨ part = "." then walk t here rest
      else if part = ".." then
        if here.isEmpty then .error .notFound else walk t here.dropLast rest
      else walk t (here ++ [part]) rest

/-- The names that a path leads to; the last of them may not be there. -/
def locate (t : FileTree) (path : String) : Except FileFault (List String) :=
  if path.isEmpty || path.startsWith "/" then .error .notFound
  else t.walk [] (path.splitOn "/")

def lookup (t : FileTree) (path : String) : Option (List String × FileKind) :=
  match t.locate path with
  | .ok names => (t.kind? names).map fun k => (names, k)
  | .error _ => none

def read (t : FileTree) (path : String) : Except FileFault Bytes := do
  let names ← t.locate path
  match t.kind? names, t.contents? names with
  | some .directory, _ => .error .isDirectory
  | some .file, some bytes => .ok bytes
  | _, _ => .error .notFound

/-- A path that ends in a separator can only be a directory. -/
def write (t : FileTree) (path : String) (bytes : Bytes) : Except FileFault FileTree := do
  let named := String.ofList (path.toList.reverse.dropWhile (· == '/')).reverse
  let names ← t.locate named
  match t.kind? names with
  | some .directory => .error .isDirectory
  | some .file => if named = path then .ok (t.put names bytes) else .error .notDirectory
  | none => if named = path then .ok (t.put names bytes) else .error .isDirectory

/-- Makes the directories that are missing on the way. -/
def makeFrom : FileTree → List String → List String → Except FileFault FileTree
  | t, _, [] => .ok t
  | t, here, part :: rest =>
    if part = "" ∨ part = "." then makeFrom t here rest
    else if part = ".." then
      if here.isEmpty then .error .notFound else makeFrom t here.dropLast rest
    else
      let next := here ++ [part]
      match t.kind? next with
      | some .directory => makeFrom t next rest
      | some .file => .error (if rest.isEmpty then .alreadyExists else .notDirectory)
      | none => makeFrom { t with directories := next :: t.directories } next rest

def makeDirectories (t : FileTree) (path : String) : Except FileFault FileTree :=
  if path.startsWith "/" then .error .notFound
  else makeFrom t [] (path.splitOn "/")

/-- The commands' access to a tree, which they may change. -/
def access : FileAccess (StateM FileTree) where
  kind? path := do pure ((← get).lookup path |>.map (·.2))
  names path := do
    let t ← get
    pure (match t.lookup path with | some (names, _) => t.namesIn names | none => [])
  read path := do pure ((← get).read path)
  write path bytes := do
    match (← get).write path bytes with
    | .ok t => set t; pure (.ok ())
    | .error e => pure (.error e)
  makeDirectories path := do
    match (← get).makeDirectories path with
    | .ok t => set t; pure (.ok ())
    | .error e => pure (.error e)

end FileTree
end TypedJson
