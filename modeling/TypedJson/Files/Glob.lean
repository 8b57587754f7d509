import TypedJson.Files.Access
/-!
# Patterns for file names

A pattern is read as a row of tokens: a plain character, `?` for any one, `*` for any
number, a set in brackets, and `**` for any number of directories, which must be a
whole part of a path.  `Glob.expand` lists the paths that the parts of a pattern lead
to, in alphabetical order, a directory before what is in it.
-/
namespace TypedJson
namespace Glob

/-- A range of characters, possibly of a single one. -/
structure CharRange where
  first : Char
  last : Char

def CharRange.contains (r : CharRange) (c : Char) : Bool := r.first ≤ c && c ≤ r.last

inductive Token
  | char (c : Char)
  | anyChar
  | anySequence
  | anyDirectories
  | anyOf (ranges : List CharRange)
  | anyExcept (ranges : List CharRange)

abbrev Pattern := List Token

inductive Fault
  | wildcards
  | recursion
  | range
  deriving DecidableEq

def Fault.message : Fault → String
  | .wildcards => "wildcards are either regular `*` or recursive `**`"
  | .recursion => "recursive wildcards must form a single path component"
  | .range => "invalid range pattern"

/-- What is wrong with a pattern, and at which of its characters. -/
structure PatternFault where
  position : Nat
  fault : Fault
  deriving DecidableEq

def PatternFault.message (f : PatternFault) : String :=
  "Pattern syntax error near position " ++ toString f.position ++ ": " ++ f.fault.message

/-! ## Reading -/

def readRanges : List Char → List CharRange
  | a :: '-' :: b :: rest => ⟨a, b⟩ :: readRanges rest
  | a :: rest => ⟨a, a⟩ :: readRanges rest
  | [] => []

/-- What stands before the first closing bracket, and behind it. -/
def untilBracket : List Char → Option (List Char × List Char)
  | [] => none
  | ']' :: rest => some ([], rest)
  | c :: rest => (untilBracket rest).map fun (inside, behind) => (c :: inside, behind)

/-- A set behind its opening bracket.  The first character of a set is never the end
of it. -/
def readSet : List Char → Option (Token × List Char)
  | '!' :: c :: rest =>
    (untilBracket rest).map fun (inside, behind) => (.anyExcept (readRanges (c :: inside)), behind)
  | ['!'] => none
  | c :: rest =>
    (untilBracket rest).map fun (inside, behind) => (.anyOf (readRanges (c :: inside)), behind)
  | [] => none

/-- Adds a wildcard for directories, unless it would follow another one. -/
def pushDirectories (tokens : Pattern) : Pattern :=
  match tokens with
  | .anyDirectories :: _ :: _ => tokens
  | tokens => .anyDirectories :: tokens

/-- Reads on at a position, behind a character if there is one; the tokens read so far
are in reverse. -/
def readFrom : Nat → Nat → Option Char → Pattern → List Char → Except PatternFault Pattern
  | _, _, _, read, [] => .ok read.reverse
  | 0, _, _, read, _ => .ok read.reverse
  | fuel + 1, i, before, read, c :: rest =>
    match c with
    | '?' => readFrom fuel (i + 1) (some c) (.anyChar :: read) rest
    | '*' =>
      let stars := (c :: rest).takeWhile (· == '*')
      let behind := (c :: rest).dropWhile (· == '*')
      if 2 < stars.length then .error ⟨i + 2, .wildcards⟩
      else if stars.length = 2 then
        if before.isSome && before != some '/' then .error ⟨i - 1, .recursion⟩
        else
          match behind with
          | '/' :: behind => readFrom fuel (i + 3) (some '/') (pushDirectories read) behind
          | [] => readFrom fuel (i + 2) (some '*') (pushDirectories read) []
          | _ => .error ⟨i + 2, .recursion⟩
      else readFrom fuel (i + 1) (some c) (.anySequence :: read) rest
    | '[' =>
      match readSet rest with
      | some (token, behind) =>
        readFrom fuel (i + 1 + (rest.length - behind.length)) (some ']') (token :: read) behind
      | none => .error ⟨i, .range⟩
    | c => readFrom fuel (i + 1) (some c) (.char c :: read) rest

def read (text : String) : Except PatternFault Pattern :=
  readFrom text.length 0 none [] text.toList

/-- Whether a text is meant as a pattern at all. -/
def isMeant (text : String) : Bool := text.toList.any ['*', '?', '[', '\x7b'].contains

/-! ## Matching -/

def Token.accepts : Token → Char → Bool
  | .char d, c => c == d
  | .anyOf ranges, c => ranges.any (·.contains c)
  | .anyExcept ranges, c => !ranges.any (·.contains c)
  | _, _ => true

/-- Whether some end of a list satisfies the condition. -/
def anySuffix (p : List Char → Bool) : List Char → Bool
  | [] => p []
  | c :: cs => p (c :: cs) || anySuffix p cs

def Pattern.covers : Pattern → List Char → Bool
  | [], name => name.isEmpty
  | .anySequence :: rest, name => anySuffix (Pattern.covers rest) name
  | .anyDirectories :: rest, name => anySuffix (Pattern.covers rest) name
  | _ :: _, [] => false
  | token :: rest, c :: cs => token.accepts c && Pattern.covers rest cs

def Token.plainChar? : Token → Option Char
  | .char c => some c
  | _ => none

/-- The name that a pattern without wildcards spells. -/
def literal? (p : Pattern) : Option String := (p.mapM Token.plainChar?).map String.ofList

def Token.isDirectories : Token → Bool
  | .anyDirectories => true
  | _ => false

def isRecursive (p : Pattern) : Bool := p.any Token.isDirectories

/-! ## Listing -/

/-- The parts of a pattern, one for each name, with what a path has to be at the end. -/
structure Plan where
  start : String
  parts : List Pattern
  directoryOnly : Bool

def Plan.read (text : String) : Except PatternFault Plan := do
  let _ ← Glob.read text
  let root := text.toList.takeWhile (· == '/')
  let parts := (String.ofList (text.toList.drop root.length)).splitOn "/"
  let parts := if parts.getLast? = some "" then parts.dropLast else parts
  pure {
    start := if root.isEmpty then "." else String.ofList root
    parts := ← parts.mapM Glob.read
    directoryOnly := text.endsWith "/" }

variable {m : Type → Type} [Monad m]

def joinTo (directory name : String) : String :=
  if directory == "." then name else FilePath.join directory name

/-- A list of lists one after another. -/
def concatM (f : α → m (List β)) : List α → m (List β)
  | [] => pure []
  | a :: rest => do
    let first ← f a
    pure (first ++ (← concatM f rest))

/-- The directories `..` and `.` are matched only by what begins with a dot. -/
def dotNames (p : Pattern) : List String :=
  match p with
  | .char '.' :: _ => ["..", "."].filter fun d => Pattern.covers p d.toList
  | _ => []

mutual

/-- The paths that patterns lead to from a directory.  No path is so long that the fuel
would run out. -/
def descend (files : FileAccess m) (directoryOnly : Bool) :
    Nat → List Pattern → String → m (List String)
  | 0, _, _ => pure []
  | _ + 1, [], _ => pure []
  | fuel + 1, p :: rest, path => do
    let inDirectory ← if path == "." then pure true else files.isDirectory path
    match literal? p with
    | some name =>
      let next := joinTo path name
      let there ← if name == "." || name == ".." then pure inDirectory
        else do pure (← files.kind? next).isSome
      if there then reach files directoryOnly fuel rest next else pure []
    | none =>
      if inDirectory then
        let dots ← concatM
          (fun name => reach files directoryOnly fuel rest (FilePath.join path name)) (dotNames p)
        let found ← concatM
          (fun name => visit files directoryOnly fuel (p :: rest) (joinTo path name) name)
          (← files.names path)
        pure (dots ++ found)
      else pure []

/-- Goes on from a path that a part has been found to lead to. -/
def reach (files : FileAccess m) (directoryOnly : Bool) :
    Nat → List Pattern → String → m (List String)
  | 0, _, _ => pure []
  | _ + 1, [], path => do
    if directoryOnly then
      if ← files.isDirectory path then pure [path] else pure []
    else pure [path]
  | fuel + 1, rest, path => descend files directoryOnly fuel rest path

/-- Matches an entry of a directory against the first of the patterns. -/
def visit (files : FileAccess m) (directoryOnly : Bool) :
    Nat → List Pattern → String → String → m (List String)
  | 0, _, _, _ => pure []
  | _ + 1, [], _, _ => pure []
  | fuel + 1, p :: rest, path, name => do
    if isRecursive p then
      let others := rest.dropWhile isRecursive
      let inside ← if ← files.isDirectory path
        then descend files directoryOnly fuel (p :: others) path else pure []
      match others with
      | [] => if ← files.isDirectory path then pure (path :: inside) else pure []
      | q :: more => pure ((← accept files directoryOnly fuel q more path name) ++ inside)
    else accept files directoryOnly fuel p rest path name

/-- Takes an entry whose name the pattern covers. -/
def accept (files : FileAccess m) (directoryOnly : Bool) :
    Nat → Pattern → List Pattern → String → String → m (List String)
  | 0, _, _, _, _ => pure []
  | fuel + 1, p, rest, path, name => do
    if Pattern.covers p name.toList then
      match rest with
      | [] => reach files directoryOnly fuel [] path
      | rest => if ← files.isDirectory path then descend files directoryOnly fuel rest path else pure []
    else pure []

end

/-- The paths that match a pattern. -/
def expand (files : FileAccess m) (plan : Plan) : m (List String) :=
  descend files plan.directoryOnly 8192 plan.parts plan.start

end Glob
end TypedJson
