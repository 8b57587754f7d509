import TypedJson.Types.Interner
import TypedJson.LoadError
import TypedJson.Declaration.Decoding
/-!
# The declared names

A `Universe` is a list of source units in which no unit declares a name twice.
Several units may declare the same name: `Universe.find?` prefers the unit that asks
and then the first unit of all.
-/
namespace TypedJson

/-- The names that a unit declares, in order. -/
def SourceUnit.names (unit : SourceUnit) : List String := unit.declarations.map (·.name)

structure Universe where
  units : List SourceUnit
  distinct : ∀ unit ∈ units, unit.names.Nodup

/-- The first name that the list holds for the second time. -/
def firstRepeated? : List String → List String → Option String
  | _, [] => none
  | before, n :: rest => if before.contains n then some n else firstRepeated? (n :: before) rest

/-- The first repeated name of the first unit that repeats one, and its file. -/
def firstDuplicate? : List SourceUnit → Option (String × String)
  | [] => none
  | unit :: rest =>
    match firstRepeated? [] unit.names with
    | some n => some (n, unit.file)
    | none => firstDuplicate? rest

namespace Universe

def ofUnits (units : List SourceUnit) : Except LoadError Universe :=
  if h : ∀ unit ∈ units, unit.names.Nodup then .ok ⟨units, h⟩
  else
    let duplicate := (firstDuplicate? units).getD ("", "")
    .error (.duplicateDeclaration duplicate.1 duplicate.2)

/-- Loads the declarations of one text. -/
def ofText (text : String) : Except LoadError Universe := do
  ofUnits (← loadText SourceUnit.decodeFile text)

/-- Loads the declarations of several files, of which the first faulty one counts. -/
def ofFiles (contents : List (Except FileFault Bytes)) : Except LoadError Universe := do
  ofUnits (← contents.mapM (loadFile SourceUnit.decodeFile)).flatten

def declaration? (u : Universe) (id : DeclarationId) : Option Declaration :=
  (u.units[id.unit]?).bind fun unit => unit.declarations[id.index]?

def file (u : Universe) (unit : Nat) : String :=
  match u.units[unit]? with
  | some unit => unit.file
  | none => ""

/-- All declarations in source order. -/
def declarations (u : Universe) : List (DeclarationId × Declaration) :=
  u.units.zipIdx.flatMap fun (unit, i) =>
    unit.declarations.zipIdx.map fun (d, j) => (⟨i, j⟩, d)

/-- The declaration that a name means in a unit. -/
def find? (u : Universe) (name : String) (unit : Nat) : Option DeclarationId :=
  let candidates := (u.declarations.filter (·.2.name == name)).map (·.1)
  (candidates.find? (·.unit == unit)) <|> candidates.head?

/-- The table of types before anything is asked: the type parameters of the generic
declarations. -/
def start (u : Universe) : Interner :=
  u.declarations.foldl
    (fun s (id, d) =>
      (List.range d.typeParams.length).foldl
        (fun s position => (s.intern (.param (.param id position))).2) s)
    Interner.empty

/-! ## Names and places -/

def symbolName (u : Universe) : Symbol → String
  | .builtin b => b.name
  | .declared id => ((u.declaration? id).map (·.name)).getD ""
  | .param id position => ((u.declaration? id).bind (·.typeParams[position]?)).getD ""
  | .anonymous _ => "__type"

def DeclarationBody.kind : DeclarationBody → DeclarationKind
  | .interface _ _ _ => .interface
  | .typeAlias _ => .typeAlias
  | .enum _ => .enum

/-- A declaration is found in its file, at its line if that is known. -/
def location (u : Universe) (id : DeclarationId) (d : Declaration) : String :=
  match d.line with
  | some line => u.file id.unit ++ ":" ++ toString line
  | none => u.file id.unit

/-- The declaration behind a symbol; parameters and anonymous objects have none. -/
def origin? (u : Universe) : Symbol → Option Origin
  | .declared id =>
    (u.declaration? id).map fun d =>
      { name := d.name, kind := DeclarationBody.kind d.body
        location := some (u.location id d), builtin := false }
  | .builtin b =>
    some { name := b.name, kind := if b = .record then .typeAlias else .interface
           location := none, builtin := true }
  | .param _ _ | .anonymous _ => none

end Universe
end TypedJson
