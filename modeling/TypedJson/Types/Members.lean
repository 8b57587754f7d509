import TypedJson.Types.Query
/-!
# Members and index signatures

An interface has its own members first and then those of its bases, an intersection
those of its parts; of two members with one name the first counts.  Index signatures
are joined without that rule.  Both lists are computed once per type.  While a list is
being computed the type counts as empty, so a base that extends itself adds nothing.
-/
namespace TypedJson
namespace Universe

open Session

/-- Adds the members whose names are not there yet. -/
def mergeMembers (members more : List TypeMember) : List TypeMember :=
  more.foldl (fun out m => if out.any (·.name == m.name) then out else out ++ [m]) members

/-- The type of a member, unless it is a method. -/
def memberType (self : Resolver) (scope : Scope) (m : Member) : Session (Option TypeId) :=
  match m.method, m.type with
  | false, some expr => some <$> self scope expr
  | _, _ => pure none

def resolveMembers (self : Resolver) (scope : Scope) (members : List Member) :
    Session (List TypeMember) :=
  members.mapM fun m => do pure ⟨m.name, m.optional, ← memberType self scope m⟩

def resolveIndexes (self : Resolver) (scope : Scope) (indexes : List Index) :
    Session (List TypeIndex) :=
  indexes.mapM fun x => do
    let key ← self scope x.key
    let value ← self scope x.value
    pure ⟨key, value⟩

/-- The names that the keys of a record are limited to, if its key type is a string
literal or a union of them. -/
def literalKeys? (s : Interner) (key : TypeId) : Option (List String) :=
  ((s.union? key).getD [key]).mapM fun b =>
    match s.literal? b with
    | some (.str name) => some name
    | _ => none

/-- The interface behind a type: where it stands, its scope, and what it consists of. -/
def interface? (u : Universe) : TypeData → Option (Scope × List TypeExpr × List Member × List Index)
  | .form (.reference ⟨.declared id, args⟩) =>
    match u.declaration? id with
    | some { body := .interface bases members indexes, typeParams, .. } =>
      some (⟨id.unit, typeParams.zip args⟩, bases, members, indexes)
    | _ => none
  | _ => none

/-- The members of the bases or parts, merged in order into those at hand. -/
def mergeAll (lists : List (List TypeMember)) (members : List TypeMember) : List TypeMember :=
  lists.foldl mergeMembers members

def computeMembers (u : Universe) (self : Resolver) (membersOf : TypeId → Session (List TypeMember))
    (t : TypeId) : Session (List TypeMember) := do
  let data ← query (·.data t)
  match u.interface? data with
  | some (scope, bases, members, _) =>
    let own ← resolveMembers self scope members
    let inherited ← bases.mapM fun base => do membersOf (← self scope base)
    pure (mergeAll inherited own)
  | none =>
    match data with
    | .object _ (.literal members _ scope) => resolveMembers self scope members
    | .object _ (.intersection parts) => do pure (mergeAll (← parts.mapM membersOf) [])
    | .object _ (.record key value) =>
      let names ← query fun s => (literalKeys? s key).getD []
      pure (names.map fun name => ⟨name, false, some value⟩)
    | _ => pure []

/-- The members of a type in order. -/
def members (u : Universe) : Nat → TypeId → Session (List TypeMember)
  | 0, _ => outOfFuel
  | fuel + 1, t => do
    match ← query (·.members? t) with
    | some ms => pure ms
    | none =>
      update (·.setMembers t [])
      let ms ← u.computeMembers (u.resolve fuel) (u.members fuel) t
      update (·.setMembers t ms)
      pure ms

def computeIndexes (u : Universe) (self : Resolver) (indexesOf : TypeId → Session (List TypeIndex))
    (t : TypeId) : Session (List TypeIndex) := do
  let data ← query (·.data t)
  match u.interface? data with
  | some (scope, bases, _, indexes) =>
    let own ← resolveIndexes self scope indexes
    let inherited ← bases.mapM fun base => do indexesOf (← self scope base)
    pure (own ++ inherited.flatten)
  | none =>
    match data with
    | .object _ (.literal _ indexes scope) => resolveIndexes self scope indexes
    | .object _ (.intersection parts) => do pure (← parts.mapM indexesOf).flatten
    | .object _ (.record key value) =>
      match ← query (literalKeys? · key) with
      | some _ => pure []
      | none => pure [⟨key, value⟩]
    | _ => pure []

/-- The index signatures of a type in order. -/
def indexes (u : Universe) : Nat → TypeId → Session (List TypeIndex)
  | 0, _ => outOfFuel
  | fuel + 1, t => do
    match ← query (·.indexes? t) with
    | some is => pure is
    | none =>
      update (·.setIndexes t [])
      let is ← u.computeIndexes (u.resolve fuel) (u.indexes fuel) t
      update (·.setIndexes t is)
      pure is

end Universe
end TypedJson
