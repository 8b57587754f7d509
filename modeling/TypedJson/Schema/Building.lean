import TypedJson.Types.Key
import TypedJson.Schema.Basic
/-!
# From types to schema nodes

One pass over the types builds one node per key.  A node gets its number, and its
key is noted, before its parts are built; so a type that refers to itself finds the
number of the node that is still being built.
-/
namespace TypedJson

/-- The keys met so far with the nodes that stand for them. -/
structure KeyTable where
  entries : Array (TypeKey × NodeId)

namespace KeyTable

def empty : KeyTable := ⟨#[]⟩

/-- The node of the first equal key. -/
def get? (t : KeyTable) (key : TypeKey) : Option NodeId :=
  (t.entries.find? fun entry => entry.1.isEqual key).map (·.2)

def insert (t : KeyTable) (key : TypeKey) (id : NodeId) : KeyTable := ⟨t.entries.push (key, id)⟩

end KeyTable

/-- The state of one pass: the types, the keys, and the nodes. -/
structure BuildState where
  types : Interner
  keys : KeyTable
  nodes : Array SchemaNode

abbrev Build := StateT BuildState Option

namespace BuildState

def start (types : Interner) : BuildState := ⟨types, .empty, #[]⟩

end BuildState

namespace Build

/-- A question about types within a pass. -/
def ask (m : Session α) : Build α := fun s =>
  match m s.types with
  | some (a, types) => some (a, { s with types })
  | none => none

/-- The node of a key, if the key was met before. -/
def known? (key : TypeKey) : Build (Option NodeId) := fun s => some (s.keys.get? key, s)

/-- Gives the key the next number and a placeholder for its node. -/
def allocate (key : TypeKey) : Build NodeId := fun s =>
  let id : NodeId := ⟨s.nodes.size⟩
  some (id, { s with keys := s.keys.insert key id, nodes := s.nodes.push .placeholder })

/-- Puts the finished node in its place. -/
def finishNode (id : NodeId) (n : SchemaNode) : Build Unit := fun s =>
  some ((), { s with nodes := s.nodes.setIfInBounds id.index n })

def outOfFuel : Build α := fun _ => none

end Build

namespace Universe

/-- The branches of a union; an enum counts as one piece. -/
def branches? (u : Universe) (s : Interner) (t : TypeId) : Option (List TypeId) :=
  if u.isEnum s t then none else s.union? t

/-- Collects the leaves of a type: the branches of unions within unions.  `leaves` and
`unions` hold what was met so far, latest first. -/
def collectLeaves (u : Universe) (s : Interner) :
    Nat → TypeId → List TypeId × List TypeId → List TypeId × List TypeId
  | 0, _, met => met
  | fuel + 1, t, (leaves, unions) =>
    match u.branches? s t with
    | some branches =>
      if unions.contains t then (leaves, unions)
      else branches.foldl (fun met b => u.collectLeaves s fuel b met) (leaves, t :: unions)
    | none => if leaves.contains t then (leaves, unions) else (t :: leaves, unions)

/-- The leaves of a type in the order in which they are met.  Each step of the walk
enters a union for the first time, so there are fewer steps than handles. -/
def leaves (u : Universe) (s : Interner) (t : TypeId) : List TypeId :=
  (u.collectLeaves s (s.slots.size + 1) t ([], [])).1.reverse

/-- The branches of the type are literals and nothing else. -/
def isLiteralUnion (s : Interner) (t : TypeId) : Bool :=
  match s.union? t with
  | some branches => branches.all fun b => (s.literal? b).isSome
  | none => false

/-- Only declared structures and records show their members as properties. -/
def hasProperties (s : Interner) (t : TypeId) (origin : Origin) (isEnum : Bool) : Bool :=
  !isEnum && !isLiteralUnion s t && (!origin.builtin || origin.name == "Record")

/-- The leaves that are neither literals nor `null`. -/
def realLeaves (s : Interner) (leaves : List TypeId) : List TypeId :=
  leaves.filter fun t => (s.literal? t).isNone && !s.isNull t

/-- The members that hold data, with their types. -/
def dataMembers (members : List TypeMember) : List (TypeMember × TypeId) :=
  members.filterMap fun m => m.type.map fun t => (m, t)

section Step

/-! One step of the pass calls itself for the parts of a type.  It does so in any monad
that has the pass within it. -/

variable {M : Type → Type} [Monad M] [MonadLiftT Build M]

open Build

/-- The properties and index signatures of the type. -/
def describeMembers (u : Universe) (fuel : Nat) (self : TypeId → M NodeId) (t : TypeId)
    (n : SchemaNode) : M SchemaNode := do
  let members ← ask (u.members fuel t)
  let properties ← (dataMembers members).mapM fun (m, type) => do
    pure (Property.mk m.name m.optional (← self type))
  let indexes ← ask (u.indexes fuel t)
  let indexes ← indexes.mapM fun x => do
    let keyType ← self x.key
    let valueType ← self x.value
    pure (IndexSignature.mk keyType valueType)
  pure { n with properties, indexes }

/-- The node with the name of the declaration, unless it is a builtin, and with the values
of an enum in the place of its literals. -/
def nameNode (u : Universe) (s : Interner) (t : TypeId) (origin : Origin) (n : SchemaNode) :
    SchemaNode :=
  let isEnum := decide (origin.kind = .enum)
  { n with
    name := if origin.builtin then n.name else some origin.name
    sourceLocation := if origin.builtin then n.sourceLocation else origin.location
    isEnum
    allowedValues := if isEnum then .ofList (u.enumValues s t) else n.allowedValues }

/-- Fills in what the declaration of the type, if it has one, says about the node. -/
def describeDeclared (u : Universe) (fuel : Nat) (self : TypeId → M NodeId) (s : Interner)
    (t : TypeId) (n : SchemaNode) : Option Origin → M SchemaNode
  | none => pure n
  | some origin =>
    let n := u.nameNode s t origin n
    if hasProperties s t origin n.isEnum then u.describeMembers fuel self t n
    else pure n

/-- The branches of the union: the real leaves, unless the type is its only one. -/
def unionNodes (self : TypeId → M NodeId) (t : TypeId) (real : List TypeId) : M (List NodeId) :=
  if real = [t] then pure [] else real.mapM self

def elementNode (self : TypeId → M NodeId) : Option TypeId → M (Option NodeId)
  | some element => some <$> self element
  | none => pure none

/-- The node of a type whose leaves are known. -/
def describe (u : Universe) (fuel : Nat) (self : TypeId → M NodeId) (t : TypeId)
    (leaves : List TypeId) : M SchemaNode := do
  let displayName ← ask (u.display fuel t)
  let s ← ask (Session.query id)
  let unionOf ← unionNodes self t (realLeaves s leaves)
  let arrayOf ← elementNode self (s.element? t)
  let n := { SchemaNode.plain displayName with
    isNullable := leaves.any s.isNull
    allowedValues := .ofList (leaves.filterMap s.literal?)
    unionOf, arrayOf }
  let s ← ask (Session.query id)
  let n ← u.describeDeclared fuel self s t n (u.originOf? s t)
  let nullable ← ask (Session.query (·.isNullable t))
  pure { n with isNullable := n.isNullable || nullable }

/-- The node of a type, built unless its key is known. -/
def buildStep (u : Universe) (fuel : Nat) (self : TypeId → M NodeId) (t : TypeId) :
    M NodeId := do
  let leaves ← ask (Session.query (u.leaves · t))
  let key ← ask (u.keyOfBranches fuel leaves)
  match ← known? key with
  | some id => pure id
  | none =>
    let id ← allocate key
    let n ← u.describe fuel self t leaves
    finishNode id n
    pure id

end Step

/-- The node of a type with the nodes of its parts. -/
def buildNode (u : Universe) : Nat → TypeId → Build NodeId
  | 0, _ => Build.outOfFuel
  | fuel + 1, t => u.buildStep fuel (u.buildNode fuel) t

/-- The nodes of several types in turn. -/
def buildNodes (u : Universe) (fuel : Nat) (ts : List TypeId) : Build (List NodeId) :=
  ts.mapM (u.buildNode fuel)

/-- The schema of the exported declarations. -/
def schemaFrom? (u : Universe) (fuel : Nat) (types : Interner) : Option Schema := do
  let (exported, types) ← u.exportedTypes fuel types
  let (_, state) ← u.buildNodes fuel exported (.start types)
  pure (.ofNodes state.nodes)

def schema? (u : Universe) (fuel : Nat) : Option Schema := u.schemaFrom? fuel u.start

end Universe
end TypedJson
