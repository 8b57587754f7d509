import TypedJson.Literal
import TypedJson.Text.Lowercase
/-!
# Schemas

A schema is a table of nodes that refer to each other by number, so equal types
share a node and recursive types are plain references back.  `Schema.types` lists the
named nodes in the order of their names.
-/
namespace TypedJson

/-- The number of a node. -/
structure NodeId where
  index : Nat
  deriving DecidableEq

/-- Literals in the order in which they came, each of them once. -/
structure LiteralSet where
  values : List Literal
  nodup : values.Nodup

namespace LiteralSet

def empty : LiteralSet := ⟨[], List.nodup_nil⟩

instance : Inhabited LiteralSet := ⟨empty⟩

/-- Adds a literal at the end, unless it is there. -/
def insert (s : LiteralSet) (l : Literal) : LiteralSet :=
  if h : l ∈ s.values then s
  else ⟨s.values ++ [l], by
    rw [List.nodup_append]
    exact ⟨s.nodup, by simp, by
      intro a ha b hb hab
      simp only [List.mem_singleton] at hb
      exact h (hb ▸ hab ▸ ha)⟩⟩

def ofList (ls : List Literal) : LiteralSet := ls.foldl insert empty

def isEmpty (s : LiteralSet) : Bool := s.values.isEmpty

end LiteralSet

structure Property where
  name : String
  isOptional : Bool
  type : NodeId
  deriving DecidableEq

/-- The keys that fit the key type have values of the value type. -/
structure IndexSignature where
  keyType : NodeId
  valueType : NodeId
  deriving DecidableEq

structure SchemaNode where
  name : Option String
  displayName : String
  isNullable : Bool
  isEnum : Bool
  allowedValues : LiteralSet
  arrayOf : Option NodeId
  unionOf : List NodeId
  properties : List Property
  indexes : List IndexSignature
  sourceLocation : Option String

namespace SchemaNode

/-- A node with a text and nothing else. -/
def plain (displayName : String) : SchemaNode :=
  { name := none, displayName, isNullable := false, isEnum := false
    allowedValues := .empty, arrayOf := none, unionOf := [], properties := [], indexes := []
    sourceLocation := none }

/-- What stands in the table for a node that is not built yet. -/
def placeholder : SchemaNode := plain ""

instance : Inhabited SchemaNode := ⟨placeholder⟩

def property? (n : SchemaNode) (name : String) : Option Property :=
  n.properties.find? (·.name == name)

/-- The node admits literals and has no other shape. -/
def isLiteralOnly (n : SchemaNode) : Bool :=
  !n.allowedValues.isEmpty && n.arrayOf.isNone && n.properties.isEmpty && n.indexes.isEmpty

/-- The nodes that the node refers to, in order. -/
def references (n : SchemaNode) : List NodeId :=
  n.arrayOf.toList ++ n.unionOf ++ n.properties.map (·.type) ++
    n.indexes.flatMap fun x => [x.keyType, x.valueType]

end SchemaNode

/-- Nodes by number.  Numbers from `size` on stand for nothing. -/
structure NodeTable where
  size : Nat
  node : NodeId → SchemaNode

def NodeTable.ofArray (nodes : Array SchemaNode) : NodeTable :=
  ⟨nodes.size, fun id => nodes.getD id.index .placeholder⟩

/-- Every node of the table refers to nodes of the table only. -/
def NodeTable.Closed (t : NodeTable) : Prop :=
  ∀ id : NodeId, id.index < t.size → ∀ r ∈ (t.node id).references, r.index < t.size

structure Schema where
  types : List NodeId
  nodes : Array SchemaNode

namespace Schema

def size (s : Schema) : Nat := s.nodes.size

def isEmpty (s : Schema) : Bool := s.nodes.isEmpty

def table (s : Schema) : NodeTable := .ofArray s.nodes

def node (s : Schema) (id : NodeId) : SchemaNode := s.table.node id

def ids (s : Schema) : List NodeId := (List.range s.size).map NodeId.mk

/-- Names are sorted by their lower case and then by their exact spelling. -/
def nameLe (a b : String) : Bool :=
  let x := Text.lowercase a
  let y := Text.lowercase b
  decide (x < y) || (x == y && decide (a ≤ b))

/-- The schema of a finished table of nodes. -/
def ofNodes (nodes : Array SchemaNode) : Schema :=
  let named := nodes.toList.zipIdx.filterMap fun (n, i) => n.name.map fun name => (name, NodeId.mk i)
  { types := (named.mergeSort fun a b => nameLe a.1 b.1).map (·.2), nodes }

/-- The list `part` stands somewhere in the other. -/
def isWithin (part : List Char) : List Char → Bool
  | [] => part.isEmpty
  | c :: rest => part.isPrefixOf (c :: rest) || isWithin part rest

/-- The node was declared at a place whose text contains the qualifier. -/
def isAt (qualifier : Option String) (n : SchemaNode) : Bool :=
  match qualifier with
  | none => true
  | some q =>
    match n.sourceLocation with
    | some location => isWithin q.toList location.toList
    | none => false

/-- The first named node of that name at that place. -/
def find? (s : Schema) (name : String) (qualifier : Option String) : Option NodeId :=
  s.types.find? fun id => (s.node id).name == some name && isAt qualifier (s.node id)

/-- Every reference of the schema with the node that it belongs to; a type of the
list belongs to itself. -/
def references (s : Schema) : List (NodeId × NodeId) :=
  s.types.map (fun id => (id, id)) ++
    s.nodes.toList.zipIdx.flatMap fun (n, i) => n.references.map fun r => (⟨i⟩, r)

/-- The first reference to a node that does not exist. -/
def dangling? (s : Schema) : Option (NodeId × NodeId) :=
  s.references.find? fun r => decide (s.size ≤ r.2.index)

end Schema
end TypedJson
