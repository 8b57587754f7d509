import TypedJson.Schema.Basic
import TypedJson.LoadError
/-!
# The file format of schemas

A schema is written with its list of types and its nodes; what is empty or false in
a node is left out.  Reading refuses a reference to a node that does not exist.
-/
namespace TypedJson

namespace NodeId

def toJson (id : NodeId) : Json := .nat id.index

def decode : Decoder NodeId := fun path d => (Decode.word32 path d).map NodeId.mk

end NodeId

namespace LiteralSet

def decode : Decoder LiteralSet := fun path d =>
  (Decode.listOf "a set" Literal.decode path d).map ofList

end LiteralSet

/-- A member of an object, unless the value is left out. -/
def Json.optionalMember (name : String) (value : Option Json) : List (String × Json) :=
  match value with
  | some j => [(name, j)]
  | none => []

/-- A flag is written only if it is set. -/
def Json.flagMember (name : String) (value : Bool) : List (String × Json) :=
  if value then [(name, .bool true)] else []

/-- A list is written only if it has items. -/
def Json.listMember (name : String) (items : List Json) : List (String × Json) :=
  if items.isEmpty then [] else [(name, .array items)]

namespace Property

def toJson (p : Property) : Json :=
  .object ([("name", .string p.name)] ++ Json.flagMember "isOptional" p.isOptional ++
    [("type", p.type.toJson)])

def record : Decode.Record Property :=
  { name := "PropInfo"
    fields := ["name", "isOptional", "type"]
    take := fun i path d =>
      match i with
      | 0 => (Decode.string path d).map fun v p => { p with name := v }
      | 1 => (Decode.bool path d).map fun v p => { p with isOptional := v }
      | _ => (NodeId.decode path d).map fun v p => { p with type := v } }

def decode : Decoder Property := record.decode [0, 2] ⟨"", false, ⟨0⟩⟩

end Property

namespace IndexSignature

def toJson (x : IndexSignature) : Json :=
  .object [("keyType", x.keyType.toJson), ("valueType", x.valueType.toJson)]

def record : Decode.Record IndexSignature :=
  { name := "IndexInfo"
    fields := ["keyType", "valueType"]
    take := fun i path d =>
      match i with
      | 0 => (NodeId.decode path d).map fun v x => { x with keyType := v }
      | _ => (NodeId.decode path d).map fun v x => { x with valueType := v } }

def decode : Decoder IndexSignature := record.decode [0, 1] ⟨⟨0⟩, ⟨0⟩⟩

end IndexSignature

namespace SchemaNode

def toJson (n : SchemaNode) : Json :=
  .object (
    Json.optionalMember "name" (n.name.map .string) ++
    [("displayName", .string n.displayName)] ++
    Json.flagMember "isNullable" n.isNullable ++
    Json.flagMember "isEnum" n.isEnum ++
    Json.listMember "allowedValues" (n.allowedValues.values.map (·.toJson)) ++
    Json.optionalMember "arrayOf" (n.arrayOf.map (·.toJson)) ++
    Json.listMember "unionOf" (n.unionOf.map (·.toJson)) ++
    Json.listMember "properties" (n.properties.map (·.toJson)) ++
    Json.listMember "indexes" (n.indexes.map (·.toJson)) ++
    Json.optionalMember "sourceLocation" (n.sourceLocation.map .string))

def record : Decode.Record SchemaNode :=
  { name := "SchemaNode"
    fields := ["name", "displayName", "isNullable", "isEnum", "allowedValues", "arrayOf",
      "unionOf", "properties", "indexes", "sourceLocation"]
    take := fun i path d =>
      match i with
      | 0 => (Decode.optional Decode.string path d).map fun v n => { n with name := v }
      | 1 => (Decode.string path d).map fun v n => { n with displayName := v }
      | 2 => (Decode.bool path d).map fun v n => { n with isNullable := v }
      | 3 => (Decode.bool path d).map fun v n => { n with isEnum := v }
      | 4 => (LiteralSet.decode path d).map fun v n => { n with allowedValues := v }
      | 5 => (Decode.optional NodeId.decode path d).map fun v n => { n with arrayOf := v }
      | 6 => (Decode.list NodeId.decode path d).map fun v n => { n with unionOf := v }
      | 7 => (Decode.list Property.decode path d).map fun v n => { n with properties := v }
      | 8 => (Decode.list IndexSignature.decode path d).map fun v n => { n with indexes := v }
      | _ => (Decode.optional Decode.string path d).map fun v n => { n with sourceLocation := v } }

def decode : Decoder SchemaNode := record.decode [1] .placeholder

end SchemaNode

namespace Schema

def toJson (s : Schema) : Json :=
  .object [("types", .array (s.types.map (·.toJson))),
    ("nodes", .array (s.nodes.toList.map (·.toJson)))]

def record : Decode.Record Schema :=
  { name := "RawSchema"
    fields := ["types", "nodes"]
    take := fun i path d =>
      match i with
      | 0 => (Decode.list NodeId.decode path d).map fun v s => { s with types := v }
      | _ => (Decode.list SchemaNode.decode path d).map fun v s => { s with nodes := v.toArray } }

/-- The decoder of a schema, which has to refer to its own nodes only. -/
def decode : Decoder Schema := fun path d => do
  let s ← record.decode [1] ⟨[], #[]⟩ path d
  match s.dangling? with
  | some (owner, target) => Decode.fail path (.missingNode owner.index target.index)
  | none => pure s

def ofText (text : String) : Except LoadError Schema := loadText decode text

end Schema
end TypedJson
