import TypedJson.Schema.Describe
import TypedJson.Basic
/-!
# Type references

A reference names a type as a user writes it: `Order`, `models/Order` with a part of
the place of its declaration, a primitive such as `number`, or any of these with
array brackets behind it.  Primitives and arrays have no node in the schema, so a
resolved reference carries nodes of its own, numbered on from those of the schema.
-/
namespace TypedJson

/-- A schema with further nodes behind its own, and the node that is meant. -/
structure Resolved where
  schema : Schema
  synthetic : List SchemaNode
  root : NodeId

namespace Resolved

def size (r : Resolved) : Nat := r.schema.size + r.synthetic.length

def node (r : Resolved) (id : NodeId) : SchemaNode :=
  if id.index < r.schema.size then r.schema.node id
  else r.synthetic.getD (id.index - r.schema.size) .placeholder

def table (r : Resolved) : NodeTable := ⟨r.size, r.node⟩

def rootNode (r : Resolved) : SchemaNode := r.node r.root

/-- Adds a node and makes it the root. -/
def push (r : Resolved) (n : SchemaNode) : Resolved :=
  { r with synthetic := r.synthetic ++ [n], root := ⟨r.size⟩ }

/-- The array type over the root. -/
def wrap (r : Resolved) : Resolved :=
  r.push { SchemaNode.plain (r.rootNode.displayName ++ "[]") with arrayOf := some r.root }

end Resolved

namespace Reference

def primitives : List String :=
  ["number", "string", "boolean", "bigint", "Date", "RegExp", "undefined", "null"]

/-- Splits a text at its last slash. -/
def splitSlash? (cs : List Char) : Option (List Char × List Char) :=
  let behind := cs.reverse.takeWhile (· != '/')
  match cs.reverse.drop behind.length with
  | [] => none
  | _ :: front => some (front.reverse, behind.reverse)

/-- The qualifier, if there is one that is not blank, and the name. -/
def parts (reference : String) : Option String × String :=
  match splitSlash? reference.toList with
  | none => (none, Text.trimmed reference)
  | some (front, name) =>
    let qualifier := Text.trim front
    (if qualifier.isEmpty then none else some (String.ofList qualifier),
      String.ofList (Text.trim name))

/-- Takes array brackets off the end of a text, with the blanks in and around them. -/
def dropBrackets? (cs : List Char) : Option (List Char) :=
  match cs.reverse.dropWhile Text.isBlank with
  | ']' :: rest =>
    match rest.dropWhile Text.isBlank with
    | '[' :: rest =>
      let base := (rest.dropWhile Text.isBlank).reverse
      if base.contains '\n' then none else some base
    | _ => none
  | _ => none

theorem length_dropBrackets? {cs base : List Char} (h : dropBrackets? cs = some base) :
    base.length < cs.length := by
  unfold dropBrackets? at h
  have drop_le (l : List Char) : (l.dropWhile Text.isBlank).length ≤ l.length :=
    (List.dropWhile_sublist _).length_le
  split at h
  · rename_i rest h1
    split at h
    · rename_i rest' h2
      have l1 := drop_le cs.reverse
      have l2 := drop_le rest
      have l3 := drop_le rest'
      rw [h1] at l1
      rw [h2] at l2
      simp only [List.length_cons, List.length_reverse] at l1 l2
      dsimp only at h
      split at h
      · cases h
      · cases h
        simp only [List.length_reverse]
        omega
    · cases h
  · cases h

/-- The node that the reference names without array brackets. -/
def direct? (s : Schema) (reference : String) : Option Resolved :=
  let (qualifier, name) := parts reference
  if primitives.contains name then
    some (Resolved.push ⟨s, [], ⟨0⟩⟩
      { SchemaNode.plain name with isNullable := name == "null" })
  else (s.find? name qualifier).map fun id => ⟨s, [], id⟩

/-- What a reference stands for: itself, or an array over what is left without its
last pair of brackets. -/
def resolveChars? (s : Schema) (cs : List Char) : Option Resolved :=
  match direct? s (String.ofList cs) with
  | some r => some r
  | none =>
    match _h : dropBrackets? cs with
    | some base => (resolveChars? s base).map (·.wrap)
    | none => none
termination_by cs.length
decreasing_by exact length_dropBrackets? _h

def resolve? (s : Schema) (reference : String) : Option Resolved :=
  resolveChars? s reference.toList

end Reference
end TypedJson
