import TypedJson.Schema.Basic
import TypedJson.Basic
import TypedJson.Text.Word
/-!
# What a node says as a whole

Two questions look further than one node: whether `null` is admitted, here or in a
branch of a union, and how the type is described with its arrays and unions spelled
out.  Both walk the table from node to node without entering one twice on their way,
so the size of the table bounds their depth.
-/
namespace TypedJson
namespace NodeTable

/-- The node or a node behind its union branches has the property.  Each step of the
search looks at a node for the first time, so there are fewer steps than nodes. -/
def anyBranch (t : NodeTable) (p : SchemaNode → Bool) (id : NodeId) : Bool :=
  (search (fun a => (t.node a).unionOf) (fun a => p (t.node a)) (t.size + 1) id []).1

/-- `null` is admitted here or through a branch of a union. -/
def isNullable (t : NodeTable) (id : NodeId) : Bool := t.anyBranch (·.isNullable) id

/-- Strips closing pairs of brackets, given in reverse. -/
def dropBrackets : List Char → List Char
  | ']' :: '[' :: rest => dropBrackets rest
  | cs => cs

/-- A word, possibly with array brackets behind it. -/
def isSimpleText (s : String) : Bool :=
  let word := dropBrackets s.toList.reverse
  !word.isEmpty && word.all Text.isWord

def arrayText (inner : String) : String :=
  if isSimpleText inner then inner ++ "[]" else "(" ++ inner ++ ")[]"

/-- The description of a node; `stack` holds the nodes around it. -/
def describeWithin (t : NodeTable) : Nat → List NodeId → NodeId → String
  | 0, _, id => (t.node id).displayName
  | fuel + 1, stack, id =>
    let n := t.node id
    if stack.contains id then n.displayName
    else
      match n.arrayOf, n.unionOf with
      | some item, _ => arrayText (t.describeWithin fuel (id :: stack) item)
      | none, [] => n.displayName
      | none, branches =>
        let arms := branches.map (t.describeWithin fuel (id :: stack))
          ++ n.allowedValues.values.map (·.text)
          ++ (if n.isNullable then ["null"] else [])
        " | ".intercalate arms

/-- The text of a type with its arrays and unions spelled out. -/
def describe (t : NodeTable) (id : NodeId) : String := t.describeWithin (t.size + 1) [] id

end NodeTable
end TypedJson
