import TypedJson.Proofs.Search
import TypedJson.Conformance.Check
/-!
# When a value conforms to a node

`NodeTable.Conforms` says which values a node stands for, by recursion on the value and
without modes, places or findings.  `null` conforms if a node behind the branches is
nullable.  Any other value conforms if it fits the node or one of its branches
(`conforms_iff_fits`).  What a node asks of a value that fits it depends on the first of
these that the node has: an element type; a listed literal equal to the value, or a
primitive display name; properties or index signatures.

The recursion is on the value and takes every smaller value with any node, so the definition
needs no fuel although the nodes of a table refer to one another in circles.  Branches are
the one step that does not make the value smaller; they are taken once, by `candidates`, and
not again from a branch, as the check does not open the branches of a branch either.  Only
for `null` the walk goes all the way.

`Conforms` is the definition that the results on verdicts and reports are stated with.  It is
written from the node alone: a reader can compare it with the text of a schema without
knowing in which order the check tries things.
-/
namespace TypedJson

/-- The display names that decide the check of a value whatever else the node holds. -/
def Scalar.primitiveNames : List String :=
  ["boolean", "string", "number", "bigint", "Date", "RegExp"]

theorem Scalar.displayName_cases (name : String) :
    (name = "boolean" ∨ name = "string" ∨ name = "number" ∨ name = "bigint") ∨ name = "Date" ∨
      name = "RegExp" ∨ (name ≠ "boolean" ∧ name ≠ "string" ∧ name ≠ "number" ∧ name ≠ "bigint" ∧
        name ≠ "Date" ∧ name ≠ "RegExp") := by
  tauto

/-- The value is of the primitive type of that name. -/
def Scalar.FitsName (name : String) (v : Json) : Prop :=
  matchesPrimitive name v = true ∨
  (name = "Date" ∧ (dateForm? v).isSome = true) ∨
  (name = "RegExp" ∧ (isTaggedPattern v = true ∨ ∃ s, v = .string s))

namespace SchemaNode

/-- The value is a listed literal or of the primitive type that the node is named for. -/
def FitsScalar (n : SchemaNode) (v : Json) : Prop :=
  (∃ l ∈ n.allowedValues.values, l.matchesValue v = true) ∨ Scalar.FitsName n.displayName v

/-- The node describes objects. -/
def IsStructure (n : SchemaNode) : Prop :=
  n.displayName ∉ Scalar.primitiveNames ∧ (n.properties ≠ [] ∨ n.indexes ≠ [])

/-- The node says something about the values that it stands for. -/
def HasShape (n : SchemaNode) : Prop :=
  n.allowedValues.values ≠ [] ∨ n.arrayOf ≠ none ∨ n.unionOf ≠ [] ∨ n.properties ≠ [] ∨
    n.indexes ≠ [] ∨ n.displayName ∈ Scalar.primitiveNames

instance (n : SchemaNode) : Decidable n.HasShape := by
  unfold HasShape
  infer_instance

/-- The nodes that the parts of a value are held against. -/
def checkedParts (n : SchemaNode) : List NodeId :=
  n.arrayOf.toList ++ n.properties.map (·.type) ++ n.indexes.map (·.valueType)

theorem mem_checkedParts_of_item {n : SchemaNode} {item : NodeId} (h : n.arrayOf = some item) :
    item ∈ n.checkedParts := by
  simp [checkedParts, h]

theorem mem_checkedParts_of_property {n : SchemaNode} {p : Property} (h : p ∈ n.properties) :
    p.type ∈ n.checkedParts :=
  List.mem_append_left _ (List.mem_append_right _ (List.mem_map_of_mem h))

theorem mem_checkedParts_of_signature {n : SchemaNode} {x : IndexSignature} (h : x ∈ n.indexes) :
    x.valueType ∈ n.checkedParts :=
  List.mem_append_right _ (List.mem_map_of_mem h)

end SchemaNode

theorem Json.sizeOf_item_lt {items : List Json} {j : Json} (h : j ∈ items) :
    sizeOf j < sizeOf (Json.array items) := by
  have h1 := List.sizeOf_lt_of_mem h
  have h2 : sizeOf (Json.array items) = 1 + sizeOf items := by simp
  omega

theorem Json.sizeOf_value_lt {members : List (String × Json)} {m : String × Json}
    (h : m ∈ members) : sizeOf m.2 < sizeOf (Json.object members) := by
  have h1 := List.sizeOf_lt_of_mem h
  have h2 : sizeOf m = 1 + sizeOf m.1 + sizeOf m.2 := rfl
  have h3 : sizeOf (Json.object members) = 1 + sizeOf members := by simp
  omega

theorem Json.mem_of_member? {α : Type} {name : String} {members : List (String × α)} {a : α}
    (h : Json.member? name members = some a) : (name, a) ∈ members := by
  obtain ⟨m, hm, rfl⟩ := Option.map_eq_some_iff.1 h
  have hname : m.1 = name := by simpa using List.find?_some hm
  rw [← hname]
  exact List.mem_of_find?_eq_some hm

namespace NodeTable

/-- The key type admits the key, itself or in a branch. -/
def AdmitsKey (t : NodeTable) (id : NodeId) (key : String) : Prop :=
  ∃ b, t.Reaches id b ∧ Check.nodeAdmits (t.node b) key = true

/-- The first index signature of the node whose key type admits the key. -/
def FirstAdmitting (t : NodeTable) (n : SchemaNode) (key : String) (x : IndexSignature) : Prop :=
  ∃ before after, n.indexes = before ++ x :: after ∧ t.AdmitsKey x.keyType key ∧
    ∀ y ∈ before, ¬ t.AdmitsKey y.keyType key

/-- The nodes that a value other than `null` is held against. -/
def candidates (t : NodeTable) (id : NodeId) : List NodeId := id :: (t.node id).unionOf

/-- The value conforms to the node. -/
def Conforms (t : NodeTable) (v : Json) (id : NodeId) : Prop :=
  match v with
  | .null => ∃ b, t.Reaches id b ∧ (t.node b).isNullable = true
  | .array items =>
    ∃ c ∈ t.candidates id, ∃ item, (t.node c).arrayOf = some item ∧
      ∀ j ∈ items, t.Conforms j item
  | .object members =>
    ∃ c ∈ t.candidates id, (t.node c).arrayOf = none ∧
      ((t.node c).FitsScalar (.object members) ∨
        ((t.node c).IsStructure ∧
          (∀ p ∈ (t.node c).properties,
            (Json.member? p.name members = none → p.isOptional = true) ∧
            ∀ j, Json.member? p.name members = some j → t.Conforms j p.type) ∧
          ∀ m ∈ members, (t.node c).property? m.1 = none →
            ∀ x, t.FirstAdmitting (t.node c) m.1 x → t.Conforms m.2 x.valueType))
  | v => ∃ c ∈ t.candidates id, (t.node c).arrayOf = none ∧ (t.node c).FitsScalar v
termination_by sizeOf v
decreasing_by
  · rename_i hj
    exact Json.sizeOf_item_lt hj
  · rename_i hj
    exact Json.sizeOf_value_lt (Json.mem_of_member? hj)
  · rename_i hm _ _
    exact Json.sizeOf_value_lt hm

/-- The members are those of an object with the properties and index signatures of the node. -/
def MembersConform (t : NodeTable) (n : SchemaNode) (members : List (String × Json)) : Prop :=
  (∀ p ∈ n.properties,
    (Json.member? p.name members = none → p.isOptional = true) ∧
    ∀ j, Json.member? p.name members = some j → t.Conforms j p.type) ∧
  ∀ m ∈ members, n.property? m.1 = none →
    ∀ x, t.FirstAdmitting n m.1 x → t.Conforms m.2 x.valueType

/-- The value fits the node itself, branches apart. -/
def Fits (t : NodeTable) (v : Json) (c : NodeId) : Prop :=
  match v with
  | .null => ∃ b, t.Reaches c b ∧ (t.node b).isNullable = true
  | .array items =>
    ∃ item, (t.node c).arrayOf = some item ∧ ∀ j ∈ items, t.Conforms j item
  | .object members =>
    (t.node c).arrayOf = none ∧
      ((t.node c).FitsScalar (.object members) ∨
        ((t.node c).IsStructure ∧ t.MembersConform (t.node c) members))
  | v => (t.node c).arrayOf = none ∧ (t.node c).FitsScalar v

theorem conforms_iff_fits (t : NodeTable) (v : Json) (id : NodeId) :
    t.Conforms v id ↔ ∃ c ∈ t.candidates id, t.Fits v c := by
  cases v with
  | null =>
    simp only [Conforms, Fits]
    constructor
    · rintro ⟨b, hb⟩
      exact ⟨id, List.mem_cons_self, b, hb⟩
    · rintro ⟨c, hc, b, hcb, hb⟩
      rcases List.mem_cons.1 hc with rfl | hc
      · exact ⟨b, hcb, hb⟩
      · exact ⟨b, .head hc hcb, hb⟩
  | array items => simp only [Conforms, Fits]
  | object members => simp only [Conforms, Fits, MembersConform]
  | bool | number | string => simp only [Conforms, Fits]

end NodeTable
end TypedJson
