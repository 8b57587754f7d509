import TypedJson.Proofs.Coherence
import TypedJson.Proofs.Conformance
/-!
# The data of a type

`Universe.Inhabits` says which data a type stands for, by recursion on the data and in
terms of what the universe answers about the type: no node, no key and no text of a type
comes into it.  `null` belongs to a type if the type is nullable; any other value if it fits
one of the leaves of the type (`inhabits_iff_fits`).

The members and index signatures of a type are materialized when they are first asked for.
So they are asked for at one table and what they refer to is read off the table that the
questions leave behind (`Universe.Exposes`).
-/
namespace TypedJson

/-- An object key that a type without branches admits. -/
def Intrinsic.AdmitsKey (key : String) : Intrinsic → Prop
  | .string | .any | .unknown => True
  | .number => (Scalar.numericKey? key).isSome = true
  | _ => False

namespace Universe

variable {u : Universe} {s : Interner}

/-- The type is an interface, a declared object or intersection, or a record. -/
def IsStructure (u : Universe) : TypeData → Prop
  | .form (.reference inst) =>
    ∃ id d, inst.symbol = .declared id ∧ u.declaration? id = some d ∧
      DeclarationBody.kind d.body = .interface
  | .object (some _) _ => True
  | _ => False

/-- The leaf is the literal, or an enum with this value. -/
def Lists (u : Universe) (s : Interner) (r : TypeId) (value : Literal) : Prop :=
  s.literal? r = some value ∨ (u.isEnum s r = true ∧ value ∈ u.enumValues s r)

/-! ## Keys of objects

The key types of index signatures admit keys by their leaves, and the first signature that
admits a key decides about its value. -/

/-- The leaf admits the key, as a literal or as any text or number. -/
def LeafAdmits (u : Universe) (s : Interner) (r : TypeId) (key : String) : Prop :=
  (∃ value, u.Lists s r value ∧ Check.literalAdmits key value = true) ∨
  ∃ i, s.intrinsic? r = some i ∧ i.AdmitsKey key

/-- A leaf of the key type admits the key. -/
def AdmitsKey (u : Universe) (s : Interner) (t : TypeId) (key : String) : Prop :=
  ∃ r ∈ u.leaves s t, u.LeafAdmits s r key

/-- The first of the index signatures of which the key type admits the key. -/
def FirstAdmitting (u : Universe) (s : Interner) (is : List TypeIndex) (key : String)
    (x : TypeIndex) : Prop :=
  ∃ before after, is = before ++ x :: after ∧ u.AdmitsKey s x.key key ∧
    ∀ y ∈ before, ¬ u.AdmitsKey s y.key key

/-! ## Values

The recursion is on the value.  Leaves are taken once at each value, as the leaves of a leaf
are the leaf itself. -/

/-- The value equals the literal, is listed by the enum, or has the form of the primitive,
date or pattern that the leaf is. -/
def IsOfForm (u : Universe) (s : Interner) (v : Json) (r : TypeId) : Prop :=
  (∃ value, u.Lists s r value ∧ value.matchesValue v = true) ∨
  (∃ i, s.intrinsic? r = some i ∧ Scalar.matchesPrimitive i.name v = true) ∨
  (s.data r = .form (.reference ⟨.builtin .date, []⟩) ∧ (Scalar.dateForm? v).isSome = true) ∨
  (s.data r = .form (.reference ⟨.builtin .pattern, []⟩) ∧
    (Scalar.isTaggedPattern v = true ∨ ∃ text, v = .string text))

/-- Asked for the members and index signatures of the type, the universe answers with these
and leaves this table behind. -/
def Exposes (u : Universe) (s : Interner) (t : TypeId) (ms : List TypeMember)
    (is : List TypeIndex) (s' : Interner) : Prop :=
  ∃ fuel s₁, u.members fuel t s = some (ms, s₁) ∧ u.indexes fuel t s₁ = some (is, s')

/-- The value belongs to the type. -/
def Inhabits (u : Universe) (s : Interner) (v : Json) (t : TypeId) : Prop :=
  match v with
  | .null => s.isNullable t = true
  | .array items =>
    ∃ r ∈ u.leaves s t, ∃ element, s.element? r = some element ∧
      ∀ j ∈ items, u.Inhabits s j element
  | .object fields =>
    ∃ r ∈ u.leaves s t, u.IsOfForm s (.object fields) r ∨
      (u.IsStructure (s.data r) ∧ ∃ ms is s', u.Exposes s r ms is s' ∧
        (dataMembers ms ≠ [] ∨ is ≠ []) ∧
        (∀ m ∈ dataMembers ms,
          (Json.member? m.1.name fields = none → m.1.optional = true) ∧
          ∀ j, Json.member? m.1.name fields = some j → u.Inhabits s' j m.2) ∧
        ∀ f ∈ fields, (∀ m ∈ dataMembers ms, m.1.name ≠ f.1) →
          ∀ x, u.FirstAdmitting s' is f.1 x → u.Inhabits s' f.2 x.value)
  | v => ∃ r ∈ u.leaves s t, u.IsOfForm s v r
termination_by sizeOf v
decreasing_by
  · rename_i hj
    exact Json.sizeOf_item_lt hj
  · rename_i hj
    exact Json.sizeOf_value_lt (Json.mem_of_member? hj)
  · rename_i hf _ _
    exact Json.sizeOf_value_lt hf

/-- The fields are those of an object with these members and index signatures. -/
def FieldsFit (u : Universe) (s : Interner) (ms : List TypeMember) (is : List TypeIndex)
    (fields : List (String × Json)) : Prop :=
  (∀ m ∈ dataMembers ms,
    (Json.member? m.1.name fields = none → m.1.optional = true) ∧
    ∀ j, Json.member? m.1.name fields = some j → u.Inhabits s j m.2) ∧
  ∀ f ∈ fields, (∀ m ∈ dataMembers ms, m.1.name ≠ f.1) →
    ∀ x, u.FirstAdmitting s is f.1 x → u.Inhabits s f.2 x.value

/-- The value, other than `null`, fits the leaf. -/
def Fits (u : Universe) (s : Interner) (v : Json) (r : TypeId) : Prop :=
  match v with
  | .null => False
  | .array items => ∃ element, s.element? r = some element ∧ ∀ j ∈ items, u.Inhabits s j element
  | .object fields =>
    u.IsOfForm s (.object fields) r ∨
      (u.IsStructure (s.data r) ∧ ∃ ms is s', u.Exposes s r ms is s' ∧
        (dataMembers ms ≠ [] ∨ is ≠ []) ∧ u.FieldsFit s' ms is fields)
  | v => u.IsOfForm s v r

theorem inhabits_null {t : TypeId} : u.Inhabits s .null t ↔ s.isNullable t = true := by
  rw [Inhabits]

theorem inhabits_iff_fits {v : Json} (hv : v ≠ .null) (t : TypeId) :
    u.Inhabits s v t ↔ ∃ r ∈ u.leaves s t, u.Fits s v r := by
  cases v with
  | null => exact absurd rfl hv
  | array items => simp only [Inhabits, Fits]
  | object fields => simp only [Inhabits, Fits, FieldsFit]
  | bool | number | string => simp only [Inhabits, Fits]

/-- A value belongs to a type if it belongs to a leaf of it. -/
theorem inhabits_iff_leaf (hs : u.Sound s) {t : TypeId} (ht : s.Has t) {v : Json} :
    u.Inhabits s v t ↔ ∃ r ∈ u.leaves s t, u.Inhabits s v r := by
  by_cases hv : v = .null
  · subst hv
    rw [inhabits_null, isNullable_iff hs ht]
    refine exists_congr fun r => and_congr_right fun hr => ?_
    rw [inhabits_null, isNullable_iff hs (leaves_has hs ht r hr), leaves_of_mem_leaves hs ht hr]
    simp
  · rw [inhabits_iff_fits hv]
    refine exists_congr fun r => and_congr_right fun hr => ?_
    rw [inhabits_iff_fits hv, leaves_of_mem_leaves hs ht hr]
    simp

/-! ## Orderly types

A schema identifies types by their keys and tells primitive types by their texts.  Where that
confuses types of different data no node can be right for both of them.  The conditions say
that it does not, and they are about the table of types only. -/

/-- The names that a check of data takes for the intrinsic and builtin types. -/
def reservedNames : List String := Scalar.primitiveNames ++ ["any", "unknown"]

/-- The types of the table have nothing about them that a schema cannot tell: no union or
intersection is of one part only, nothing declared has the name of a primitive type, and
types of equal keys have the same data. -/
structure Orderly (u : Universe) (s : Interner) : Prop where
  unions : ∀ t, (s.union? t).isSome = true → 2 ≤ (u.leaves s t).length
  intersections : ∀ t origin parts, s.data t = .object origin (.intersection parts) →
    2 ≤ parts.length
  names : ∀ d ∈ u.declarations, d.2.name ∉ reservedNames
  params : ∀ d ∈ u.declarations, ∀ p ∈ d.2.typeParams, p ∉ reservedNames
  keys : ∀ t t' key key', s.Has t → s.Has t' → u.KeyAt s t key s → u.KeyAt s t' key' s →
    TypeKey.Same key key' → ∀ v, u.Inhabits s v t ↔ u.Inhabits s v t'

end Universe
end TypedJson
