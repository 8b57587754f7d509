import TypedJson.Proofs.Leaves
import TypedJson.Proofs.Lasting
import TypedJson.Proofs.Trace
/-!
# What a finished node says about its type

`Universe.Describes` relates a type to the node that was built for it, as a statement
about the table of types alone: the text, the literals and the nullability of the type are
in the node, and for every type that the node refers to there is a call that answered with
the node referred to.  It stays true as the table grows and as more calls are made
(`Describes.grown`).

A node holds numbers of nodes, and which type a number was given for is known only from the
calls of the pass.  So the description relates numbers and types through the list of calls.
It says nothing about the order in which the calls were made, nor of whether the node
referred to is finished: circles are fine, and the statement can be made as soon as the node
is put in its place.
-/
namespace TypedJson

/-- One of the calls was for the type and answered with the node. -/
def Answered (calls : List Call) (t : TypeId) (id : NodeId) : Prop :=
  ∃ c ∈ calls, c.type = t ∧ c.id = id

theorem Answered.mono {calls calls' : List Call} (h : calls ⊆ calls') {t : TypeId} {id : NodeId}
    (ha : Answered calls t id) : Answered calls' t id := by
  obtain ⟨c, hc, hid⟩ := ha
  exact ⟨c, h hc, hid⟩

namespace Universe

variable {u : Universe} {s s' : Interner}

/-! ## Questions that have one answer

The description quotes what the universe answers about the type at the end.  While the node
was being built the table was smaller; these lemmas say that the answers have not changed. -/

theorem asks_grown (hs : u.Sound s) (h : u.Asks s s') : u.Grown s s' := by
  cases h with
  | declared run => exact (declared?_yields hs _ _ _ _ run).1
  | exported run => exact (exportedTypes_yields hs _ _ _ run).1
  | members ht run => exact (members_settles hs ht _ _ _ run).1
  | indexes ht run => exact (indexes_settles hs ht _ _ _ run).1
  | display ht run => exact (display_settles u _ _ _ hs ht _ _ run).1
  | key hts run => exact (keyOfBranches_settles hs _ hts _ _ run).1

theorem reaches_grown (hs : u.Sound s) (h : u.Reaches s s') : u.Grown s s' := by
  induction h with
  | refl => exact .refl hs
  | tail _ hask ih => exact ih.trans (asks_grown ih.sound hask)

theorem intrinsic?_grown (h : s.Grows s') {t : TypeId} (ht : s.Has t) :
    s'.intrinsic? t = s.intrinsic? t := by
  unfold Interner.intrinsic?
  rw [h.data t ht]

theorem isNull_grown (h : s.Grows s') {t : TypeId} (ht : s.Has t) : s'.isNull t = s.isNull t := by
  unfold Interner.isNull
  rw [intrinsic?_grown h ht]

theorem literal?_grown (h : s.Grows s') {t : TypeId} (ht : s.Has t) :
    s'.literal? t = s.literal? t := by
  unfold Interner.literal?
  rw [h.data t ht]

theorem union?_grown (h : s.Grows s') {t : TypeId} (ht : s.Has t) : s'.union? t = s.union? t := by
  unfold Interner.union?
  rw [h.data t ht]

theorem element?_grown (h : s.Grows s') {t : TypeId} (ht : s.Has t) :
    s'.element? t = s.element? t := by
  unfold Interner.element?
  rw [h.data t ht]

theorem originOf?_grown (h : s.Grows s') {t : TypeId} (ht : s.Has t) :
    u.originOf? s' t = u.originOf? s t := by
  unfold originOf?
  rw [h.data t ht]

theorem enumValues_grown (h : s.Grows s') {t : TypeId} (ht : s.Has t) :
    u.enumValues s' t = u.enumValues s t := by
  unfold enumValues
  rw [h.data t ht]

theorem isEnum_grown (h : s.Grows s') {t : TypeId} (ht : s.Has t) :
    u.isEnum s' t = u.isEnum s t := by
  unfold isEnum
  rw [originOf?_grown h ht]

theorem isLiteralUnion_grown (hs : u.Sound s) (h : s.Grows s') {t : TypeId} (ht : s.Has t) :
    isLiteralUnion s' t = isLiteralUnion s t := by
  unfold isLiteralUnion
  rw [union?_grown h ht]
  cases hunion : s.union? t with
  | none => rfl
  | some branches =>
    have hall : ∀ b ∈ branches, (s'.literal? b).isSome = (s.literal? b).isSome := fun b hb => by
      rw [literal?_grown h (union?_has hs hunion b hb)]
    rw [Bool.eq_iff_iff, List.all_eq_true, List.all_eq_true]
    exact ⟨fun h b hb => by rw [← hall b hb]; exact h b hb,
      fun h b hb => by rw [hall b hb]; exact h b hb⟩

theorem isNullable_grown (hs : u.Sound s) (hs' : u.Sound s') (h : s.Grows s') {t : TypeId}
    (ht : s.Has t) : s'.isNullable t = s.isNullable t := by
  rw [Bool.eq_iff_iff, isNullable_iff hs' (h.has ht), isNullable_iff hs ht,
    leaves_grown hs hs' h ht]
  constructor
  · rintro ⟨r, hr, hnull⟩
    rw [isNull_grown h (leaves_has hs ht r hr)] at hnull
    exact ⟨r, hr, hnull⟩
  · rintro ⟨r, hr, hnull⟩
    rw [← isNull_grown h (leaves_has hs ht r hr)] at hnull
    exact ⟨r, hr, hnull⟩

theorem filterMap_literal?_grown (h : s.Grows s') {ts : List TypeId} (hts : ∀ t ∈ ts, s.Has t) :
    ts.filterMap s'.literal? = ts.filterMap s.literal? :=
  List.filterMap_congr fun t ht => literal?_grown h (hts t ht)

theorem realLeaves_grown (h : s.Grows s') {ts : List TypeId} (hts : ∀ t ∈ ts, s.Has t) :
    realLeaves s' ts = realLeaves s ts :=
  List.filter_congr fun t ht => by
    rw [literal?_grown h (hts t ht), isNull_grown h (hts t ht)]

/-! ## The parts of a node

One definition for each part that is computed from the type rather than from calls; and the
fields of `Describes` say which part of the node is which. -/

/-- The literals that the type admits. -/
def admittedValues (u : Universe) (s : Interner) (t : TypeId) : LiteralSet :=
  if u.isEnum s t then .ofList (u.enumValues s t)
  else .ofList ((u.leaves s t).filterMap s.literal?)

/-- The types of the branches of the node. -/
def unionTypes (u : Universe) (s : Interner) (t : TypeId) : List TypeId :=
  if realLeaves s (u.leaves s t) = [t] then [] else realLeaves s (u.leaves s t)

/-- The node shows the members of the type. -/
def showsMembers (u : Universe) (s : Interner) (t : TypeId) : Bool :=
  (u.originOf? s t).any fun origin => hasProperties s t origin (decide (origin.kind = .enum))

/-- The declaration that gives the node its name. -/
def namingOrigin? (u : Universe) (s : Interner) (t : TypeId) : Option Origin :=
  (u.originOf? s t).filter (!·.builtin)

/-- The property is that of a member of this type. -/
def PropertyOf (calls : List Call) (m : TypeMember × TypeId) (p : Property) : Prop :=
  p.name = m.1.name ∧ p.isOptional = m.1.optional ∧ Answered calls m.2 p.type

def SignatureOf (calls : List Call) (x : TypeIndex) (y : IndexSignature) : Prop :=
  Answered calls x.key y.keyType ∧ Answered calls x.value y.valueType

/-- The properties and index signatures of the node, if it shows any. -/
structure DescribesMembers (u : Universe) (s : Interner) (calls : List Call) (t : TypeId)
    (ms : List TypeMember) (is : List TypeIndex) (n : SchemaNode) : Prop where
  shown : u.showsMembers s t = true → s.members? t = some ms ∧ s.indexes? t = some is
  hidden : u.showsMembers s t = false → ms = [] ∧ is = []
  properties : List.Forall₂ (PropertyOf calls) (dataMembers ms) n.properties
  indexes : List.Forall₂ (SignatureOf calls) is n.indexes

/-- The node is what has to be built for the type. -/
structure Describes (u : Universe) (s : Interner) (calls : List Call) (t : TypeId)
    (n : SchemaNode) : Prop where
  displayName : ∃ fuel, Lasts s (u.display fuel t) n.displayName
  name : n.name = (u.namingOrigin? s t).map (·.name)
  sourceLocation : n.sourceLocation = (u.namingOrigin? s t).bind (·.location)
  isEnum : n.isEnum = u.isEnum s t
  isNullable : n.isNullable = ((u.leaves s t).any s.isNull || s.isNullable t)
  allowedValues : n.allowedValues = u.admittedValues s t
  unionOf : List.Forall₂ (Answered calls) (u.unionTypes s t) n.unionOf
  arrayOf : List.Forall₂ (Answered calls) (s.element? t).toList n.arrayOf.toList
  members : ∃ ms is, u.DescribesMembers s calls t ms is n

theorem showsMembers_grown (hs : u.Sound s) (h : s.Grows s') {t : TypeId} (ht : s.Has t) :
    u.showsMembers s' t = u.showsMembers s t := by
  unfold showsMembers hasProperties
  rw [originOf?_grown h ht, isLiteralUnion_grown hs h ht]

theorem unionTypes_grown (hs : u.Sound s) (hs' : u.Sound s') (h : s.Grows s') {t : TypeId}
    (ht : s.Has t) : u.unionTypes s' t = u.unionTypes s t := by
  unfold unionTypes
  rw [leaves_grown hs hs' h ht, realLeaves_grown h (leaves_has hs ht)]

theorem admittedValues_grown (hs : u.Sound s) (hs' : u.Sound s') (h : s.Grows s') {t : TypeId}
    (ht : s.Has t) : u.admittedValues s' t = u.admittedValues s t := by
  unfold admittedValues
  rw [isEnum_grown h ht, enumValues_grown h ht, leaves_grown hs hs' h ht,
    filterMap_literal?_grown h (leaves_has hs ht)]

theorem leaves_any_isNull_grown (hs : u.Sound s) (hs' : u.Sound s') (h : s.Grows s') {t : TypeId}
    (ht : s.Has t) : (u.leaves s' t).any s'.isNull = (u.leaves s t).any s.isNull := by
  rw [leaves_grown hs hs' h ht, Bool.eq_iff_iff, List.any_eq_true, List.any_eq_true]
  have hsame : ∀ r ∈ u.leaves s t, s'.isNull r = s.isNull r := fun r hr =>
    isNull_grown h (leaves_has hs ht r hr)
  exact ⟨fun ⟨r, hr, hnull⟩ => ⟨r, hr, by rw [← hsame r hr]; exact hnull⟩,
    fun ⟨r, hr, hnull⟩ => ⟨r, hr, by rw [hsame r hr]; exact hnull⟩⟩

theorem Describes.grown (hs : u.Sound s) (hgrown : u.Grown s s') {calls calls' : List Call}
    (hcalls : calls ⊆ calls') {t : TypeId} (ht : s.Has t) {n : SchemaNode}
    (h : u.Describes s calls t n) : u.Describes s' calls' t n := by
  have hs' := hgrown.sound
  have hgrows := hgrown.grows
  refine ⟨?_, ?_, ?_, ?_, ?_, ?_, ?_, ?_, ?_⟩
  · obtain ⟨fuel, hlast⟩ := h.displayName
    exact ⟨fuel, hlast.grown hgrows⟩
  · rw [namingOrigin?, originOf?_grown hgrows ht]
    exact h.name
  · rw [namingOrigin?, originOf?_grown hgrows ht]
    exact h.sourceLocation
  · rw [isEnum_grown hgrows ht]
    exact h.isEnum
  · rw [leaves_any_isNull_grown hs hs' hgrows ht, isNullable_grown hs hs' hgrows ht]
    exact h.isNullable
  · rw [admittedValues_grown hs hs' hgrows ht]
    exact h.allowedValues
  · rw [unionTypes_grown hs hs' hgrows ht]
    exact h.unionOf.imp fun _ _ ha => ha.mono hcalls
  · rw [element?_grown hgrows ht]
    exact h.arrayOf.imp fun _ _ ha => ha.mono hcalls
  · obtain ⟨ms, is, hm⟩ := h.members
    refine ⟨ms, is, ?_, ?_, ?_, ?_⟩
    · intro hshown
      rw [showsMembers_grown hs hgrows ht] at hshown
      exact (hm.shown hshown).imp (hgrows.members t ms) (hgrows.indexes t is)
    · intro hhidden
      rw [showsMembers_grown hs hgrows ht] at hhidden
      exact hm.hidden hhidden
    · exact hm.properties.imp fun _ _ hp => ⟨hp.1, hp.2.1, hp.2.2.mono hcalls⟩
    · exact hm.indexes.imp fun _ _ hx => ⟨hx.1.mono hcalls, hx.2.mono hcalls⟩

end Universe
end TypedJson
