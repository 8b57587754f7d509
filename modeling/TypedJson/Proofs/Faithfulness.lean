import TypedJson.Proofs.Finished
/-!
# The schema is the image of its types

A node is filled in while the types around it still have placeholders for nodes, and the
numbers that it is given for its parts are those of that moment.  They are the right ones in
the end too: once the pass is over every type that was asked for is found under its key, at
the node that it was answered with, and nothing is left to be built
(`Coherent.nodeOf`).  So what a node says can be stated without the pass, by what the types
are and by the nodes that are found for them afterwards (`Universe.ImageOf`).

`NodeOf` asks the finished pass again: the answer is found under the key, and the state is
left as it is.  So the image is a statement on one state, and a reader need not know the
calls.  It is strict in both directions: each field of the node is computed from the type,
and every node it refers to is the one that is found for the part.
-/
namespace TypedJson

theorem BuildState.WellKept.get?_eq {s : BuildState} (h : s.WellKept) {id : NodeId}
    {entry : TypeKey × NodeId} (hentry : s.keys.entries[id.index]? = some entry) {key : TypeKey}
    (hsame : TypeKey.Same entry.1 key) : s.keys.get? key = some id := by
  cases hget : s.keys.get? key with
  | none => exact absurd hsame (BuildState.WellKept.unknown hget hentry)
  | some found =>
    obtain ⟨entry', hentry', hsame'⟩ := h.known hget
    have hindex := h.index_eq hentry' hentry (hsame'.trans hsame.symm)
    rw [NodeId.index_injective hindex]

namespace Universe

variable {u : Universe} {tr : Trace}

/-- Asked for the type, the pass answers with the node and changes nothing. -/
def NodeOf (u : Universe) (s : BuildState) (t : TypeId) (id : NodeId) : Prop :=
  ∃ fuel, u.buildNode fuel t s = some (id, s)

/-- The node is exactly the image of the type: the type tells every part of the node, and the
nodes that it refers to are those of the parts of the type. -/
structure ImageOf (u : Universe) (s : BuildState) (t : TypeId) (n : SchemaNode) : Prop where
  displayName : ∃ fuel, u.display fuel t s.types = some (n.displayName, s.types)
  name : n.name = (u.namingOrigin? s.types t).map (·.name)
  sourceLocation : n.sourceLocation = (u.namingOrigin? s.types t).bind (·.location)
  isEnum : n.isEnum = u.isEnum s.types t
  isNullable : n.isNullable = true ↔
    s.types.isNullable t = true ∨ ∃ r ∈ u.leaves s.types t, s.types.isNull r = true
  allowedValues : n.allowedValues = u.admittedValues s.types t
  unionOf : List.Forall₂ (u.NodeOf s) (u.unionTypes s.types t) n.unionOf
  arrayOf : List.Forall₂ (u.NodeOf s) (s.types.element? t).toList n.arrayOf.toList
  members : u.showsMembers s.types t = true →
    ∃ ms is, (∃ fuel, u.members fuel t s.types = some (ms, s.types)) ∧
      (∃ fuel, u.indexes fuel t s.types = some (is, s.types)) ∧
      List.Forall₂ (fun (m : TypeMember × TypeId) (p : Property) =>
        p.name = m.1.name ∧ p.isOptional = m.1.optional ∧ u.NodeOf s m.2 p.type)
        (dataMembers ms) n.properties ∧
      List.Forall₂ (fun (x : TypeIndex) (y : IndexSignature) =>
        u.NodeOf s x.key y.keyType ∧ u.NodeOf s x.value y.valueType) is n.indexes
  noMembers : u.showsMembers s.types t = false → n.properties = [] ∧ n.indexes = []

/-! ## Nodes found afterwards -/

theorem nodeOf_of_known {s : BuildState} {t : TypeId} {key : TypeKey} {id : NodeId}
    (hkey : u.KeyAt s.types t key s.types) (hget : s.keys.get? key = some id) : u.NodeOf s t id := by
  obtain ⟨fuel, hrun⟩ := hkey
  refine ⟨fuel + 1, ?_⟩
  show u.buildStep fuel (u.buildNode fuel) t s = some (id, s)
  unfold buildStep
  have hask : Build.ask (u.keyOfBranches fuel (u.leaves s.types t)) s = some (key, s) := by
    unfold Build.ask
    rw [hrun]
  have hknown : Build.known? key s = some (some id, s) := by
    unfold Build.known?
    rw [hget]
  refine bind_eq_some.2 ⟨u.leaves s.types t, s, rfl, ?_⟩
  refine bind_eq_some.2 ⟨key, s, hask, ?_⟩
  exact bind_eq_some.2 ⟨some id, s, hknown, rfl⟩

/-- **After the pass each type is still answered with the node that it was answered with.** -/
theorem Coherent.nodeOf (h : u.Coherent tr) {c : Call} (hc : c ∈ tr.calls) :
    u.NodeOf tr.state c.type c.id := by
  obtain ⟨key, hkey, entry, hentry, hsame⟩ := (h.calls c hc).key_now
  exact nodeOf_of_known hkey (h.kept.get?_eq hentry hsame)

theorem Coherent.nodeOf_of_answered (h : u.Coherent tr) {t : TypeId} {id : NodeId}
    (ha : Answered tr.calls t id) : u.NodeOf tr.state t id := by
  obtain ⟨c, hc, rfl, rfl⟩ := ha
  exact h.nodeOf hc

theorem Coherent.imageOf (h : u.Coherent tr) {t : TypeId} {n : SchemaNode}
    (hn : u.Describes tr.types tr.calls t n) : u.ImageOf tr.state t n := by
  obtain ⟨ms, is, hm⟩ := hn.members
  refine ⟨?_, hn.name, hn.sourceLocation, hn.isEnum, ?_, hn.allowedValues, ?_, ?_, ?_, ?_⟩
  · obtain ⟨fuel, hlast⟩ := hn.displayName
    exact ⟨fuel, hlast.now⟩
  · rw [hn.isNullable, Bool.or_eq_true, List.any_eq_true, or_comm]
    rfl
  · exact hn.unionOf.imp fun _ _ ha => h.nodeOf_of_answered ha
  · exact hn.arrayOf.imp fun _ _ ha => h.nodeOf_of_answered ha
  · intro hshown
    obtain ⟨hms, his⟩ := hm.shown hshown
    refine ⟨ms, is, ⟨1, (members_of_kept hms 0).now⟩, ⟨1, (indexes_of_kept his 0).now⟩, ?_, ?_⟩
    · exact hm.properties.imp fun _ _ hp => ⟨hp.1, hp.2.1, h.nodeOf_of_answered hp.2.2⟩
    · exact hm.indexes.imp fun _ _ hx => hx.imp h.nodeOf_of_answered h.nodeOf_of_answered
  · intro hhidden
    obtain ⟨rfl, rfl⟩ := hm.hidden hhidden
    exact ⟨List.forall₂_nil_left_iff.1 hm.properties, List.forall₂_nil_left_iff.1 hm.indexes⟩

/-- A node that a type was answered with is the image of a type of the same key. -/
theorem Coherent.exists_imageOf (h : u.Coherent tr) (hcomplete : Complete tr) {c : Call}
    (hc : c ∈ tr.calls) : ∃ d ∈ tr.calls, ∃ key key',
      u.KeyAt tr.types c.type key tr.types ∧ u.KeyAt tr.types d.type key' tr.types ∧
      key.isEqual key' = true ∧ u.ImageOf tr.state d.type (tr.table.node c.id) := by
  obtain ⟨d, hd, hfresh, hid⟩ := hcomplete c.id.index (h.call_lt hc)
  obtain ⟨key, hkey, -⟩ := (h.calls c hc).key_now
  obtain ⟨key', hkey', -⟩ := (h.calls d hd).key_now
  have hid : d.id = c.id := hid
  refine ⟨d, hd, key, key', hkey, hkey', (h.id_eq_iff hc hd hkey hkey').1 hid.symm, ?_⟩
  rw [← hid]
  exact h.imageOf (h.describes hd hfresh)

/-- **A schema is the faithful image of its types**, whatever was asked of them before.  Every
type that was asked for during the pass is still answered with its node when the pass is over,
and that node is exactly the image of a type of the same key.  Every node of the schema is the
node of a call, so none is left as a placeholder, and the schema refers to nothing outside of
it. -/
theorem schema_faithful {types : Interner} (hreach : u.Reaches u.start types) {fuel : Nat}
    {schema : Schema} (h : u.schemaFrom? fuel types = some schema) :
    ∃ tr, u.tracedSchemaFrom? fuel types = some tr ∧ schema = .ofNodes tr.nodes ∧
      (∀ c ∈ tr.calls, u.NodeOf tr.state c.type c.id ∧
        ∃ d ∈ tr.calls, ∃ key key', u.KeyAt tr.types c.type key tr.types ∧
          u.KeyAt tr.types d.type key' tr.types ∧ key.isEqual key' = true ∧
          u.ImageOf tr.state d.type (schema.node c.id)) ∧
      (∀ id : NodeId, id.index < schema.size → ∃ c ∈ tr.calls, c.id = id) ∧
      (∀ id : NodeId, id.index < schema.size → ∀ r ∈ (schema.node id).references,
        r.index < schema.size) := by
  rw [schemaFrom?_eq] at h
  obtain ⟨tr, htr, rfl⟩ := Option.map_eq_some_iff.1 h
  obtain ⟨hcoherent, hcomplete⟩ := (pass_of_tracedSchemaFrom? hreach htr).coherent
  refine ⟨tr, htr, rfl, fun c hc => ⟨hcoherent.nodeOf hc, hcoherent.exists_imageOf hcomplete hc⟩,
    fun id hid => ?_, hcoherent.table_closed hcomplete⟩
  obtain ⟨c, hc, -, hcid⟩ := hcomplete id.index hid
  exact ⟨c, hc, hcid⟩

/-- The three nodes of the tree are the images of its types: the tree refers to itself and to
the node of its array, whose elements are trees. -/
theorem treeUniverse_faithful : ∃ schema tr, treeUniverse.schema? 9 = some schema ∧
    treeUniverse.tracedSchema? 9 = some tr ∧ schema.size = 3 ∧
    ∀ c ∈ tr.calls, ∃ d ∈ tr.calls, treeUniverse.ImageOf tr.state d.type (schema.node c.id) := by
  have hsize : (treeUniverse.schema? 9).map (·.size) = some 3 := by decide +kernel
  obtain ⟨schema, hschema, hthree⟩ := Option.map_eq_some_iff.1 hsize
  obtain ⟨tr, htr, -, hcalls, -⟩ := schema_faithful .refl hschema
  refine ⟨schema, tr, hschema, htr, hthree, fun c hc => ?_⟩
  obtain ⟨-, d, hd, -, -, -, -, -, himage⟩ := hcalls c hc
  exact ⟨d, hd, himage⟩

end Universe
end TypedJson
