import TypedJson.Proofs.Flatness
import TypedJson.Proofs.Naming
/-!
# The finished nodes of a pass

What a pass leaves behind is a closed table of nodes, each of which was made for one of the
types that were asked for (`Trace.table_closed`).  If the types are orderly, the nodes of
unions have no shape of their own apart from literals, and each of their branches was made
for a type without branches (`OrderlyPass.branch`).  So whatever holds of the node of a type
or of one of its branches holds of a leaf of the type, if it does so for types without
branches (`OrderlyPass.exists_candidate_iff`).

`OrderlyPass` bundles what the following modules assume: a pass between calls, whose table
of types is sound and orderly.  From a call they take the call that made its node, which has
an equal key, and by orderliness the same data; so whatever is shown for the type of which
the node was made holds for each type that shares it.
-/
namespace TypedJson

/-- The nodes of the trace as a table. -/
def Trace.table (tr : Trace) : NodeTable := .ofArray tr.nodes

theorem LiteralSet.mem_insert {set : LiteralSet} {l x : Literal} :
    x ∈ (set.insert l).values ↔ x ∈ set.values ∨ x = l := by
  unfold LiteralSet.insert
  by_cases h : l ∈ set.values
  · rw [dif_pos h]
    constructor
    · exact .inl
    · rintro (hx | rfl)
      · exact hx
      · exact h
  · rw [dif_neg h]
    simp

theorem LiteralSet.mem_ofList {ls : List Literal} {x : Literal} :
    x ∈ (LiteralSet.ofList ls).values ↔ x ∈ ls := by
  have hfold : ∀ (ls : List Literal) (set : LiteralSet),
      x ∈ (ls.foldl LiteralSet.insert set).values ↔ x ∈ set.values ∨ x ∈ ls := by
    intro ls
    induction ls with
    | nil => simp
    | cons l ls ih =>
      intro set
      rw [List.foldl_cons, ih, LiteralSet.mem_insert, List.mem_cons, or_assoc]
  rw [LiteralSet.ofList, hfold]
  simp [LiteralSet.empty]

namespace Universe

variable {u : Universe} {tr : Trace}

/-! ## The table -/

theorem Coherent.call_lt (h : u.Coherent tr) {c : Call} (hc : c ∈ tr.calls) :
    c.id.index < tr.table.size := by
  obtain ⟨key, -, entry, hentry, -⟩ := (h.calls c hc).key_now
  have hlt : c.id.index < tr.state.keys.entries.size := (Array.getElem?_eq_some_iff.1 hentry).1
  rw [h.kept.size] at hlt
  exact hlt

theorem Coherent.describes (h : u.Coherent tr) {c : Call} (hc : c ∈ tr.calls) (hfresh : c.IsFresh) :
    u.Describes tr.types tr.calls c.type (tr.table.node c.id) := by
  obtain ⟨n, hn, hdescribes⟩ := (h.calls c hc).fresh hfresh
  have hnode : tr.table.node c.id = n := by
    show tr.nodes.getD c.id.index .placeholder = n
    rw [Array.getD_eq_getD_getElem?, hn]
    rfl
  rw [hnode]
  exact hdescribes

/-- **A pass leaves no open references behind.** -/
theorem Coherent.table_closed (h : u.Coherent tr) (hcomplete : Complete tr) : tr.table.Closed := by
  intro id hid r hr
  obtain ⟨c, hc, hfresh, hcid⟩ := hcomplete id.index hid
  have hcid : c.id = id := hcid
  rw [← hcid] at hr
  have hdescribes := h.describes hc hfresh
  have hanswered : ∀ {t}, Answered tr.calls t r → r.index < tr.table.size := by
    rintro t ⟨d, hd, -, rfl⟩
    exact h.call_lt hd
  unfold SchemaNode.references at hr
  obtain ⟨ms, is, hmembers⟩ := hdescribes.members
  simp only [List.mem_append, List.mem_map, List.mem_flatMap, List.mem_cons, List.not_mem_nil,
    or_false] at hr
  rcases hr with ((hr | hr) | ⟨p, hp, rfl⟩) | ⟨y, hy, rfl | rfl⟩
  · obtain ⟨t, -, ht⟩ := forall₂_mem_right hdescribes.arrayOf hr
    exact hanswered ht
  · obtain ⟨t, -, ht⟩ := forall₂_mem_right hdescribes.unionOf hr
    exact hanswered ht
  · obtain ⟨m, -, -, -, hm⟩ := forall₂_mem_right hmembers.properties hp
    exact hanswered hm
  · obtain ⟨x, -, hx, -⟩ := forall₂_mem_right hmembers.indexes hy
    exact hanswered hx
  · obtain ⟨x, -, -, hx⟩ := forall₂_mem_right hmembers.indexes hy
    exact hanswered hx

/-- The leaf is `null` or a literal, for which the node of a union needs no branch. -/
def IsPlainLeaf (s : Interner) (r : TypeId) : Prop := s.literal? r ≠ none ∨ s.isNull r = true

/-- A pass over orderly types, between its calls. -/
structure OrderlyPass (u : Universe) (tr : Trace) : Prop where
  coherent : u.Coherent tr
  complete : Complete tr
  orderly : u.Orderly tr.types

namespace OrderlyPass

theorem has (h : u.OrderlyPass tr) {c : Call} (hc : c ∈ tr.calls) : tr.types.Has c.type :=
  (h.coherent.calls c hc).has_now

theorem leaves_ne_nil (h : u.OrderlyPass tr) {c : Call} (hc : c ∈ tr.calls) :
    u.leaves tr.types c.type ≠ [] := by
  cases hunion : tr.types.union? c.type with
  | none =>
    rw [leaves_of_not_union h.coherent.sound (h.has hc) hunion]
    simp
  | some branches =>
    have hlen := h.orderly.unions c.type (by rw [hunion]; rfl)
    intro hnil
    rw [hnil] at hlen
    simp at hlen

theorem fresh_of_call (h : u.OrderlyPass tr) {c : Call} (hc : c ∈ tr.calls) :
    ∃ f ∈ tr.calls, f.IsFresh ∧ f.id = c.id :=
  h.complete c.id.index (h.coherent.call_lt hc)

theorem keys_of_id_eq (h : u.OrderlyPass tr) {c d : Call} (hc : c ∈ tr.calls) (hd : d ∈ tr.calls)
    (hid : c.id = d.id) : ∃ key key', u.KeyAt tr.types c.type key tr.types ∧
      u.KeyAt tr.types d.type key' tr.types ∧ TypeKey.Same key key' := by
  obtain ⟨key, hkey, -⟩ := (h.coherent.calls c hc).key_now
  obtain ⟨key', hkey', -⟩ := (h.coherent.calls d hd).key_now
  exact ⟨key, key', hkey, hkey', (h.coherent.id_eq_iff hc hd hkey hkey').1 hid⟩

theorem inhabits_congr (h : u.OrderlyPass tr) {c d : Call} (hc : c ∈ tr.calls) (hd : d ∈ tr.calls)
    (hid : c.id = d.id) (v : Json) : u.Inhabits tr.types v c.type ↔ u.Inhabits tr.types v d.type := by
  obtain ⟨key, key', hkey, hkey', hsame⟩ := h.keys_of_id_eq hc hd hid
  exact h.orderly.keys c.type d.type key key' (h.has hc) (h.has hd) hkey hkey' hsame v

theorem exists_leaf_of_id_eq (h : u.OrderlyPass tr) {c d : Call} (hc : c ∈ tr.calls)
    (hd : d ∈ tr.calls) (hid : c.id = d.id) : ∀ r ∈ u.leaves tr.types c.type,
      ∃ r' ∈ u.leaves tr.types d.type, ∃ k k',
        LeafKey tr.types r k ∧ LeafKey tr.types r' k' ∧ TypeKey.Same k k' := by
  obtain ⟨key, key', hkey, hkey', hsame⟩ := h.keys_of_id_eq hc hd hid
  intro r hr
  have hs := h.coherent.sound
  obtain ⟨r', hr', k, k', hk, hk', hsame⟩ := exists_keyed_leaf hs (h.has hc) (h.has hd)
    (h.leaves_ne_nil hd) hkey hkey' hsame r hr
  exact ⟨r', hr', k, k', hk.leafKey (union?_of_mem_leaves hs (h.has hc) hr),
    hk'.leafKey (union?_of_mem_leaves hs (h.has hd) hr'), hsame⟩

/-- A node is that of a union or of a type without branches, not of both. -/
theorem union?_of_id_eq (h : u.OrderlyPass tr) {c d : Call} (hc : c ∈ tr.calls) (hd : d ∈ tr.calls)
    (hid : c.id = d.id) (hunion : tr.types.union? c.type = none) : tr.types.union? d.type = none := by
  obtain ⟨key, key', hkey, hkey', hsame⟩ := h.keys_of_id_eq hc hd hid
  have hself := leaves_of_not_union h.coherent.sound (h.has hc) hunion
  by_contra hsome
  have hlen := h.orderly.unions d.type (Option.isSome_iff_ne_none.2 hsome)
  rcases keyAt_cases h.coherent.sound (h.has hd) hkey' with ⟨hnil, -⟩ | ⟨x, hx, -⟩ | ⟨keys, -, rfl, -⟩
  · rw [hnil] at hlen
    simp at hlen
  · rw [hx] at hlen
    simp at hlen
  · rcases keyAt_cases h.coherent.sound (h.has hc) hkey with ⟨hnil, -⟩ | ⟨x, -, hleaf⟩ | ⟨_, hlen', -⟩
    · rw [hself] at hnil
      cases hnil
    · exact hleaf.not_same_union hsame
    · rw [hself] at hlen'
      simp at hlen'

/-! ## Branches

The branches of the node of a union are those of its leaves which are neither `null` nor
literals; the rest of the leaves is in the node itself. -/

theorem unionOf_of_leaf (h : u.OrderlyPass tr) {c : Call} (hc : c ∈ tr.calls)
    (hunion : tr.types.union? c.type = none) : (tr.table.node c.id).unionOf = [] := by
  obtain ⟨f, hf, hfresh, hid⟩ := h.fresh_of_call hc
  have hunion' := h.union?_of_id_eq hc hf hid.symm hunion
  have hself := leaves_of_not_union h.coherent.sound (h.has hf) hunion'
  have hbranches := (h.coherent.describes hf hfresh).unionOf
  rw [unionTypes_of_leaves_self hself, hid] at hbranches
  exact List.forall₂_nil_left_iff.1 hbranches

theorem unionTypes_of_union (h : u.OrderlyPass tr) {c : Call} (hc : c ∈ tr.calls)
    (hunion : (tr.types.union? c.type).isSome = true) :
    u.unionTypes tr.types c.type = realLeaves tr.types (u.leaves tr.types c.type) := by
  unfold unionTypes
  refine if_neg fun hown => ?_
  have hmem : c.type ∈ realLeaves tr.types (u.leaves tr.types c.type) := by
    rw [hown]
    exact List.mem_cons_self
  rw [union?_of_mem_leaves h.coherent.sound (h.has hc) (mem_realLeaves.1 hmem).1] at hunion
  cases hunion

/-- **What holds of the node of a type or of one of its branches holds of a leaf of the type**,
if it does so for types without branches, and if the node of a union has it from literals and
`null` alone. -/
theorem exists_candidate_iff (h : u.OrderlyPass tr) {P : NodeId → Prop} {Q : TypeId → Prop}
    (hleaf : ∀ f ∈ tr.calls, f.IsFresh → tr.types.union? f.type = none → (P f.id ↔ Q f.type))
    (hcongr : ∀ c ∈ tr.calls, ∀ d ∈ tr.calls, c.id = d.id → tr.types.union? c.type = none →
      tr.types.union? d.type = none → Q c.type → Q d.type)
    (hown : ∀ f ∈ tr.calls, f.IsFresh → (tr.types.union? f.type).isSome = true →
      (P f.id ↔ ∃ r ∈ u.leaves tr.types f.type, IsPlainLeaf tr.types r ∧ Q r))
    {f : Call} (hf : f ∈ tr.calls) (hfresh : f.IsFresh) :
    (∃ b ∈ tr.table.candidates f.id, P b) ↔ ∃ r ∈ u.leaves tr.types f.type, Q r := by
  -- the node of a branch was made for a type without branches and of the same key
  have hbranch : ∀ d ∈ tr.calls, tr.types.union? d.type = none → (P d.id ↔ Q d.type) := by
    intro d hd hunion
    obtain ⟨g, hg, hgfresh, hid⟩ := h.fresh_of_call hd
    have hunion' := h.union?_of_id_eq hd hg hid.symm hunion
    rw [← hid, hleaf g hg hgfresh hunion']
    exact ⟨hcongr g hg d hd hid hunion' hunion, hcongr d hd g hg hid.symm hunion hunion'⟩
  cases hunion : tr.types.union? f.type with
  | none =>
    have hself := leaves_of_not_union h.coherent.sound (h.has hf) hunion
    simp [NodeTable.candidates, h.unionOf_of_leaf hf hunion, hself, hleaf f hf hfresh hunion]
  | some branches =>
    have hsome : (tr.types.union? f.type).isSome = true := by rw [hunion]; rfl
    have hids := (h.coherent.describes hf hfresh).unionOf
    rw [h.unionTypes_of_union hf hsome] at hids
    have hnone : ∀ r ∈ realLeaves tr.types (u.leaves tr.types f.type), tr.types.union? r = none :=
      fun r hr => union?_of_mem_leaves h.coherent.sound (h.has hf) (mem_realLeaves.1 hr).1
    constructor
    · rintro ⟨b, hb, hP⟩
      rcases List.mem_cons.1 hb with rfl | hb
      · obtain ⟨r, hr, -, hQ⟩ := (hown f hf hfresh hsome).1 hP
        exact ⟨r, hr, hQ⟩
      · obtain ⟨r, hr, d, hd, rfl, rfl⟩ := forall₂_mem_right hids hb
        exact ⟨d.type, (mem_realLeaves.1 hr).1, (hbranch d hd (hnone _ hr)).1 hP⟩
    · rintro ⟨r, hr, hQ⟩
      by_cases hplain : IsPlainLeaf tr.types r
      · exact ⟨f.id, List.mem_cons_self, (hown f hf hfresh hsome).2 ⟨r, hr, hplain, hQ⟩⟩
      · have hreal : r ∈ realLeaves tr.types (u.leaves tr.types f.type) := by
          unfold IsPlainLeaf at hplain
          rw [not_or, not_not, Bool.not_eq_true] at hplain
          exact mem_realLeaves.2 ⟨hr, hplain⟩
        obtain ⟨b, hb, d, hd, rfl, rfl⟩ := forall₂_mem_left hids hreal
        exact ⟨d.id, List.mem_cons_of_mem _ hb, (hbranch d hd (hnone _ hreal)).2 hQ⟩

/-- Only the branches themselves are behind the branches of a node. -/
theorem reaches_iff (h : u.OrderlyPass tr) {f : Call} (hf : f ∈ tr.calls) (hfresh : f.IsFresh)
    (b : NodeId) : tr.table.Reaches f.id b ↔ b ∈ tr.table.candidates f.id := by
  constructor
  · intro hreach
    rcases Relation.ReflTransGen.cases_head hreach with rfl | ⟨x, hx, hxb⟩
    · exact List.mem_cons_self
    · have hids := (h.coherent.describes hf hfresh).unionOf
      obtain ⟨r, hr, d, hd, rfl, rfl⟩ := forall₂_mem_right hids hx
      have hnone := union?_of_mem_leaves h.coherent.sound (h.has hf) (mem_unionTypes hr).1
      have hnil := h.unionOf_of_leaf hd hnone
      rcases Relation.ReflTransGen.cases_head hxb with rfl | ⟨y, hy, -⟩
      · exact List.mem_cons_of_mem _ hx
      · rw [hnil] at hy
        cases hy
  · intro hb
    rcases List.mem_cons.1 hb with rfl | hb
    · exact .refl
    · exact .single hb

end OrderlyPass
end Universe
end TypedJson
