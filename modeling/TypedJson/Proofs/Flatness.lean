import TypedJson.Proofs.LeafKeys
/-!
# How flat the unions of a schema are

The branches of a union node stand for the leaves of the type, so they should have no
branches of their own.  They have none unless some node was made for a type that collapses
(`Universe.Collapses`): one with a single leaf, which is neither `null` nor a literal and is
not the type itself.  Such a type shares the key of its leaf, and the node made for it has
itself as its only branch (`schema_flat_iff`).

One direction is the equality of keys: a branch that is the union itself, or has branches,
has its own key, which is that of a leaf; so its node was made for a type with that leaf
alone.  The other direction reads the description of the node: the only branch of a type that
collapses is its leaf, and the leaf has the key of the type.
-/
namespace TypedJson
namespace Universe

variable {u : Universe} {tr : Trace} {s : Interner}

/-- The type stands for one other type only. -/
def Collapses (u : Universe) (s : Interner) (t : TypeId) : Prop :=
  ∃ r, u.leaves s t = [r] ∧ r ≠ t ∧ s.literal? r = none ∧ s.isNull r = false

/-- No branch of a union is the union itself or has branches of its own. -/
def IsFlat (nodes : Array SchemaNode) : Prop :=
  ∀ (id : NodeId) (n : SchemaNode), nodes[id.index]? = some n → ∀ b ∈ n.unionOf,
    b ≠ id ∧ ∃ m, nodes[b.index]? = some m ∧ m.unionOf = []

theorem isFlat_of_unionOf {nodes : Array SchemaNode} {branches : List (List NodeId)}
    (h : nodes.toList.map (·.unionOf) = branches)
    (hflat : ∀ i (hi : i < branches.length), ∀ b ∈ branches[i],
      b.index ≠ i ∧ branches[b.index]? = some []) : IsFlat nodes := by
  have hget : ∀ i : Nat, branches[i]? = nodes[i]?.map (·.unionOf) := fun i => by
    rw [← h, List.getElem?_map, Array.getElem?_toList]
  intro id n hn b hb
  have hbranch : branches[id.index]? = some n.unionOf := by rw [hget, hn]; rfl
  obtain ⟨hi, hbranch⟩ := List.getElem?_eq_some_iff.1 hbranch
  obtain ⟨hne, hnil⟩ := hflat id.index hi b (by rw [hbranch]; exact hb)
  rw [hget] at hnil
  obtain ⟨m, hm, hempty⟩ := Option.map_eq_some_iff.1 hnil
  exact ⟨fun e => hne (congrArg NodeId.index e), m, hm, hempty⟩

theorem mem_realLeaves {ts : List TypeId} {r : TypeId} :
    r ∈ realLeaves s ts ↔ r ∈ ts ∧ s.literal? r = none ∧ s.isNull r = false := by
  unfold realLeaves
  rw [List.mem_filter]
  simp

theorem mem_unionTypes {t r : TypeId} (h : r ∈ u.unionTypes s t) :
    r ∈ u.leaves s t ∧ s.literal? r = none ∧ s.isNull r = false := by
  unfold unionTypes at h
  split at h
  · cases h
  · exact mem_realLeaves.1 h

theorem unionTypes_of_leaves_self {t : TypeId} (h : u.leaves s t = [t]) : u.unionTypes s t = [] := by
  unfold unionTypes
  split
  · rfl
  · rename_i hown
    rw [List.eq_nil_iff_forall_not_mem]
    intro r hr
    obtain ⟨hmem, hl, hn⟩ := mem_realLeaves.1 hr
    rw [h, List.mem_singleton] at hmem
    subst hmem
    refine hown ?_
    rw [h, realLeaves, List.filter_cons_of_pos (by simp [hl, hn])]
    rfl

/-- The type of a call of which the key is that of a leaf other than `null` and literals is
that leaf, or it collapses to it. -/
theorem leaf_of_key (hs : u.Sound s) {t : TypeId} (ht : s.Has t) {key key' : TypeKey} {r : TypeId}
    (hkey : u.KeyAt s t key s) (hr : LeafKey s r key') (hl : s.literal? r = none)
    (hn : s.isNull r = false) (hsame : TypeKey.Same key key') :
    ∃ x, u.leaves s t = [x] ∧ s.literal? x = none ∧ s.isNull x = false := by
  rcases keyAt_cases hs ht hkey with ⟨-, rfl⟩ | ⟨x, hx, hleaf⟩ | ⟨keys, -, rfl, -⟩
  · rw [hr.isNull_of_same hsame.symm] at hn
    cases hn
  · refine ⟨x, hx, ?_, Bool.eq_false_iff.2 fun hnull => ?_⟩
    · by_contra hsome
      obtain ⟨value, hvalue⟩ := Option.ne_none_iff_exists'.1 hsome
      rw [hleaf.eq_literal hvalue] at hsame
      rw [hr.literal_of_same hsame.symm] at hl
      cases hl
    · rw [hleaf.eq_null hnull] at hsame
      rw [hr.isNull_of_same hsame.symm] at hn
      cases hn
  · cases hr with
    | _ => cases hsame

/-- What is known of a branch of a node that a call has made: the leaf that it stands for,
and that its node has the key of that leaf. -/
theorem branch_spec (h : u.Coherent tr) {c : Call} (hc : c ∈ tr.calls) (hfresh : c.IsFresh)
    {n : SchemaNode} (hn : tr.nodes[c.id.index]? = some n) {b : NodeId} (hb : b ∈ n.unionOf) :
    ∃ r ∈ u.unionTypes tr.types c.type, ∃ d ∈ tr.calls, d.type = r ∧ d.id = b ∧
      ∃ key, u.KeyAt tr.types r key tr.types ∧ LeafKey tr.types r key ∧
        ∃ entry, tr.entries[b.index]? = some entry ∧ TypeKey.Same entry.1 key := by
  have hcall := h.calls c hc
  obtain ⟨n', hn', hdescribes⟩ := hcall.fresh hfresh
  rw [hn] at hn'
  cases hn'
  obtain ⟨r, hr, d, hd, rfl, rfl⟩ := forall₂_mem_right hdescribes.unionOf hb
  obtain ⟨key, hkey, entry, hentry, hsame⟩ := (h.calls d hd).key_now
  have hmem := (mem_unionTypes hr).1
  have hleaves := leaves_of_mem_leaves h.sound hcall.has_now hmem
  refine ⟨d.type, hr, d, hd, rfl, rfl, key, hkey, ?_, entry, hentry, hsame⟩
  rcases keyAt_cases h.sound (h.calls d hd).has_now hkey with ⟨hnil, -⟩ | ⟨x, hx, hleaf⟩ | ⟨_, hlen, -⟩
  · rw [hleaves] at hnil
    cases hnil
  · rw [hleaves] at hx
    cases hx
    exact hleaf
  · rw [hleaves] at hlen
    exact absurd hlen (by simp)

theorem branch_key_of_pass (h : u.Coherent tr) (hcomplete : Complete tr) {id : NodeId}
    {n : SchemaNode} (hn : tr.nodes[id.index]? = some n) {b : NodeId} (hb : b ∈ n.unionOf) :
    ∃ entry, tr.entries[b.index]? = some entry ∧ ¬ TypeKey.Same entry.1 .null ∧
      ∀ value, ¬ TypeKey.Same entry.1 (.literal value) := by
  obtain ⟨c, hc, hfresh, hid⟩ := hcomplete id.index (Array.getElem?_eq_some_iff.1 hn).1
  rw [← congrArg NodeId.index hid] at hn
  obtain ⟨r, hr, d, hd, -, rfl, key, -, hleaf, entry, hentry, hsame⟩ := branch_spec h hc hfresh hn hb
  obtain ⟨-, hl, hnull⟩ := mem_unionTypes hr
  refine ⟨entry, hentry, fun h' => ?_, fun value h' => ?_⟩
  · rw [hleaf.isNull_of_same (hsame.symm.trans h')] at hnull
    cases hnull
  · rw [hleaf.literal_of_same (hsame.symm.trans h')] at hl
    cases hl

theorem isFlat_of_not_collapses (h : u.Coherent tr) (hcomplete : Complete tr)
    (hall : ∀ c ∈ tr.calls, c.IsFresh → ¬ u.Collapses tr.types c.type) : IsFlat tr.nodes := by
  intro id n hn b hb
  obtain ⟨c, hc, hfresh, hid⟩ := hcomplete id.index (Array.getElem?_eq_some_iff.1 hn).1
  have hn' : tr.nodes[c.id.index]? = some n := by rw [hid]; exact hn
  obtain ⟨r, hr, d, hd, -, -, key, -, hleaf, entry, hentry, hsame⟩ := branch_spec h hc hfresh hn' hb
  obtain ⟨-, hl, hnull⟩ := mem_unionTypes hr
  -- the node of the branch was made for a leaf, which is its own leaf
  have hlt : b.index < tr.nodes.size := by
    have hlt : b.index < tr.state.keys.entries.size := (Array.getElem?_eq_some_iff.1 hentry).1
    rw [h.kept.size] at hlt
    exact hlt
  obtain ⟨e, he, hfresh', heid⟩ := hcomplete b.index hlt
  obtain ⟨key', hkey', entry', hentry', hsame'⟩ := (h.calls e he).key_now
  rw [heid, hentry] at hentry'
  cases hentry'
  obtain ⟨x, hx, hxl, hxnull⟩ := leaf_of_key h.sound (h.calls e he).has_now hkey' hleaf hl hnull
    (hsame'.symm.trans hsame)
  have hself : x = e.type := by
    by_contra hne
    exact hall e he hfresh' ⟨x, hx, hne, hxl, hxnull⟩
  rw [hself] at hx
  obtain ⟨m, hm, hdescribes⟩ := (h.calls e he).fresh hfresh'
  rw [heid] at hm
  have hnil : m.unionOf = [] := by
    have hunion := hdescribes.unionOf
    rw [unionTypes_of_leaves_self hx] at hunion
    exact List.forall₂_nil_left_iff.1 hunion
  refine ⟨?_, m, hm, hnil⟩
  rintro rfl
  rw [hm] at hn
  cases hn
  rw [hnil] at hb
  cases hb

/-- A node that was made for a type that collapses is its own branch. -/
theorem branch_self_of_collapses (h : u.Coherent tr) {c : Call} (hc : c ∈ tr.calls)
    (hfresh : c.IsFresh) (hcollapses : u.Collapses tr.types c.type) :
    ∃ n, tr.nodes[c.id.index]? = some n ∧ n.unionOf = [c.id] := by
  obtain ⟨r, hr, hne, hl, hnull⟩ := hcollapses
  obtain ⟨n, hn, hdescribes⟩ := (h.calls c hc).fresh hfresh
  have hreal : realLeaves tr.types [r] = [r] := by
    rw [realLeaves, List.filter_cons_of_pos (by simp [hl, hnull])]
    rfl
  have hunion := hdescribes.unionOf
  rw [unionTypes, hr, hreal, if_neg (fun e => hne (List.singleton_inj.1 e))] at hunion
  refine ⟨n, hn, ?_⟩
  cases hids : n.unionOf with
  | nil =>
    rw [hids] at hunion
    cases hunion
  | cons b rest =>
    rw [hids] at hunion
    cases hunion with
    | cons hb hrest =>
      cases hrest
      obtain ⟨d, hd, rfl, rfl⟩ := hb
      -- the leaf has the key of the type
      obtain ⟨key, hkey, -⟩ := (h.calls c hc).key_now
      have hleaves : u.leaves tr.types d.type = [d.type] :=
        leaves_of_mem_leaves h.sound (h.calls c hc).has_now (by rw [hr]; exact List.mem_cons_self)
      have hkey' : u.KeyAt tr.types d.type key tr.types := by
        obtain ⟨fuel, hrun⟩ := hkey
        rw [hr] at hrun
        exact ⟨fuel, by rw [hleaves]; exact hrun⟩
      rw [(h.id_eq_iff hd hc hkey' hkey).2 (TypeKey.same_refl key)]

/-- **The unions of a schema are flat exactly if none of its nodes was made for a type that
collapses**; and in any case no branch stands for `null` or for a literal. -/
theorem schema_flat_iff {fuel : Nat} {schema : Schema} (h : u.schema? fuel = some schema) :
    ∃ tr, u.tracedSchema? fuel = some tr ∧ schema = .ofNodes tr.nodes ∧
      (∀ id n, schema.nodes[NodeId.index id]? = some n → ∀ b ∈ n.unionOf,
        ∃ entry, tr.entries[b.index]? = some entry ∧ entry.1.isEqual .null = false ∧
          ∀ value, entry.1.isEqual (.literal value) = false) ∧
      (IsFlat schema.nodes ↔ ∀ c ∈ tr.calls, c.IsFresh → ¬ u.Collapses tr.types c.type) := by
  rw [schema?_eq] at h
  obtain ⟨tr, htr, rfl⟩ := Option.map_eq_some_iff.1 h
  obtain ⟨hcoherent, hcomplete⟩ := (pass_of_tracedSchema? htr).coherent
  refine ⟨tr, htr, rfl, ?_, ?_, ?_⟩
  · intro id n hn b hb
    obtain ⟨entry, hentry, hnull, hliteral⟩ := branch_key_of_pass hcoherent hcomplete hn hb
    exact ⟨entry, hentry, Bool.eq_false_iff.2 hnull, fun value => Bool.eq_false_iff.2 (hliteral value)⟩
  · intro hflat c hc hfresh hcollapses
    obtain ⟨n, hn, hunion⟩ := branch_self_of_collapses hcoherent hc hfresh hcollapses
    exact (hflat c.id n hn c.id (by rw [hunion]; exact List.mem_cons_self)).1 rfl
  · exact isFlat_of_not_collapses hcoherent hcomplete

/-! ## A union of one type

A declared union may list a single type.  The two cases below are the statement at its
extremes: a union that is flat, and one that is its own branch. -/

/-- One unit: an alias of a union. -/
def unionUniverse (branches : List TypeExpr) : Universe where
  units := [⟨"value.ts", [
    { name := "Value", exported := true, line := none, typeParams := []
      body := .typeAlias (.union branches) }]⟩]
  distinct := by simp [SourceUnit.names]

/-- A union of two types and `null` is flat, and nothing collapses. -/
theorem unionUniverse_flat_iff :
    let u := unionUniverse [.name "string", .name "number", .name "null"]
    ∃ schema, u.schema? 6 = some schema ∧ IsFlat schema.nodes ∧
      ∃ tr, u.tracedSchema? 6 = some tr ∧
        ∀ c ∈ tr.calls, c.IsFresh → ¬ u.Collapses tr.types c.type := by
  intro u
  have hsome : (u.schema? 6).isSome = true := by decide +kernel
  obtain ⟨schema, hschema⟩ := Option.isSome_iff_exists.1 hsome
  obtain ⟨tr, htr, -, -, hiff⟩ := schema_flat_iff hschema
  have hbranches : (u.schema? 6).map (fun schema => schema.nodes.toList.map (·.unionOf)) =
      some [[⟨1⟩, ⟨2⟩], [], []] := by decide +kernel
  rw [hschema] at hbranches
  have hflat : IsFlat schema.nodes := isFlat_of_unionOf (Option.some.inj hbranches) (by decide)
  exact ⟨schema, hschema, hflat, tr, htr, hiff.1 hflat⟩

/-- The only type of the union shares its node with the union, which is then its own branch. -/
theorem unionUniverse_not_flat :
    ∃ schema, (unionUniverse [.name "string"]).schema? 6 = some schema ∧
      ∃ n, schema.nodes[0]? = some n ∧ (⟨0⟩ : NodeId) ∈ n.unionOf := by
  have hnodes : ((unionUniverse [.name "string"]).schema? 6).map
      (fun schema => schema.nodes[0]?.map (·.unionOf)) = some (some [⟨0⟩]) := by decide +kernel
  obtain ⟨schema, hschema, hn⟩ := Option.map_eq_some_iff.1 hnodes
  obtain ⟨n, hn, hunion⟩ := Option.map_eq_some_iff.1 hn
  exact ⟨schema, hschema, n, hn, by rw [hunion]; exact List.mem_cons_self⟩

end Universe
end TypedJson
