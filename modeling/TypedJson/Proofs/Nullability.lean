import TypedJson.Proofs.Refinement
/-!
# `null` in types and in nodes

Whether `null` belongs to a type is asked three times, each time by a walk of its own: of the
table of types, of the leaves that a node is made from, and of the nodes behind the union
branches of a node.  The branches of a node stand for leaves other than `null`, so in the
nodes the flag of the first node decides (`Coherent.isNullable_of_fresh`), and that flag is
right for the type that the node was made for.

A node may be asked for by other types of the same key.  A key shows whether `null` is among
the leaves, but for a type that has none: its key is that of `null`.  So the three answers
agree exactly if the type and the one its node was made for both have leaves or both have none
(`Pass.isNullable_agrees_iff`).

The condition is about unions without branches only.  Such a type has no leaves, and the key
of an empty list of leaves is the key of `null` itself.  The node is then made for whichever
of the two is met first, and is right for that one.
-/
namespace TypedJson
namespace Universe

variable {u : Universe} {tr : Trace} {s : Interner}

/-! ## Types of one key

A key that is that of `null` comes from a single leaf `null` or from no leaves.  Any other
key shows whether `null` is among the leaves. -/

theorem leaves_eq_nil_of_key_null (hs : u.Sound s) {t : TypeId} (ht : s.Has t) {key : TypeKey}
    (hkey : u.KeyAt s t key s) (hsame : TypeKey.Same key .null) :
    u.leaves s t = [] ∨ s.isNullable t = true := by
  rcases keyAt_cases hs ht hkey with ⟨hnil, -⟩ | ⟨r, hr, hleaf⟩ | ⟨keys, -, rfl, -⟩
  · exact .inl hnil
  · refine .inr ((isNullable_iff (u := u) hs ht).2 ⟨r, ?_, hleaf.isNull_of_same hsame⟩)
    rw [hr]
    exact List.mem_singleton_self r
  · cases hsame

theorem key_of_no_leaves {t : TypeId} {key : TypeKey} (hkey : u.KeyAt s t key s)
    (hnil : u.leaves s t = []) : key = .null := by
  obtain ⟨fuel, hrun⟩ := hkey
  rw [hnil] at hrun
  cases hrun
  rfl

theorem not_isNullable_of_no_leaves (hs : u.Sound s) {t : TypeId} (ht : s.Has t)
    (hnil : u.leaves s t = []) : s.isNullable t = false := by
  rw [Bool.eq_false_iff]
  intro hnull
  obtain ⟨r, hr, -⟩ := (isNullable_iff (u := u) hs ht).1 hnull
  rw [hnil] at hr
  cases hr

theorem isNullable_of_key (hs : u.Sound s) {t t' : TypeId} (ht : s.Has t) (ht' : s.Has t')
    (hne : u.leaves s t' ≠ []) {key key' : TypeKey} (hkey : u.KeyAt s t key s)
    (hkey' : u.KeyAt s t' key' s) (hsame : TypeKey.Same key key') (hnull : s.isNullable t = true) :
    s.isNullable t' = true := by
  obtain ⟨r, hr, hisNull⟩ := (isNullable_iff (u := u) hs ht).1 hnull
  obtain ⟨r', hr', k, k', hk, hk', hsame⟩ := exists_keyed_leaf hs ht ht' hne hkey hkey' hsame r hr
  rw [(hk.leafKey (union?_of_mem_leaves hs ht hr)).eq_null hisNull] at hsame
  have hleaf' := hk'.leafKey (union?_of_mem_leaves hs ht' hr')
  exact (isNullable_iff (u := u) hs ht').2 ⟨r', hr', hleaf'.isNull_of_same hsame.symm⟩

/-- **Of two types with one key `null` belongs to both or to neither, exactly if both have
leaves or neither has.** -/
theorem isNullable_eq_iff_of_key (hs : u.Sound s) {t t' : TypeId} (ht : s.Has t) (ht' : s.Has t')
    {key key' : TypeKey} (hkey : u.KeyAt s t key s) (hkey' : u.KeyAt s t' key' s)
    (hsame : TypeKey.Same key key') :
    s.isNullable t = s.isNullable t' ↔ (u.leaves s t' = [] ↔ u.leaves s t = []) := by
  -- without leaves the key is that of `null`, which belongs to a type of this key with leaves
  have hone : ∀ {t t' : TypeId} {key key' : TypeKey}, s.Has t → s.Has t' → u.KeyAt s t key s →
      u.KeyAt s t' key' s → TypeKey.Same key key' → s.isNullable t = s.isNullable t' →
      u.leaves s t = [] → u.leaves s t' = [] := by
    intro t t' key key' ht ht' hkey hkey' hsame heq hnil
    rw [key_of_no_leaves hkey hnil] at hsame
    refine (leaves_eq_nil_of_key_null hs ht' hkey' hsame.symm).resolve_right fun hnull => ?_
    rw [← heq, not_isNullable_of_no_leaves hs ht hnil] at hnull
    cases hnull
  constructor
  · intro heq
    exact ⟨hone ht' ht hkey' hkey hsame.symm heq.symm, hone ht ht' hkey hkey' hsame heq⟩
  · intro hleaves
    by_cases hnil : u.leaves s t = []
    · rw [not_isNullable_of_no_leaves hs ht hnil,
        not_isNullable_of_no_leaves hs ht' (hleaves.2 hnil)]
    · have hnil' : u.leaves s t' ≠ [] := fun h => hnil (hleaves.1 h)
      rw [Bool.eq_iff_iff]
      exact ⟨isNullable_of_key hs ht ht' hnil' hkey hkey' hsame,
        isNullable_of_key hs ht' ht hnil hkey' hkey hsame.symm⟩

/-! ## Nodes

The walk over the nodes starts at the node of the type; its own flag says whether `null` is
a leaf, and behind it no flag is set, so the walk finds `null` at once or not at all. -/

namespace Coherent

theorem node_isNullable (h : u.Coherent tr) {f : Call} (hf : f ∈ tr.calls) (hfresh : f.IsFresh) :
    (tr.table.node f.id).isNullable = tr.types.isNullable f.type := by
  have hleaves := isNullable_iff (u := u) h.sound (h.calls f hf).has_now
  rw [(h.describes hf hfresh).isNullable, Bool.eq_iff_iff, Bool.or_eq_true, List.any_eq_true,
    hleaves, or_self]

theorem branch_isNullable (h : u.Coherent tr) (hcomplete : Complete tr) {a b : NodeId}
    (ha : a.index < tr.table.size) (hb : b ∈ (tr.table.node a).unionOf) :
    (tr.table.node b).isNullable = false := by
  obtain ⟨f, hf, hfresh, hid⟩ := hcomplete a.index ha
  obtain rfl : f.id = a := hid
  obtain ⟨n, hn, -⟩ := (h.calls f hf).fresh hfresh
  have hnode : tr.table.node f.id = n := by
    show tr.nodes.getD f.id.index .placeholder = n
    rw [Array.getD_eq_getD_getElem?, hn]
    rfl
  rw [hnode] at hb
  obtain ⟨r, hr, d, hd, -, rfl, key, -, hleaf, entry, hentry, hsame⟩ := branch_spec h hf hfresh hn hb
  obtain ⟨-, hl, hnull⟩ := mem_unionTypes hr
  -- the node of the branch was made for a type that has this one leaf
  obtain ⟨g, hg, hgfresh, hgid⟩ := hcomplete d.id.index (h.call_lt hd)
  have hgid : g.id = d.id := hgid
  obtain ⟨key', hkey', entry', hentry', hsame'⟩ := (h.calls g hg).key_now
  rw [hgid, hentry] at hentry'
  cases hentry'
  obtain ⟨x, hx, -, hxnull⟩ := leaf_of_key h.sound (h.calls g hg).has_now hkey' hleaf hl hnull
    (hsame'.symm.trans hsame)
  rw [← hgid, h.node_isNullable hg hgfresh, Bool.eq_false_iff]
  intro hnullable
  obtain ⟨y, hy, hynull⟩ := (isNullable_iff (u := u) h.sound (h.calls g hg).has_now).1 hnullable
  rw [hx, List.mem_singleton] at hy
  rw [hy, hxnull] at hynull
  cases hynull

/-- **A node admits `null` exactly if the type that it was made for does.** -/
theorem isNullable_of_fresh (h : u.Coherent tr) (hcomplete : Complete tr) {f : Call}
    (hf : f ∈ tr.calls) (hfresh : f.IsFresh) :
    tr.table.isNullable f.id = tr.types.isNullable f.type := by
  have hclosed := h.table_closed hcomplete
  rw [← h.node_isNullable hf hfresh, Bool.eq_iff_iff,
    NodeTable.isNullable_iff hclosed (h.call_lt hf)]
  constructor
  · rintro ⟨b, hreach, hflag⟩
    rcases Relation.ReflTransGen.cases_tail hreach with heq | ⟨a, ha, hb⟩
    · rw [← heq]
      exact hflag
    · rw [h.branch_isNullable hcomplete (hclosed.reaches (h.call_lt hf) ha) hb] at hflag
      cases hflag
  · exact fun hflag => ⟨f.id, .refl, hflag⟩

end Coherent

/-- **The node of a type admits `null` exactly if the type does**, that is, exactly if `null` is
one of its leaves, whatever was built before: provided that the type has leaves if and only if
the type has some that the node was made for. -/
theorem Pass.isNullable_agrees_iff (pass : u.Pass tr) {c : Call} (hc : c ∈ tr.calls) :
    (tr.types.isNullable c.type = true ↔
      ∃ r ∈ u.leaves tr.types c.type, tr.types.isNull r = true) ∧
    ∃ f ∈ tr.calls, f.IsFresh ∧ f.id = c.id ∧
      (NodeTable.isNullable (.ofArray tr.nodes) c.id = tr.types.isNullable f.type) ∧
      (NodeTable.isNullable (.ofArray tr.nodes) c.id = tr.types.isNullable c.type ↔
        (u.leaves tr.types c.type = [] ↔ u.leaves tr.types f.type = [])) := by
  obtain ⟨hcoherent, hcomplete⟩ := pass.coherent
  have hs := hcoherent.sound
  have ht := (hcoherent.calls c hc).has_now
  refine ⟨isNullable_iff hs ht, ?_⟩
  obtain ⟨f, hf, hfresh, hid⟩ := hcomplete c.id.index (hcoherent.call_lt hc)
  have hid : f.id = c.id := hid
  have hnode := hcoherent.isNullable_of_fresh hcomplete hf hfresh
  rw [hid] at hnode
  obtain ⟨key, hkey, -⟩ := (hcoherent.calls c hc).key_now
  obtain ⟨key', hkey', -⟩ := (hcoherent.calls f hf).key_now
  have hsame := (hcoherent.id_eq_iff hf hc hkey' hkey).1 hid
  refine ⟨f, hf, hfresh, hid, hnode, ?_⟩
  exact (Eq.congr_left hnode).trans
    (isNullable_eq_iff_of_key hs (hcoherent.calls f hf).has_now ht hkey' hkey hsame)

/-- The note of an item may be `null`, in the type and in its node. -/
theorem itemUniverse_isNullable : ∃ tr, itemUniverse.tracedSchema? 9 = some tr ∧
    ∃ c ∈ tr.calls, (∃ r ∈ itemUniverse.leaves tr.types c.type, tr.types.isNull r = true) ∧
      NodeTable.isNullable (.ofArray tr.nodes) c.id = true := by
  have hsome : (itemUniverse.tracedSchema? 9).isSome = true := by decide +kernel
  obtain ⟨tr, htr⟩ := Option.isSome_iff_exists.1 hsome
  have hnode : (itemUniverse.tracedSchema? 9).map (fun tr => tr.calls.any fun c =>
      NodeTable.isNullable (.ofArray tr.nodes) c.id && tr.types.isNullable c.type) = some true := by
    decide +kernel
  rw [htr] at hnode
  obtain ⟨c, hc, hnullable⟩ := List.any_eq_true.1 (Option.some.inj hnode)
  rw [Bool.and_eq_true] at hnullable
  have hagrees := (pass_of_tracedSchema? htr).isNullable_agrees_iff hc
  exact ⟨tr, htr, c, hc, hagrees.1.1 hnullable.2, hnullable.1⟩

/-- One unit: an alias of a union without branches, and an interface with a member `null`. -/
def emptyUniverse : Universe where
  units := [⟨"empty.ts", [
    { name := "Empty", exported := true, line := none, typeParams := [], body := .typeAlias (.union []) },
    { name := "Holder", exported := true, line := none, typeParams := []
      body := .interface [] [⟨"nothing", false, false, some (.name "null")⟩] [] }]⟩]
  distinct := by decide

/-- The node of the empty union is taken for `null`, and does not admit it. -/
theorem emptyUniverse_null_not_admitted : ∃ tr, emptyUniverse.tracedSchema? 6 = some tr ∧
    ∃ c ∈ tr.calls, tr.types.isNull c.type = true ∧ tr.types.isNullable c.type = true ∧
      NodeTable.isNullable (.ofArray tr.nodes) c.id = false := by
  have hsome : (emptyUniverse.tracedSchema? 6).isSome = true := by decide +kernel
  obtain ⟨tr, htr⟩ := Option.isSome_iff_exists.1 hsome
  have hnode : (emptyUniverse.tracedSchema? 6).map (fun tr => tr.calls.any fun c =>
      tr.types.isNull c.type && tr.types.isNullable c.type &&
        !NodeTable.isNullable (.ofArray tr.nodes) c.id) = some true := by decide +kernel
  rw [htr] at hnode
  obtain ⟨c, hc, hnull⟩ := List.any_eq_true.1 (Option.some.inj hnode)
  simp only [Bool.and_eq_true, Bool.not_eq_true'] at hnull
  exact ⟨tr, htr, c, hc, hnull.1.1, hnull.1.2, hnull.2⟩

end Universe
end TypedJson
