import TypedJson.Proofs.Building
import TypedJson.Proofs.Fuel
/-!
# One key, one node

Two calls of a pass answer with the same node exactly if the keys of their types are equal
(`Pass.identity`).  It does not matter when the calls are made, one within the other or one
after the other, nor when the keys are looked at: from the moment a call asks for the key of
its type, the key of that type is the same (`MomentOf`).

That the moment does not matter is more than it seems: the key is computed from a table that
grows while nodes are built, and unions may be opened by a question that has nothing to do
with the call.  But a key that was asked for once is a settled answer, and the first thing a
call does is to ask for it.  So all moments of a call are joined to the final table, and the
comparison is made there.
-/
namespace TypedJson
namespace Universe

variable {u : Universe}

/-- The table of types at the moment of the call, or at any moment after its key was asked
for. -/
def MomentOf (u : Universe) (c : Call) (s : Interner) : Prop :=
  s = c.before.types ∨ ∃ key s₁, u.KeyAt c.before.types c.type key s₁ ∧ u.Reaches s₁ s

theorem KeyAt.unique {s s₁ s₂ : Interner} {t : TypeId} {key key' : TypeKey}
    (h : u.KeyAt s t key s₁) (h' : u.KeyAt s t key' s₂) : key = key' ∧ s₁ = s₂ := by
  obtain ⟨fuel, hrun⟩ := h
  obtain ⟨fuel', hrun'⟩ := h'
  have heq := keyOfBranches_unique u hrun hrun'
  cases heq
  exact ⟨rfl, rfl⟩

namespace CallSound

variable {tr : Trace} {c : Call}

theorem key_now (h : u.CallSound tr c) : ∃ key, u.KeyAt tr.types c.type key tr.types ∧
    ∃ entry, tr.entries[c.id.index]? = some entry ∧ TypeKey.Same entry.1 key := by
  obtain ⟨key, s₁, hkey, hafter, htr, hentry⟩ := h.keyed
  exact ⟨key, hkey.lasts h.sound h.has (hafter.trans htr), hentry⟩

theorem key_of_moment (h : u.CallSound tr c) {s s' : Interner} (hs : u.MomentOf c s)
    {key : TypeKey} (hkey : u.KeyAt s c.type key s') : u.KeyAt tr.types c.type key tr.types := by
  obtain ⟨key', s₁, hkey', hafter, htr, -⟩ := h.keyed
  have hnow := hkey'.lasts h.sound h.has (hafter.trans htr)
  rcases hs with rfl | ⟨key₂, s₂, hkey₂, hreach⟩
  · obtain ⟨rfl, -⟩ := hkey.unique hkey'
    exact hnow
  · obtain ⟨rfl, rfl⟩ := hkey₂.unique hkey'
    obtain ⟨rfl, -⟩ := hkey.unique (hkey₂.lasts h.sound h.has hreach)
    exact hnow

end CallSound

theorem Coherent.id_eq_iff {tr : Trace} (h : u.Coherent tr) {c d : Call} (hc : c ∈ tr.calls)
    (hd : d ∈ tr.calls) {key key' : TypeKey} (hkey : u.KeyAt tr.types c.type key tr.types)
    (hkey' : u.KeyAt tr.types d.type key' tr.types) : c.id = d.id ↔ TypeKey.Same key key' := by
  obtain ⟨keyc, hkc, ec, hec, hsamec⟩ := (h.calls c hc).key_now
  obtain ⟨keyd, hkd, ed, hed, hsamed⟩ := (h.calls d hd).key_now
  obtain ⟨rfl, -⟩ := hkey.unique hkc
  obtain ⟨rfl, -⟩ := hkey'.unique hkd
  constructor
  · intro hid
    rw [hid, hed] at hec
    cases hec
    exact hsamec.symm.trans hsamed
  · intro hsame
    have hentries : TypeKey.Same ec.1 ed.1 := (hsamec.trans hsame).trans hsamed.symm
    exact NodeId.index_injective (h.kept.index_eq hec hed hentries)

/-- **Two calls answer with the same node exactly if the keys of their types are equal.**
In every state of the pass key and node have one number, there are as many keys as nodes, and
no two keys are equal; and at every moment of a call its type has a key. -/
theorem Pass.identity {tr : Trace} (pass : u.Pass tr) :
    (∀ s ∈ tr.state :: tr.past, s.WellKept) ∧
    (∀ c ∈ tr.calls, u.MomentOf c c.after.types ∧ u.MomentOf c tr.types ∧
      ∀ s, u.MomentOf c s → ∃ key s', u.KeyAt s c.type key s') ∧
    ∀ c ∈ tr.calls, ∀ d ∈ tr.calls, ∀ s s' key key' s₁ s₂,
      u.MomentOf c s → u.KeyAt s c.type key s₁ → u.MomentOf d s' → u.KeyAt s' d.type key' s₂ →
      (c.id = d.id ↔ key.isEqual key' = true) := by
  obtain ⟨hcoherent, -⟩ := pass.coherent
  refine ⟨?_, ?_, ?_⟩
  · intro s hs
    rcases List.mem_cons.1 hs with rfl | hs
    · exact hcoherent.kept
    · exact hcoherent.past s hs
  · intro c hc
    have hsound := hcoherent.calls c hc
    obtain ⟨key, s₁, hkey, hafter, htr, -⟩ := hsound.keyed
    refine ⟨.inr ⟨key, s₁, hkey, hafter⟩, .inr ⟨key, s₁, hkey, hafter.trans htr⟩, ?_⟩
    rintro s (rfl | ⟨key', s₂, hkey', hreach⟩)
    · exact ⟨key, s₁, hkey⟩
    · exact ⟨key', s, hkey'.lasts hsound.sound hsound.has hreach⟩
  · intro c hc d hd s s' key key' s₁ s₂ hs hkey hs' hkey'
    have hnow := (hcoherent.calls c hc).key_of_moment hs hkey
    have hnow' := (hcoherent.calls d hd).key_of_moment hs' hkey'
    exact hcoherent.id_eq_iff hc hd hnow hnow'

/-- One unit: an interface that refers to itself, directly and through an array. -/
def treeUniverse : Universe where
  units := [⟨"tree.ts", [
    { name := "Tree", exported := true, line := none, typeParams := []
      body := .interface []
        [⟨"label", false, false, some (.name "string")⟩,
          ⟨"parent", true, false, some (.name "Tree")⟩,
          ⟨"children", false, false, some (.array (.name "Tree"))⟩] [] }]⟩]
  distinct := by decide

/-- The call for the parent is made within the call for the tree and answers with the node
that is still being built. -/
theorem treeUniverse_identity : ∃ tr, treeUniverse.tracedSchema? 9 = some tr ∧
    tr.calls.map (fun c => (c.type, c.id)) =
      [(⟨0⟩, ⟨0⟩), (⟨2⟩, ⟨2⟩), (⟨0⟩, ⟨0⟩), (⟨0⟩, ⟨0⟩), (⟨1⟩, ⟨1⟩)] ∧
    ∀ c ∈ tr.calls, ∀ d ∈ tr.calls, ∀ s s' key key' s₁ s₂,
      treeUniverse.MomentOf c s → treeUniverse.KeyAt s c.type key s₁ →
      treeUniverse.MomentOf d s' → treeUniverse.KeyAt s' d.type key' s₂ →
      (c.id = d.id ↔ key.isEqual key' = true) := by
  have hsome : (treeUniverse.tracedSchema? 9).isSome = true := by decide +kernel
  obtain ⟨tr, htr⟩ := Option.isSome_iff_exists.1 hsome
  refine ⟨tr, htr, ?_, (pass_of_tracedSchema? htr).identity.2.2⟩
  have hcalls : (treeUniverse.tracedSchema? 9).map (fun tr => tr.calls.map fun c => (c.type, c.id)) =
      some [(⟨0⟩, ⟨0⟩), (⟨2⟩, ⟨2⟩), (⟨0⟩, ⟨0⟩), (⟨0⟩, ⟨0⟩), (⟨1⟩, ⟨1⟩)] := by decide +kernel
  rw [htr] at hcalls
  exact Option.some.inj hcalls

end Universe
end TypedJson
