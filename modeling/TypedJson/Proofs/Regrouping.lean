import TypedJson.Proofs.Retention
import TypedJson.Proofs.Fuel
/-!
# Unions in other groupings

What a union stands for is the set of its leaves.  However its branches are nested, repeated, aliased
or put in order, and also if they go round in a circle, the walk finds the same leaves and only meets
them in another order (`Universe.leaves_perm`).  The key does not depend on that order
(`Universe.keyOfBranches_perm`).  So once a type was built, every type of the same leaves is known
(`Universe.buildNode_regrouped`).

The call for the second type needs fuel too, and it is shown that the fuel of the first call
is enough.  That rests on two facts: the keys of the leaves are known to last, so that to ask
for them again adds nothing, and the number under the key was found or given by the first
call, so the second one never begins to build.
-/
namespace TypedJson
namespace Universe

variable {u : Universe} {s s' : Interner}

/-- The two types lead to the same types other than unions. -/
def SameLeaves (s : Interner) (a b : TypeId) : Prop :=
  ∀ r, s.Leads a r ∧ s.union? r = none ↔ s.Leads b r ∧ s.union? r = none

theorem leaves_perm (hs : u.Sound s) {a b : TypeId} (ha : s.Has a) (hb : s.Has b)
    (h : SameLeaves s a b) : (u.leaves s a).Perm (u.leaves s b) := by
  rw [List.perm_ext_iff_of_nodup (nodup_leaves hs ha) (nodup_leaves hs hb)]
  intro r
  rw [mem_leaves_iff hs ha, mem_leaves_iff hs hb]
  exact h r

theorem sameLeaves_of_leaves_perm (hs : u.Sound s) {a b : TypeId} (ha : s.Has a) (hb : s.Has b)
    (h : (u.leaves s a).Perm (u.leaves s b)) : SameLeaves s a b := by
  intro r
  rw [← mem_leaves_iff hs ha, ← mem_leaves_iff hs hb]
  exact h.mem_iff

theorem keyOfBranches_lasts {ts : List TypeId} {keys : List TypeKey} {fuel : Nat}
    (hlength : 2 ≤ ts.length) (h : List.Forall₂ (fun t key => Lasts s (u.keyOf fuel t) key) ts keys) :
    Lasts s (u.keyOfBranches fuel ts) (.union keys) := by
  match ts, hlength with
  | _ :: _ :: _, _ => exact (Lasts.mapM h).bind (.pure s _)

/-- **The order of the branches is nothing to their key.**  With the fuel that was enough for the one
order the key of the other is found, and to find it adds nothing to the table. -/
theorem keyOfBranches_perm (hs : u.Sound s) {ts ts' : List TypeId} (hperm : ts.Perm ts')
    (hts : ∀ t ∈ ts, s.Has t) {fuel : Nat} {key : TypeKey}
    (hrun : u.keyOfBranches fuel ts s = some (key, s')) :
    ∃ key', TypeKey.Same key key' ∧ Lasts s' (u.keyOfBranches fuel ts') key' := by
  have hlasts := (keyOfBranches_settles hs fuel hts key s' hrun).2.1
  match ts with
  | [] =>
    rw [List.nil_perm.1 hperm]
    exact ⟨key, TypeKey.same_refl key, hlasts⟩
  | [t] =>
    rw [List.singleton_perm.1 hperm] at hlasts
    exact ⟨key, TypeKey.same_refl key, hlasts⟩
  | t :: t' :: rest =>
    obtain ⟨keys, s₁, hkeys, hpure⟩ := bind_eq_some.1 hrun
    cases hpure
    have hall := (Settles.forall₂ hs (t :: t' :: rest) (fun x hx s₁ h₁ =>
      keyWithin_settles u fuel [] x s₁ h₁.sound (h₁.has (hts x hx))) keys s' hkeys).2
    obtain ⟨keys', hall', hperm'⟩ := List.perm_comp_forall₂ hperm.symm hall
    refine ⟨.union keys', TypeKey.same_union_iff.2 ⟨keys, ?_, hperm'.symm⟩, ?_⟩
    · exact TypeKey.forall₂_refl fun x _ => TypeKey.same_refl x
    · exact keyOfBranches_lasts (by rw [← hperm.length_eq]; simp) hall'

theorem buildNode_of_known {st : BuildState} {t : TypeId} {fuel : Nat} {key : TypeKey} {id : NodeId}
    (hkey : u.keyOfBranches fuel (u.leaves st.types t) st.types = some (key, st.types))
    (hget : st.keys.get? key = some id) : u.buildNode (fuel + 1) t st = some (id, st) := by
  rw [buildNode]
  unfold buildStep
  simp only [monadLift_self]
  refine bind_eq_some.2 ⟨_, st, rfl, bind_eq_some.2 ⟨key, st, ?_, bind_eq_some.2 ⟨_, st, rfl, ?_⟩⟩⟩
  · unfold Build.ask
    rw [hkey]
  · rw [hget]
    rfl

/-- **Unions are canonical.**  From any state of a pass, whatever keys and nodes are in it, once a
type was built, every type of the same leaves is known: with that fuel or more the call for it comes
to an end, answers with the same node and changes nothing. -/
theorem buildNode_regrouped (u : Universe) {st st' : BuildState} (hreach : u.Reaches u.start st.types)
    {a b : TypeId} (ha : st.types.Has a) (hb : st.types.Has b) (hleaves : SameLeaves st.types a b)
    {fuel : Nat} {id : NodeId} (hbuilt : u.buildNode fuel a st = some (id, st')) :
    ∀ fuel', fuel ≤ fuel' → u.buildNode fuel' b st' = some (id, st') := by
  have hs : u.Sound st.types := (reaches_grown (start_sound u) hreach).sound
  cases fuel with
  | zero => cases hbuilt
  | succ fuel =>
    obtain ⟨hretains, key, types, hrun, hgrown, hget⟩ :=
      buildStep_adds (buildNode_adds u fuel) hs ha fuel id st' hbuilt
    have hperm : (u.leaves st.types a).Perm (u.leaves st'.types b) := by
      rw [leaves_grown hs hretains.types.sound hretains.types.grows hb]
      exact leaves_perm hs ha hb hleaves
    obtain ⟨key', hsame, hlasts⟩ := keyOfBranches_perm hs hperm (leaves_has hs ha) hrun
    rw [KeyTable.get?_of_same hsame] at hget
    -- the key is found at the table that the first call has left behind
    intro fuel' hle
    obtain ⟨fuel', rfl⟩ := Nat.exists_eq_succ_of_ne_zero (Nat.ne_zero_of_lt hle)
    refine buildNode_of_known ?_ hget
    exact CoveredBy.of_le (fun fuel => keyOfBranches_covered u fuel _) (Nat.le_of_succ_le_succ hle) _ _
      (hlasts st'.types hgrown.grows)

/-- One unit: two unions within each other, each with a type of its own. -/
def ringUniverse : Universe where
  units := [⟨"ring.ts", [
    { name := "Even", exported := true, line := none, typeParams := []
      body := .typeAlias (.union [.name "number", .name "Odd"]) },
    { name := "Odd", exported := true, line := none, typeParams := []
      body := .typeAlias (.union [.name "string", .name "Even", .name "string"]) }]⟩]
  distinct := by decide

/-- The leaves of the two are met in different orders, and yet their node is the same. -/
theorem ringUniverse_regrouped : ∃ types id st,
    ringUniverse.exportedTypes 6 ringUniverse.start = some ([⟨0⟩, ⟨2⟩], types) ∧
      ringUniverse.leaves types ⟨0⟩ = [⟨1⟩, ⟨3⟩] ∧ ringUniverse.leaves types ⟨2⟩ = [⟨3⟩, ⟨1⟩] ∧
      ringUniverse.buildNode 6 ⟨0⟩ (.start types) = some (id, st) ∧
      ringUniverse.buildNode 6 ⟨2⟩ st = some (id, st) := by
  have hfacts : (ringUniverse.exportedTypes 6 ringUniverse.start).map (fun r =>
      (r.1, r.2.slots.size, ringUniverse.leaves r.2 ⟨0⟩, ringUniverse.leaves r.2 ⟨2⟩,
        (ringUniverse.buildNode 6 ⟨0⟩ (.start r.2)).isSome)) =
      some ([⟨0⟩, ⟨2⟩], 4, [⟨1⟩, ⟨3⟩], [⟨3⟩, ⟨1⟩], true) := by decide +kernel
  obtain ⟨⟨ts, types⟩, hrun, hfacts⟩ := Option.map_eq_some_iff.1 hfacts
  simp only [Prod.mk.injEq] at hfacts
  obtain ⟨rfl, hsize, heven, hodd, hsome⟩ := hfacts
  obtain ⟨⟨id, st⟩, hbuilt⟩ := Option.isSome_iff_exists.1 hsome
  have hreach : ringUniverse.Reaches ringUniverse.start types := .single (.exported hrun)
  have hs : ringUniverse.Sound types := (reaches_grown (start_sound ringUniverse) hreach).sound
  have hhas : ∀ i, i < 4 → types.Has ⟨i⟩ := fun i hi => by
    rw [Interner.Has, hsize]
    exact hi
  have hleaves : SameLeaves types ⟨0⟩ ⟨2⟩ := by
    refine sameLeaves_of_leaves_perm hs (hhas 0 (by decide)) (hhas 2 (by decide)) ?_
    rw [heven, hodd]
    exact .swap _ _ []
  exact ⟨types, id, st, hrun, heven, hodd, hbuilt, buildNode_regrouped ringUniverse hreach
    (hhas 0 (by decide)) (hhas 2 (by decide)) hleaves hbuilt 6 (Nat.le_refl 6)⟩

end Universe
end TypedJson
