import TypedJson.Proofs.Leaves
import TypedJson.Proofs.Image
/-!
# Unions flattened

`Unrolls` is the depth-first walk through the branches of a type from left to right: it has no
memory, and is cut only at a union that it is inside of.  The walk that collects the leaves enters
each union once.  What it skips adds nothing: a union that it meets again is open, and cut by the
other walk too, or it is finished, and then everything that is met below it is collected
(`Unrolls.subset`).  So the leaves are what `Unrolls` meets, in the order in which it meets them
first (`Unrolls.collects`).
-/
namespace TypedJson
namespace Universe

variable {u : Universe} {s : Interner}

/-! ## The walk without memory

It visits a union as often as a path leads to it, and it ends since a union inside of itself
is cut.  The unions it is inside of are distinct, so the depth is bounded by the table. -/

/-- From the unions that are open and the types to visit to the leaves that are met, as often as
they are met. -/
inductive Unrolls (u : Universe) (s : Interner) : List TypeId → List TypeId → List TypeId → Prop
  | done (opened : List TypeId) : Unrolls u s opened [] []
  | leaf {opened rest walk : List TypeId} {t : TypeId} (h : u.branches? s t = none)
      (tail : Unrolls u s opened rest walk) : Unrolls u s opened (t :: rest) (t :: walk)
  | cut {opened branches rest walk : List TypeId} {t : TypeId} (h : u.branches? s t = some branches)
      (inside : t ∈ opened) (tail : Unrolls u s opened rest walk) :
      Unrolls u s opened (t :: rest) walk
  | enter {opened branches rest inner walk : List TypeId} {t : TypeId}
      (h : u.branches? s t = some branches) (outside : t ∉ opened)
      (head : Unrolls u s (t :: opened) branches inner) (tail : Unrolls u s opened rest walk) :
      Unrolls u s opened (t :: rest) (inner ++ walk)

namespace Unrolls

theorem unique {opened ts walk walk' : List TypeId} (h : Unrolls u s opened ts walk)
    (h' : Unrolls u s opened ts walk') : walk = walk' := by
  induction h generalizing walk' with
  | done opened =>
    cases h'
    rfl
  | leaf h _ ih =>
    cases h' with
    | leaf _ tail => rw [ih tail]
    | cut h2 => rw [h] at h2; cases h2
    | enter h2 => rw [h] at h2; cases h2
  | cut h inside _ ih =>
    cases h' with
    | leaf h2 => rw [h] at h2; cases h2
    | cut _ _ tail => exact ih tail
    | enter _ outside => exact absurd inside outside
  | enter h outside _ _ ihHead ihTail =>
    cases h' with
    | leaf h2 => rw [h] at h2; cases h2
    | cut _ inside => exact absurd inside outside
    | enter h2 _ head tail =>
      rw [h] at h2
      cases h2
      rw [ihHead head, ihTail tail]

/-- The walk comes to an end, because the unions it is inside of are distinct. -/
theorem total (hs : u.Sound s) : ∀ (room : Nat) (opened ts : List TypeId), (∀ t ∈ ts, s.Has t) →
    opened.Nodup → (∀ t ∈ opened, s.Has t) → s.slots.size ≤ room + opened.length →
    ∃ walk, Unrolls u s opened ts walk
  | _, opened, [], _, _, _, _ => ⟨[], .done opened⟩
  | room, opened, t :: rest, hts, nodup, lt, enough => by
    obtain ⟨ht, hrest⟩ := List.forall_mem_cons.1 hts
    obtain ⟨walk, tail⟩ := total hs room opened rest hrest nodup lt enough
    cases h : u.branches? s t with
    | none => exact ⟨t :: walk, .leaf h tail⟩
    | some branches =>
      by_cases hopen : t ∈ opened
      · exact ⟨walk, .cut h hopen tail⟩
      · have hnodup : (t :: opened).Nodup := List.nodup_cons.2 ⟨hopen, nodup⟩
        have hlt : ∀ x ∈ t :: opened, s.Has x := List.forall_mem_cons.2 ⟨ht, lt⟩
        have hlength := length_le_of_nodup_of_lt TypeId.index TypeId.index_injective (t :: opened) _
          hnodup hlt
        match room, enough with
        | 0, enough => rw [List.length_cons] at hlength; omega
        | room + 1, enough =>
          obtain ⟨inner, head⟩ :=
            total hs room (t :: opened) branches (branches?_has hs h) hnodup hlt
            (by rw [List.length_cons]; omega)
          exact ⟨inner ++ walk, .enter h hopen head tail⟩

end Unrolls

/-! ## The two walks compared

`Underway` is the invariant of the collecting walk: what is below a union that is finished
has been collected, and what is not finished is open.  With it the two walks are compared
union by union.  A union that the collecting walk skips is either open, and cut on the other
side too, or finished, and then all that the other walk finds below it has been collected. -/

/-- What is true of the types met while the unions `opened` are open: the open ones are met, the
leaves are leaves and the unions are unions, and what stands below the finished ones is met. -/
structure Underway (u : Universe) (s : Interner) (opened : List TypeId) (met : Met) : Prop where
  inside : ∀ t ∈ opened, t ∈ met.2
  leaves : ∀ t ∈ met.1, u.branches? s t = none
  unions : ∀ t ∈ met.2, u.branches? s t ≠ none
  finished : ∀ t ∈ met.2, t ∉ opened → ∀ branches, u.branches? s t = some branches →
    ∀ b ∈ branches, IsMet b met

theorem IsMet.addLeaf {t x : TypeId} {met : Met} (h : IsMet x met) : IsMet x (addLeaf t met) :=
  h.imp (fun h => mem_addLeaf.2 (.inr h)) fun h => by rwa [addLeaf_unions]

theorem Collects.meets {ts : List TypeId} {met out : Met} (h : Collects u s ts met out) :
    (∀ x, IsMet x met → IsMet x out) ∧ ∀ x ∈ ts, IsMet x out := by
  induction h with
  | done met => exact ⟨fun _ hx => hx, List.forall_mem_nil _⟩
  | leaf h _ ih =>
    exact ⟨fun x hx => ih.1 x hx.addLeaf,
      List.forall_mem_cons.2 ⟨ih.1 _ (.inl (mem_addLeaf.2 (.inl rfl))), ih.2⟩⟩
  | again h seen _ ih => exact ⟨ih.1, List.forall_mem_cons.2 ⟨ih.1 _ (.inr seen), ih.2⟩⟩
  | enter h new _ ih =>
    exact ⟨fun x hx => ih.1 x (hx.imp_right (List.mem_cons_of_mem _)),
      List.forall_mem_cons.2 ⟨ih.1 _ (.inr List.mem_cons_self), (List.forall_mem_append.1 ih.2).2⟩⟩

namespace Underway

variable {opened branches : List TypeId} {met : Met} {t : TypeId}

theorem start : Underway u s [] ([], []) :=
  ⟨List.forall_mem_nil _, List.forall_mem_nil _, List.forall_mem_nil _, fun _ h => by cases h⟩

theorem addLeaf (h : Underway u s opened met) (ht : u.branches? s t = none) :
    Underway u s opened (addLeaf t met) where
  inside x hx := by
    rw [addLeaf_unions]
    exact h.inside x hx
  leaves x hx := by
    rcases mem_addLeaf.1 hx with rfl | hx
    · exact ht
    · exact h.leaves x hx
  unions x hx := by
    rw [addLeaf_unions] at hx
    exact h.unions x hx
  finished x hx hout branches hbranches b hb := by
    rw [addLeaf_unions] at hx
    exact (h.finished x hx hout branches hbranches b hb).addLeaf

theorem enter (h : Underway u s opened met) (ht : u.branches? s t = some branches) :
    Underway u s (t :: opened) (met.1, t :: met.2) where
  inside x hx := by
    rcases List.mem_cons.1 hx with rfl | hx
    · exact List.mem_cons_self
    · exact List.mem_cons_of_mem t (h.inside x hx)
  leaves := h.leaves
  unions := by
    refine List.forall_mem_cons.2 ⟨?_, h.unions⟩
    rw [ht]
    exact Option.some_ne_none branches
  finished x hx hout branches' hbranches' b hb := by
    have hx := (List.mem_cons.1 hx).resolve_left (List.ne_of_not_mem_cons hout)
    exact (h.finished x hx (List.not_mem_of_not_mem_cons hout) branches' hbranches' b hb).imp_right
      (List.mem_cons_of_mem t)

theorem leave (h : Underway u s (t :: opened) met) (ht : u.branches? s t = some branches)
    (hbranches : ∀ b ∈ branches, IsMet b met) : Underway u s opened met where
  inside x hx := h.inside x (List.mem_cons_of_mem t hx)
  leaves := h.leaves
  unions := h.unions
  finished x hx hout branches' hbranches' b hb := by
    by_cases hxt : x = t
    · subst hxt
      rw [ht] at hbranches'
      cases hbranches'
      exact hbranches b hb
    · exact h.finished x hx (List.not_mem_cons_of_ne_of_not_mem hxt hout) branches' hbranches' b hb

theorem reopen (h : Underway u s opened met) (ht : t ∈ met.2) : Underway u s (t :: opened) met where
  inside := List.forall_mem_cons.2 ⟨ht, h.inside⟩
  leaves := h.leaves
  unions := h.unions
  finished x hx hout := h.finished x hx (List.not_mem_of_not_mem_cons hout)

end Underway

/-- The leaves met with more of them, each added unless it is there. -/
def addLeaves (found walk : List TypeId) : List TypeId :=
  walk.foldl (fun found t => found.insert t) found

theorem addLeaves_append (found walk walk' : List TypeId) :
    addLeaves found (walk ++ walk') = addLeaves (addLeaves found walk) walk' :=
  List.foldl_append

theorem addLeaves_of_subset {found : List TypeId} : ∀ {walk : List TypeId},
    (∀ t ∈ walk, t ∈ found) → addLeaves found walk = found
  | [], _ => rfl
  | t :: walk, h => by
    obtain ⟨ht, hwalk⟩ := List.forall_mem_cons.1 h
    rw [addLeaves, List.foldl_cons, List.insert_of_mem ht]
    exact addLeaves_of_subset hwalk

theorem addLeaf_leaves (t : TypeId) (met : Met) : (addLeaf t met).1 = met.1.insert t := by
  unfold addLeaf List.insert
  split
  · rfl
  · rfl

theorem eraseDups_loop : ∀ walk found : List TypeId,
    List.eraseDupsBy.loop (· == ·) walk found = (addLeaves found walk).reverse
  | [], _ => rfl
  | t :: walk, found => by
    have hany : found.any (t == ·) = found.contains t := List.any_beq
    rw [List.eraseDupsBy.loop, hany, addLeaves, List.foldl_cons, List.insert]
    cases found.contains t with
    | true => exact eraseDups_loop walk found
    | false => exact eraseDups_loop walk (t :: found)

theorem eraseDups_eq (walk : List TypeId) : walk.eraseDups = (addLeaves [] walk).reverse :=
  eraseDups_loop walk []

namespace Unrolls

/-- Below types that are met, with everything below the finished unions, no leaf is new. -/
theorem subset {opened ts walk : List TypeId} {met : Met} (h : Unrolls u s opened ts walk)
    (hmet : Underway u s opened met) (hts : ∀ t ∈ ts, IsMet t met) : ∀ x ∈ walk, x ∈ met.1 := by
  induction h with
  | done => exact List.forall_mem_nil _
  | leaf h _ ih =>
    obtain ⟨ht, hrest⟩ := List.forall_mem_cons.1 hts
    exact List.forall_mem_cons.2
      ⟨ht.resolve_right fun hunion => hmet.unions _ hunion h, ih hmet hrest⟩
  | cut _ _ _ ih => exact ih hmet (List.forall_mem_cons.1 hts).2
  | enter h outside _ _ ihHead ihTail =>
    obtain ⟨ht, hrest⟩ := List.forall_mem_cons.1 hts
    have hunion := ht.resolve_left fun hleaf => by
      rw [hmet.leaves _ hleaf] at h
      cases h
    refine List.forall_mem_append.2 ⟨ihHead (hmet.reopen hunion) ?_, ihTail hmet hrest⟩
    exact hmet.finished _ hunion outside _ h

/-- The walk that enters each union once, from what was met before: it finds what the walk without
memory meets, less what was there. -/
theorem collects {opened ts walk : List TypeId} {met : Met} (h : Unrolls u s opened ts walk)
    (hmet : Underway u s opened met) : ∃ out, Collects u s ts met out ∧ Underway u s opened out ∧
      out.1 = addLeaves met.1 walk := by
  induction h generalizing met with
  | done => exact ⟨met, .done met, hmet, rfl⟩
  | @leaf opened rest walk t h _ ih =>
    obtain ⟨out, hout, hunderway, hleaves⟩ := ih (hmet.addLeaf h)
    rw [addLeaf_leaves] at hleaves
    exact ⟨out, .leaf h hout, hunderway, hleaves⟩
  | @cut opened branches rest walk t h inside _ ih =>
    obtain ⟨out, hout, hunderway, hleaves⟩ := ih hmet
    exact ⟨out, .again h (hmet.inside t inside) hout, hunderway, hleaves⟩
  | @enter opened branches rest inner walk t h outside head _ ihHead ihTail =>
    by_cases hseen : t ∈ met.2
    · -- the union is finished, and its leaves are there
      have hbranches := hmet.finished t hseen outside branches h
      have hinner := addLeaves_of_subset (head.subset (hmet.reopen hseen) hbranches)
      obtain ⟨out, hout, hunderway, hleaves⟩ := ihTail hmet
      refine ⟨out, .again h hseen hout, hunderway, ?_⟩
      rw [addLeaves_append, hinner, hleaves]
    · obtain ⟨mid, hmid, hopen, hinner⟩ := ihHead (hmet.enter h)
      obtain ⟨out, hout, hunderway, hleaves⟩ := ihTail (hopen.leave h hmid.meets.2)
      refine ⟨out, .enter h hseen (hmid.append hout), hunderway, ?_⟩
      rw [addLeaves_append, hleaves, hinner]

end Unrolls

/-! ## The leaves

From nothing met the collecting walk finds the first occurrences of what the other one
meets. -/

/-- **The leaves in the order of their first occurrences.** -/
theorem leaves_eq_eraseDups (hs : u.Sound s) {t : TypeId} (ht : s.Has t) {walk : List TypeId}
    (h : Unrolls u s [] [t] walk) : u.leaves s t = walk.eraseDups := by
  obtain ⟨out, hout, hleaves⟩ := leaves_collects hs ht
  obtain ⟨out', hout', -, hwalk⟩ := h.collects Underway.start
  rw [hleaves, eraseDups_eq, hout.unique hout', hwalk]

/-- The walk that collects has one end, and all fuel beyond the number of handles finds it. -/
theorem collectLeaves_ends (hs : u.Sound s) {t : TypeId} (ht : s.Has t) :
    ∃ out, (∀ met, Collects u s [t] ([], []) met ↔ met = out) ∧
      (∀ fuel, s.slots.size < fuel → u.collectLeaves s fuel t ([], []) = out) ∧
      u.leaves s t = out.1.reverse := by
  have hruns : ∀ fuel, s.slots.size < fuel →
      Collects u s [t] ([], []) (u.collectLeaves s fuel t ([], [])) := fun fuel hfuel =>
    foldl_collectLeaves hs fuel [t] ([], []) (List.forall_mem_singleton.2 ht) List.nodup_nil
      (List.forall_mem_nil _) hfuel
  have hend := hruns _ (Nat.lt_succ_self _)
  refine ⟨_, fun met => ⟨fun h => h.unique hend, ?_⟩,
    fun fuel hfuel => (hruns fuel hfuel).unique hend,
    rfl⟩
  rintro rfl
  exact hend

/-- **Flattening is exact.**  At every moment between questions and for every handle, unions that
contain themselves or each other included, the walk that collects the leaves comes to its one end;
what it finds are the first occurrences, in their order, of the leaves that the depth-first walk
from left to right meets; each is found once; they are the types that union branches lead to and
that are no unions or are enums; and no union is among them. -/
theorem leaves_exact (u : Universe) {s : Interner} (hreach : u.Reaches u.start s) {t : TypeId}
    (ht : s.Has t) :
    (∃ out, (∀ met, Collects u s [t] ([], []) met ↔ met = out) ∧
      (∀ fuel, s.slots.size < fuel → u.collectLeaves s fuel t ([], []) = out) ∧
      u.leaves s t = out.1.reverse) ∧
    (∃ walk, (∀ other, Unrolls u s [] [t] other ↔ other = walk) ∧
      u.leaves s t = walk.eraseDups) ∧
    (u.leaves s t).Nodup ∧
    (∀ r, r ∈ u.leaves s t ↔ s.Leads t r ∧ (s.union? r = none ∨ u.isEnum s r = true)) ∧
    ∀ r ∈ u.leaves s t, s.union? r = none := by
  have hs : u.Sound s := (reaches_grown (start_sound u) hreach).sound
  obtain ⟨walk, hwalk⟩ := Unrolls.total hs s.slots.size [] [t] (List.forall_mem_singleton.2 ht)
    List.nodup_nil (List.forall_mem_nil _) (Nat.le_refl _)
  refine ⟨collectLeaves_ends hs ht, ⟨walk, fun other => ⟨fun h => h.unique hwalk, ?_⟩,
    leaves_eq_eraseDups hs ht hwalk⟩, nodup_leaves hs ht, fun r => ?_,
    fun r hr => union?_of_mem_leaves hs ht hr⟩
  · rintro rfl
    exact hwalk
  · rw [mem_leaves_iff hs ht, ← branches?_eq hs]
    unfold branches?
    by_cases henum : u.isEnum s r = true
    · simp [henum]
    · simp [henum]

/-- Two unions that hold themselves and each other, and an enum. -/
def knotUniverse : Universe where
  units := [⟨"knot.ts", [
    { name := "Knot", exported := true, line := none, typeParams := []
      body := .typeAlias (.union [.name "Knot", .name "string", .name "Loop", .name "Color"]) },
    { name := "Loop", exported := true, line := none, typeParams := []
      body := .typeAlias (.union [.name "Color", .name "Knot", .name "number", .name "string"]) },
    { name := "Color", exported := true, line := none, typeParams := []
      body := .enum [⟨"Red", some (.str "red")⟩] }]⟩]
  distinct := by decide

/-- The first union has three leaves, the enum behind the string and in front of the number. -/
theorem knotUniverse_leaves : ∃ types,
    knotUniverse.Reaches knotUniverse.start types ∧ types.Has ⟨0⟩ ∧
      types.union? ⟨0⟩ = some [⟨0⟩, ⟨1⟩, ⟨2⟩, ⟨3⟩] ∧ types.union? ⟨2⟩ = some [⟨3⟩, ⟨0⟩, ⟨4⟩, ⟨1⟩] ∧
      knotUniverse.leaves types ⟨0⟩ = [⟨1⟩, ⟨3⟩, ⟨4⟩] ∧
      (∃ out, ∀ met, Collects knotUniverse types [⟨0⟩] ([], []) met ↔ met = out) ∧
      (∃ walk, (∀ other, Unrolls knotUniverse types [] [⟨0⟩] other ↔ other = walk) ∧
        walk.eraseDups = [⟨1⟩, ⟨3⟩, ⟨4⟩]) ∧
      ∀ r, r ∈ [⟨1⟩, ⟨3⟩, ⟨4⟩] ↔ types.Leads ⟨0⟩ r ∧
        (types.union? r = none ∨ knotUniverse.isEnum types r = true) := by
  have hfacts : (knotUniverse.exportedTypes 6 knotUniverse.start).map (fun r =>
      (r.2.slots.size, r.2.union? ⟨0⟩, r.2.union? ⟨2⟩, knotUniverse.leaves r.2 ⟨0⟩)) =
      some (5, some [⟨0⟩, ⟨1⟩, ⟨2⟩, ⟨3⟩], some [⟨3⟩, ⟨0⟩, ⟨4⟩, ⟨1⟩], [⟨1⟩, ⟨3⟩, ⟨4⟩]) := by
    decide +kernel
  obtain ⟨⟨ts, types⟩, hrun, hfacts⟩ := Option.map_eq_some_iff.1 hfacts
  simp only [Prod.mk.injEq] at hfacts
  obtain ⟨hsize, hknot, hloop, hleaves⟩ := hfacts
  have hreach : knotUniverse.Reaches knotUniverse.start types := .single (.exported hrun)
  have hhas : types.Has ⟨0⟩ := by
    rw [Interner.Has, hsize]
    decide
  obtain ⟨⟨out, hout, -⟩, ⟨walk, hwalk, hdups⟩, -, hmem, -⟩ := leaves_exact knotUniverse hreach hhas
  rw [hleaves] at hdups hmem
  exact ⟨types, hreach, hhas, hknot, hloop, hleaves, ⟨out, hout⟩, ⟨walk, hwalk, hdups.symm⟩, hmem⟩

end Universe
end TypedJson
