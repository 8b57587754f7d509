import TypedJson.Proofs.Image
import TypedJson.Proofs.KeyEquality
/-!
# The invariant of a pass

In every state of a pass the keys and the nodes fit together (`BuildState.WellKept`): each
key has its own node, and no two keys are equal.  A call that was answered goes on being
right: its node has the key of its type, and if the call made the node then the node
describes the type (`Universe.CallSound`).

A call leaves what was there before as it was, and all the nodes that it adds are finished
(`Universe.Later`).  Its own node is the exception while the call is under way: it is there,
but no call has answered for it yet.  So `Universe.Extends` leaves the added nodes open, and
`Universe.Later` closes them when the call returns.
-/
namespace TypedJson

/-- The keys and the nodes fit together: key and node have the same number, and no two
keys are equal. -/
structure BuildState.WellKept (s : BuildState) : Prop where
  size : s.keys.entries.size = s.nodes.size
  ids : ∀ (i : Nat) (entry : TypeKey × NodeId), s.keys.entries[i]? = some entry → entry.2 = ⟨i⟩
  distinct : ∀ (i j : Nat) (entry entry' : TypeKey × NodeId), s.keys.entries[i]? = some entry →
    s.keys.entries[j]? = some entry' → i ≠ j → entry.1.isEqual entry'.1 = false

namespace BuildState.WellKept

variable {s : BuildState}

theorem start (types : Interner) : (BuildState.start types).WellKept where
  size := rfl
  ids := fun _ _ h => by cases h
  distinct := fun _ _ _ _ h => by cases h

theorem known (h : s.WellKept) {key : TypeKey} {id : NodeId} (hget : s.keys.get? key = some id) :
    ∃ entry, s.keys.entries[id.index]? = some entry ∧ TypeKey.Same entry.1 key := by
  obtain ⟨entry, hfind, rfl⟩ := Option.map_eq_some_iff.1 hget
  obtain ⟨i, hi⟩ := Array.getElem?_of_mem (Array.mem_of_find?_eq_some hfind)
  have hsame : TypeKey.Same entry.1 key := by simpa using Array.find?_some hfind
  refine ⟨entry, ?_, hsame⟩
  rw [h.ids i entry hi]
  exact hi

theorem unknown {key : TypeKey} (hget : s.keys.get? key = none) {i : Nat}
    {entry : TypeKey × NodeId} (hi : s.keys.entries[i]? = some entry) :
    ¬ TypeKey.Same entry.1 key := by
  have hnone := Array.find?_eq_none.1 (Option.map_eq_none_iff.1 hget)
  exact hnone entry (Array.mem_of_getElem? hi)

theorem allocate (h : s.WellKept) {key : TypeKey} (hget : s.keys.get? key = none) :
    BuildState.WellKept { s with
      keys := s.keys.insert key ⟨s.nodes.size⟩, nodes := s.nodes.push .placeholder } where
  size := by
    show (s.keys.entries.push _).size = (s.nodes.push _).size
    rw [Array.size_push, Array.size_push, h.size]
  ids := by
    intro i entry hi
    have hi : (s.keys.entries.push (key, ⟨s.nodes.size⟩))[i]? = some entry := hi
    rw [Array.getElem?_push] at hi
    split at hi
    · rename_i heq
      cases hi
      rw [heq, h.size]
    · exact h.ids i entry hi
  distinct := by
    intro i j entry entry' hi hj hne
    have hi : (s.keys.entries.push (key, ⟨s.nodes.size⟩))[i]? = some entry := hi
    have hj : (s.keys.entries.push (key, ⟨s.nodes.size⟩))[j]? = some entry' := hj
    rw [Array.getElem?_push] at hi hj
    rw [Bool.eq_false_iff]
    -- two old entries differ already; of an old and the new one the lookup has shown it
    by_cases hiEnd : i = s.keys.entries.size
    · by_cases hjEnd : j = s.keys.entries.size
      · exact absurd (hiEnd.trans hjEnd.symm) hne
      · rw [if_pos hiEnd] at hi
        rw [if_neg hjEnd] at hj
        cases hi
        exact fun hsame => unknown hget hj (TypeKey.Same.symm hsame)
    · rw [if_neg hiEnd] at hi
      by_cases hjEnd : j = s.keys.entries.size
      · rw [if_pos hjEnd] at hj
        cases hj
        exact unknown hget hi
      · rw [if_neg hjEnd] at hj
        rw [h.distinct i j entry entry' hi hj hne]
        decide

theorem index_eq (h : s.WellKept) {i j : Nat} {entry entry' : TypeKey × NodeId}
    (hi : s.keys.entries[i]? = some entry) (hj : s.keys.entries[j]? = some entry')
    (hsame : TypeKey.Same entry.1 entry'.1) : i = j := by
  by_contra hne
  have hfalse := h.distinct i j entry entry' hi hj hne
  rw [hsame] at hfalse
  cases hfalse

end BuildState.WellKept

namespace Universe

variable {u : Universe}

/-- The branches of the type have this key, and the table is the other one once it is
known. -/
def KeyAt (u : Universe) (s : Interner) (t : TypeId) (key : TypeKey) (s' : Interner) : Prop :=
  ∃ fuel, u.keyOfBranches fuel (u.leaves s t) s = some (key, s')

theorem KeyAt.asks {s s' : Interner} (hs : u.Sound s) {t : TypeId} (ht : s.Has t) {key : TypeKey}
    (h : u.KeyAt s t key s') : u.Asks s s' := by
  obtain ⟨fuel, hrun⟩ := h
  exact .key (leaves_has hs ht) hrun

/-- **A key lasts**: asked for again later, it is the same, and nothing changes. -/
theorem KeyAt.lasts {s s₁ s₂ : Interner} (hs : u.Sound s) {t : TypeId} (ht : s.Has t)
    {key : TypeKey} (h : u.KeyAt s t key s₁) (hreach : u.Reaches s₁ s₂) :
    u.KeyAt s₂ t key s₂ := by
  have hgrown := asks_grown hs (h.asks hs ht)
  have hgrown' := reaches_grown hgrown.sound hreach
  obtain ⟨fuel, hrun⟩ := h
  have hlast := (keyOfBranches_settles hs fuel (leaves_has hs ht) key s₁ hrun).2.1
  refine ⟨fuel, ?_⟩
  rw [leaves_grown hs hgrown'.sound (hgrown.grows.trans hgrown'.grows) ht]
  exact hlast s₂ hgrown'.grows

/-! ## From one trace to a later one

Growth from one trace to another has two strengths.  Within a call only `Extends` holds,
since the node of the call itself is still a placeholder; when the call has returned,
everything that it added is finished, and that is `Later`.  Both are transitive, and both are
what a call promises to whoever made it. -/

/-- The second trace has all that the first has. -/
structure Extends (u : Universe) (tr tr' : Trace) : Prop where
  types : u.Reaches tr.types tr'.types
  entries : ∀ (i : Nat) (entry : TypeKey × NodeId), tr.entries[i]? = some entry →
    tr'.entries[i]? = some entry
  nodes : ∀ (i : Nat) (n : SchemaNode), tr.nodes[i]? = some n → tr'.nodes[i]? = some n
  calls : ∃ new, tr'.calls = new ++ tr.calls ∧ ∀ c ∈ new, tr.nodes.size ≤ c.before.nodes.size

namespace Extends

theorem refl (u : Universe) (tr : Trace) : u.Extends tr tr :=
  ⟨.refl, fun _ _ h => h, fun _ _ h => h, [], rfl, fun _ h => by cases h⟩

theorem size_le {tr tr' : Trace} (h : u.Extends tr tr') : tr.nodes.size ≤ tr'.nodes.size := by
  by_contra hlt
  have hget : tr.nodes[tr'.nodes.size]? = some tr.nodes[tr'.nodes.size] :=
    Array.getElem?_eq_getElem (Nat.lt_of_not_le hlt)
  have hnone := h.nodes _ _ hget
  rw [Array.getElem?_eq_none (Nat.le_refl _)] at hnone
  cases hnone

theorem trans {tr₁ tr₂ tr₃ : Trace} (h₁ : u.Extends tr₁ tr₂) (h₂ : u.Extends tr₂ tr₃) :
    u.Extends tr₁ tr₃ where
  types := h₁.types.trans h₂.types
  entries := fun i e he => h₂.entries i e (h₁.entries i e he)
  nodes := fun i n hn => h₂.nodes i n (h₁.nodes i n hn)
  calls := by
    obtain ⟨new₁, heq₁, hnew₁⟩ := h₁.calls
    obtain ⟨new₂, heq₂, hnew₂⟩ := h₂.calls
    refine ⟨new₂ ++ new₁, by rw [heq₂, heq₁, List.append_assoc], ?_⟩
    intro c hc
    rcases List.mem_append.1 hc with hc | hc
    · exact Nat.le_trans h₁.size_le (hnew₂ c hc)
    · exact hnew₁ c hc

/-- A call that began after the first trace is noted. -/
theorem note {tr tr' : Trace} (h : u.Extends tr tr') {c : Call}
    (hc : tr.nodes.size ≤ c.before.nodes.size) : u.Extends tr (tr'.note c) where
  types := h.types
  entries := h.entries
  nodes := h.nodes
  calls := by
    obtain ⟨new, heq, hnew⟩ := h.calls
    exact ⟨c :: new, congrArg _ heq, List.forall_mem_cons.2 ⟨hc, hnew⟩⟩

theorem calls_subset {tr tr' : Trace} (h : u.Extends tr tr') : tr.calls ⊆ tr'.calls := by
  obtain ⟨new, heq, -⟩ := h.calls
  rw [heq]
  exact List.subset_append_right new _

end Extends

/-- The second trace has all that the first has, and the nodes added are finished. -/
structure Later (u : Universe) (tr tr' : Trace) : Prop extends u.Extends tr tr' where
  filled : ∀ i, tr.nodes.size ≤ i → i < tr'.nodes.size → ∃ c ∈ tr'.calls, c.IsFresh ∧ c.id = ⟨i⟩

namespace Later

theorem refl (u : Universe) (tr : Trace) : u.Later tr tr :=
  ⟨.refl u tr, fun _ h h' => absurd h' (Nat.not_lt_of_le h)⟩

theorem trans {tr₁ tr₂ tr₃ : Trace} (h₁ : u.Later tr₁ tr₂) (h₂ : u.Later tr₂ tr₃) :
    u.Later tr₁ tr₃ := by
  refine ⟨h₁.toExtends.trans h₂.toExtends, fun i hi hi' => ?_⟩
  by_cases hmid : i < tr₂.nodes.size
  · obtain ⟨c, hc, hfresh⟩ := h₁.filled i hi hmid
    exact ⟨c, h₂.calls_subset hc, hfresh⟩
  · exact h₂.filled i (Nat.le_of_not_lt hmid) hi'

end Later

/-! ## Calls

A call is judged by the trace in which it is looked at: the key that its type had, the entry
under its number, and, if the call made the node, the description of the type by it.  Each of
these is monotone, so a call that was right stays right. -/

/-- What the trace has to show for a call that was answered. -/
structure CallSound (u : Universe) (tr : Trace) (c : Call) : Prop where
  sound : u.Sound c.before.types
  has : c.before.types.Has c.type
  keyed : ∃ key s₁, u.KeyAt c.before.types c.type key s₁ ∧ u.Reaches s₁ c.after.types ∧
    u.Reaches c.after.types tr.types ∧
    ∃ entry, tr.entries[c.id.index]? = some entry ∧ TypeKey.Same entry.1 key
  fresh : c.IsFresh →
    ∃ n, tr.nodes[c.id.index]? = some n ∧ u.Describes tr.types tr.calls c.type n

namespace CallSound

variable {tr tr' : Trace} {c : Call}

theorem reaches (h : u.CallSound tr c) : u.Reaches c.before.types tr.types := by
  obtain ⟨key, s₁, hkey, hafter, htr, -⟩ := h.keyed
  exact .head (hkey.asks h.sound h.has) (hafter.trans htr)

theorem has_now (h : u.CallSound tr c) : tr.types.Has c.type :=
  (reaches_grown h.sound h.reaches).has h.has

theorem later (h : u.CallSound tr c) (hs : u.Sound tr.types) (htypes : u.Reaches tr.types tr'.types)
    (hentries : ∀ (i : Nat) (entry : TypeKey × NodeId), tr.entries[i]? = some entry →
      tr'.entries[i]? = some entry)
    (hnode : c.IsFresh → ∀ n, tr.nodes[c.id.index]? = some n → tr'.nodes[c.id.index]? = some n)
    (hcalls : tr.calls ⊆ tr'.calls) : u.CallSound tr' c where
  sound := h.sound
  has := h.has
  keyed := by
    obtain ⟨key, s₁, hkey, hafter, htr, entry, hentry, hsame⟩ := h.keyed
    exact ⟨key, s₁, hkey, hafter, htr.trans htypes, entry, hentries _ _ hentry, hsame⟩
  fresh := by
    intro hfresh
    obtain ⟨n, hn, hdescribes⟩ := h.fresh hfresh
    exact ⟨n, hnode hfresh n hn, hdescribes.grown hs (reaches_grown hs htypes) hcalls h.has_now⟩

theorem extended (h : u.CallSound tr c) (hs : u.Sound tr.types) (hext : u.Extends tr tr') :
    u.CallSound tr' c :=
  h.later hs hext.types hext.entries (fun _ n hn => hext.nodes _ n hn) hext.calls_subset

end CallSound

/-- The invariant of a pass. -/
structure Coherent (u : Universe) (tr : Trace) : Prop where
  sound : u.Sound tr.types
  kept : tr.state.WellKept
  past : ∀ s ∈ tr.past, s.WellKept
  calls : ∀ c ∈ tr.calls, u.CallSound tr c

namespace Coherent

variable {tr : Trace}

theorem start {types : Interner} (hs : u.Sound types) : u.Coherent ⟨.start types, [], []⟩ where
  sound := hs
  kept := .start types
  past := fun _ h => by cases h
  calls := fun _ h => by cases h

theorem note (h : u.Coherent tr) {c : Call} (hc : u.CallSound (tr.note c) c) :
    u.Coherent (tr.note c) where
  sound := h.sound
  kept := h.kept
  past := h.past
  calls := List.forall_mem_cons.2 ⟨hc, fun d hd => (h.calls d hd).later h.sound .refl
    (fun _ _ he => he) (fun _ _ hn => hn) (List.subset_cons_self _ _)⟩

theorem moveTo (h : u.Coherent tr) {s : BuildState} (hkept : s.WellKept)
    (hext : u.Extends tr (tr.moveTo s)) : u.Coherent (tr.moveTo s) where
  sound := (reaches_grown h.sound hext.types).sound
  kept := hkept
  past := by
    intro s' hs'
    rcases List.mem_cons.1 hs' with rfl | hs'
    · exact h.kept
    · exact h.past s' hs'
  calls := fun c hc => (h.calls c hc).extended h.sound hext

theorem extends_withTypes (tr : Trace) {types : Interner} (hreach : u.Reaches tr.types types) :
    u.Extends tr (tr.withTypes types) :=
  ⟨hreach, fun _ _ he => he, fun _ _ hn => hn, [], rfl, fun _ hc => by cases hc⟩

theorem later_withTypes (tr : Trace) {types : Interner} (hreach : u.Reaches tr.types types) :
    u.Later tr (tr.withTypes types) :=
  ⟨extends_withTypes tr hreach, fun _ hi hi' => absurd hi' (Nat.not_lt_of_le hi)⟩

theorem withTypes (h : u.Coherent tr) {types : Interner} (hreach : u.Reaches tr.types types) :
    u.Coherent (tr.withTypes types) :=
  h.moveTo ⟨h.kept.size, h.kept.ids, h.kept.distinct⟩ (extends_withTypes tr hreach)

end Coherent

/-! ## Computations within a pass

`Runs` is to a pass what `Yields` is to resolution.  The invariant and the promise `Later`
are carried along, and the condition may speak of the trace that is left behind. -/

/-- The computation keeps the invariant, finishes the nodes that it adds, and answers as
stated. -/
def Runs (u : Universe) (tr : Trace) (m : Traced α) (Q : α → Trace → Prop) : Prop :=
  After tr m fun a tr' => (u.Coherent tr' ∧ u.Later tr tr') ∧ Q a tr'

namespace Runs

variable {α β : Type} {tr : Trace}

theorem pure (h : u.Coherent tr) {a : α} {Q : α → Trace → Prop} (ha : Q a tr) :
    u.Runs tr (Pure.pure a) Q := After.pure ⟨⟨h, .refl u tr⟩, ha⟩

theorem bind {m : Traced α} {f : α → Traced β} {P : α → Trace → Prop} {Q : β → Trace → Prop}
    (hm : u.Runs tr m P)
    (hf : ∀ a tr', u.Coherent tr' → u.Later tr tr' → P a tr' → u.Runs tr' (f a) Q) :
    u.Runs tr (m >>= f) Q :=
  After.bind hm fun a tr' ⟨⟨hcoherent, hlater⟩, ha⟩ =>
    (hf a tr' hcoherent hlater ha).mono fun _ _ ⟨⟨hcoherent', hlater'⟩, hb⟩ =>
      ⟨⟨hcoherent', hlater.trans hlater'⟩, hb⟩

theorem map {m : Traced α} {f : α → β} {Q : β → Trace → Prop}
    (h : u.Runs tr m fun a tr' => Q (f a) tr') : u.Runs tr (f <$> m) Q := After.map h

theorem mapM (h : u.Coherent tr) {P : α → β → Trace → Prop}
    (up : ∀ {a b tr tr'}, u.Later tr tr' → P a b tr → P a b tr') {f : α → Traced β} (as : List α)
    (hf : ∀ a ∈ as, ∀ tr', u.Coherent tr' → u.Later tr tr' → u.Runs tr' (f a) (P a)) :
    u.Runs tr (as.mapM f) fun bs tr' => List.Forall₂ (fun a b => P a b tr') as bs :=
  After.mapM (R := fun tr tr' => u.Coherent tr' ∧ u.Later tr tr') (P := P)
    (fun h₁ h₂ => ⟨h₂.1, h₁.2.trans h₂.2⟩) (fun h hp => up h.2 hp) as ⟨h, .refl u tr⟩
    (fun tr' h' => ⟨h'.1, .refl u tr'⟩) fun a ha tr' h' => hf a ha tr' h'.1 h'.2

theorem ask (h : u.Coherent tr) {m : Session α} {P : α → Interner → Prop}
    (hm : After tr.types m fun a types => u.Reaches tr.types types ∧ P a types) :
    u.Runs tr (monadLift (Build.ask m)) fun a tr' => tr' = tr.withTypes tr'.types ∧ P a tr'.types := by
  intro a tr' hrun
  have hrun : Traced.ofBuild (Build.ask m) tr = some (a, tr') := hrun
  unfold Traced.ofBuild Build.ask at hrun
  cases hanswer : m tr.state.types with
  | none =>
    rw [hanswer] at hrun
    cases hrun
  | some r =>
    obtain ⟨b, types⟩ := r
    rw [hanswer] at hrun
    cases hrun
    obtain ⟨hreach, hb⟩ := hm a types hanswer
    exact ⟨⟨h.withTypes hreach, Coherent.later_withTypes tr hreach⟩, rfl, hb⟩

theorem query (h : u.Coherent tr) (f : Interner → α) :
    u.Runs tr (monadLift (Build.ask (Session.query f)))
      fun a tr' => tr' = tr.withTypes tr.types ∧ a = f tr.types := by
  have hask := ask (P := fun a types => types = tr.types ∧ a = f tr.types) h
    (m := Session.query f) (by
      rintro a types hrun
      cases hrun
      exact ⟨.refl, rfl, rfl⟩)
  refine After.mono hask fun a tr' ⟨hinv, heq, htypes, ha⟩ => ⟨hinv, ?_, ha⟩
  rw [htypes] at heq
  exact heq

end Runs

end Universe
end TypedJson
