import TypedJson.Proofs.Building
/-!
# A pass takes nothing back

A pass asks questions about types and adds to its table of keys.  Neither takes anything back: what
the table of types has stays there, and a key that has a number keeps it (`Universe.Retains`).  That
holds from any state, whatever keys and nodes are in it (`Universe.buildNode_adds`), and a call
answers with the number of the key of its type (`Universe.buildStep_adds`).

No invariant of the state is assumed beyond soundness of the types: keys and nodes may be of
any kind, also ones that no pass would make.  So the statement can be used of a state in the
middle of a pass, where nodes are unfinished.
-/
namespace TypedJson
namespace KeyTable

variable {t : KeyTable} {key key' : TypeKey} {id id' : NodeId}

theorem get?_insert_of_some (h : t.get? key = some id) : (t.insert key' id').get? key = some id := by
  unfold get? insert at *
  rw [Array.find?_push, Option.map_or, h]
  rfl

theorem get?_insert_of_none (h : t.get? key = none) : (t.insert key id).get? key = some id := by
  unfold get? insert at *
  have hself : key.isEqual key = true := TypeKey.same_refl key
  rw [Array.find?_push, Option.map_or, h, if_pos hself]
  rfl

end KeyTable

namespace Universe

/-- The second state comes of the first as a pass asks questions and adds keys. -/
structure Retains (u : Universe) (st st' : BuildState) : Prop where
  types : u.Grown st.types st'.types
  keys : ∀ key id, st.keys.get? key = some id → st'.keys.get? key = some id

namespace Retains

variable {u : Universe} {st st₁ st₂ st₃ : BuildState}

theorem refl (hs : u.Sound st.types) : u.Retains st st := ⟨.refl hs, fun _ _ h => h⟩

theorem trans (h₁ : u.Retains st₁ st₂) (h₂ : u.Retains st₂ st₃) : u.Retains st₁ st₃ :=
  ⟨h₁.types.trans h₂.types, fun key id h => h₂.keys key id (h₁.keys key id h)⟩

end Retains

/-- Every result of the computation is as stated, in a state that takes nothing back. -/
def Adds {α : Type} (u : Universe) (st : BuildState) (m : Build α) (Q : α → BuildState → Prop) :
    Prop :=
  After st m fun a st' => u.Retains st st' ∧ Q a st'

namespace Adds

variable {u : Universe} {st : BuildState} {α β : Type}

theorem pure (hs : u.Sound st.types) {a : α} {Q : α → BuildState → Prop} (h : Q a st) :
    u.Adds st (Pure.pure a) Q :=
  After.pure ⟨.refl hs, h⟩

theorem bind {m : Build α} {f : α → Build β} {P : α → BuildState → Prop}
    {Q : β → BuildState → Prop} (hm : u.Adds st m P)
    (hf : ∀ a st', u.Retains st st' → P a st' → u.Adds st' (f a) Q) : u.Adds st (m >>= f) Q :=
  After.bind hm fun a st' ⟨hretains, ha⟩ =>
    (hf a st' hretains ha).mono fun _ _ ⟨hretains', hb⟩ => ⟨hretains.trans hretains', hb⟩

theorem mono {m : Build α} {P Q : α → BuildState → Prop} (h : u.Adds st m P)
    (hPQ : ∀ a st', P a st' → Q a st') : u.Adds st m Q :=
  After.mono h fun a st' ⟨hretains, ha⟩ => ⟨hretains, hPQ a st' ha⟩

theorem ask {m : Session α} {Q : α → Interner → Prop} (h : u.Yields st.types m Q) :
    u.Adds st (Build.ask m) fun a st' => st' = { st with types := st'.types } ∧ Q a st'.types := by
  intro a st' hrun
  unfold Build.ask at hrun
  split at hrun
  · rename_i hasked
    cases hrun
    obtain ⟨hgrown, hQ⟩ := h _ _ hasked
    exact ⟨⟨hgrown, fun _ _ hkey => hkey⟩, rfl, hQ⟩
  · cases hrun

theorem query (hs : u.Sound st.types) (f : Interner → α) :
    u.Adds st (Build.ask (Session.query f)) fun a st' => st' = st ∧ a = f st.types := by
  intro a st' hrun
  cases hrun
  exact ⟨.refl hs, rfl, rfl⟩

theorem mapM (hs : u.Sound st.types) {f : α → Build β} (as : List α)
    (hf : ∀ a ∈ as, ∀ st', u.Retains st st' → u.Adds st' (f a) fun _ _ => True) :
    u.Adds st (as.mapM f) fun _ _ => True :=
  (After.mapM (R := u.Retains) (P := fun _ _ _ => True) Retains.trans (fun _ h => h) as (.refl hs)
    (fun _ h => .refl h.types.sound) hf).mono fun _ _ h => ⟨h.1, trivial⟩

end Adds

variable {u : Universe} {st : BuildState} {t : TypeId}

section Parts

/-! ## The parts of a node

The description asks and calls; neither takes anything back, so the whole does not. -/

variable {self : TypeId → Build NodeId}

/-- Calls for handles of the table take nothing back. -/
def CallsAdd (u : Universe) (self : TypeId → Build NodeId) : Prop :=
  ∀ st t, u.Sound st.types → st.types.Has t → u.Adds st (self t) fun _ _ => True

theorem CallsAdd.mapM (h : u.CallsAdd self) (hs : u.Sound st.types) {ts : List TypeId}
    (hts : ∀ t ∈ ts, st.types.Has t) : u.Adds st (ts.mapM self) fun _ _ => True :=
  .mapM hs ts fun t ht st' hretains => h st' t hretains.types.sound (hretains.types.has (hts t ht))

theorem describeMembers_adds (h : u.CallsAdd self) (hs : u.Sound st.types) (ht : st.types.Has t)
    (fuel : Nat) (n : SchemaNode) : u.Adds st (u.describeMembers fuel self t n) fun _ _ => True := by
  have hmembers : u.Yields st.types (u.members fuel t) fun ms s' => MembersIn ms s' :=
    (members_settles hs ht fuel).mono fun _ _ ⟨hgrown, hsettled⟩ => ⟨hgrown, hsettled.2.2⟩
  unfold describeMembers
  simp only [monadLift_self]
  refine (Adds.ask hmembers).bind fun ms st₁ h₁ ⟨_, hms⟩ => ?_
  have hproperties : u.Adds st₁ ((dataMembers ms).mapM fun m => do
      pure (Property.mk m.1.name m.1.optional (← self m.2))) fun _ _ => True := by
    refine .mapM h₁.types.sound _ fun m hm st₂ h₂ => ?_
    obtain ⟨hmem, htype⟩ := mem_dataMembers.1 hm
    have hcall := h st₂ m.2 h₂.types.sound (h₂.types.has (hms m.1 hmem m.2 htype))
    exact hcall.bind fun id st₃ h₃ _ => .pure h₃.types.sound trivial
  refine hproperties.bind fun properties st₂ h₂ _ => ?_
  have hindexes : u.Yields st₂.types (u.indexes fuel t) fun is s' => IndexesIn is s' :=
    (indexes_settles h₂.types.sound (h₂.types.has (h₁.types.has ht)) fuel).mono
      fun _ _ ⟨hgrown, hsettled⟩ => ⟨hgrown, hsettled.2.2⟩
  refine (Adds.ask hindexes).bind fun is st₃ h₃ ⟨_, his⟩ => ?_
  refine Adds.bind (.mapM h₃.types.sound is fun x hx st₄ h₄ => ?_)
    fun indexes st₄ h₄ _ => .pure h₄.types.sound trivial
  obtain ⟨hkey, hvalue⟩ := his x hx
  refine (h st₄ x.key h₄.types.sound (h₄.types.has hkey)).bind fun key st₅ h₅ _ => ?_
  refine (h st₅ x.value h₅.types.sound (h₅.types.has (h₄.types.has hvalue))).bind
    fun value st₆ h₆ _ => .pure h₆.types.sound trivial

theorem describeDeclared_adds (h : u.CallsAdd self) (hs : u.Sound st.types) (ht : st.types.Has t)
    (fuel : Nat) (s : Interner) (n : SchemaNode) (origin : Option Origin) :
    u.Adds st (u.describeDeclared fuel self s t n origin) fun _ _ => True := by
  cases origin with
  | none => exact .pure hs trivial
  | some origin =>
    unfold describeDeclared
    dsimp only
    split
    · exact describeMembers_adds h hs ht fuel _
    · exact .pure hs trivial

theorem describe_adds (h : u.CallsAdd self) (hs : u.Sound st.types) (ht : st.types.Has t)
    (fuel : Nat) {leaves : List TypeId} (hleaves : ∀ r ∈ leaves, st.types.Has r) :
    u.Adds st (u.describe fuel self t leaves) fun _ _ => True := by
  unfold describe
  simp only [monadLift_self]
  refine (Adds.ask (display_settles u fuel t _ hs ht)).bind fun text st₁ h₁ _ => ?_
  -- branches and elements are read off the table as it is once the text is there
  refine (Adds.query h₁.types.sound id).bind fun s st₂ h₂ ⟨heq, hs₂⟩ => ?_
  subst heq hs₂
  have hunion : u.Adds st₂ (unionNodes self t (realLeaves (id st₂.types) leaves)) fun _ _ => True := by
    unfold unionNodes
    split
    · exact .pure h₂.types.sound trivial
    · exact h.mapM h₂.types.sound fun r hr => h₁.types.has (hleaves r (List.mem_filter.1 hr).1)
  refine hunion.bind fun unionOf st₃ h₃ _ => ?_
  have helement : u.Adds st₃ (elementNode self ((id st₂.types).element? t)) fun _ _ => True := by
    cases hfound : (id st₂.types).element? t with
    | none => exact .pure h₃.types.sound trivial
    | some element =>
      have hhas := h₂.types.sound.parts t element (TypeData.element?_parts hfound)
      refine After.map ((h st₃ element h₃.types.sound (h₃.types.has hhas)).mono ?_)
      exact fun _ _ _ => trivial
  refine helement.bind fun arrayOf st₄ h₄ _ => ?_
  refine (Adds.query h₄.types.sound id).bind fun s st₅ h₅ ⟨heq, hs₅⟩ => ?_
  subst heq hs₅
  have ht₅ := h₄.types.has (h₃.types.has (h₁.types.has ht))
  refine (describeDeclared_adds h h₅.types.sound ht₅ fuel _ _ _).bind fun n st₆ h₆ _ => ?_
  exact (Adds.query h₆.types.sound _).bind fun nullable st₇ h₇ _ => .pure h₇.types.sound trivial

end Parts

/-! ## Calls -/

/-- The call goes by the key of the leaves: if the key has no number yet, it gets one.  Either way the
answer is the number of the key. -/
theorem buildStep_adds {self : TypeId → Build NodeId} (h : u.CallsAdd self) (hs : u.Sound st.types)
    (ht : st.types.Has t) (fuel : Nat) :
    u.Adds st (u.buildStep fuel self t) fun id st' => ∃ key types,
      u.keyOfBranches fuel (u.leaves st.types t) st.types = some (key, types) ∧
        u.Grown types st'.types ∧ st'.keys.get? key = some id := by
  have hleaves := leaves_has (u := u) hs ht
  have hkey : u.Yields st.types (u.keyOfBranches fuel (u.leaves st.types t)) fun key s' =>
      u.keyOfBranches fuel (u.leaves st.types t) st.types = some (key, s') := fun key s' hrun =>
    ⟨(keyOfBranches_settles hs fuel hleaves key s' hrun).1, hrun⟩
  unfold buildStep
  simp only [monadLift_self]
  refine (Adds.query hs _).bind fun leaves st₁ _ ⟨heq, hleavesEq⟩ => ?_
  subst heq hleavesEq
  refine (Adds.ask hkey).bind fun key st₂ h₂ ⟨_, hrun⟩ => ?_
  have hknown : u.Adds st₂ (Build.known? key) fun found st₃ =>
      st₃ = st₂ ∧ found = st₂.keys.get? key := by
    intro found st₃ hrun
    cases hrun
    exact ⟨.refl h₂.types.sound, rfl, rfl⟩
  refine hknown.bind fun found st₃ _ ⟨heq, hfound⟩ => ?_
  subst heq hfound
  cases hget : st₃.keys.get? key with
  | some id => exact .pure h₂.types.sound ⟨key, _, hrun, .refl h₂.types.sound, hget⟩
  | none =>
    have hallocate : u.Adds st₃ (Build.allocate key) fun id st₄ => st₄.keys.get? key = some id := by
      intro id st₄ hrun
      cases hrun
      exact ⟨⟨.refl h₂.types.sound, fun _ _ hkey => KeyTable.get?_insert_of_some hkey⟩,
        KeyTable.get?_insert_of_none hget⟩
    refine hallocate.bind fun id st₄ h₄ hget₄ => ?_
    refine (describe_adds h h₄.types.sound (h₄.types.has (h₂.types.has ht)) fuel fun r hr =>
      h₄.types.has (h₂.types.has (hleaves r hr))).bind fun n st₅ h₅ _ => ?_
    have hfinish : u.Adds st₅ (Build.finishNode id n) fun _ _ => True := by
      intro _ st₆ hrun
      cases hrun
      exact ⟨⟨.refl h₅.types.sound, fun _ _ hkey => hkey⟩, trivial⟩
    refine hfinish.bind fun _ st₆ h₆ _ => .pure h₆.types.sound ⟨key, _, hrun, ?_, ?_⟩
    · exact (h₄.types.trans h₅.types).trans h₆.types
    · exact h₆.keys key id (h₅.keys key id hget₄)

/-- **No call takes anything back.** -/
theorem buildNode_adds (u : Universe) : ∀ fuel, u.CallsAdd (u.buildNode fuel)
  | 0 => fun _ _ _ _ _ _ hrun => by cases hrun
  | fuel + 1 => fun _ _ hs ht =>
    (buildStep_adds (buildNode_adds u fuel) hs ht fuel).mono fun _ _ _ => trivial

end Universe
end TypedJson
