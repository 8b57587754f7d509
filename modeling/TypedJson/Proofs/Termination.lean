import TypedJson.Proofs.Ending
import TypedJson.Proofs.Building
/-!
# The build terminates

A pass never builds the same key twice, and the key of a handle stays the same.  So every call
within a call is for a handle whose key is not in the table of keys yet, and of these there are
no more than there are handles.  In a universe without type parameters whose texts are finite
every call therefore comes to an end, whatever was asked before and whatever is in the state of
the pass (`Universe.build_terminates`).

The recursion of a call is bounded by the keys that are not known yet.  They cannot be
counted beforehand, as types are added while the pass is under way; but the handles are
bounded for all tables to come, and each call under way has made the key of its handle
known.  So the induction is on the number of handles whose keys are not known, and every call
for a part takes one of them or finds its key.
-/
namespace TypedJson
namespace Universe

/-- The second state comes of the first as the pass looks at types and adds keys. -/
structure Advances (u : Universe) (st st' : BuildState) : Prop where
  types : u.LooksOn st.types st'.types
  keys : ∀ key, (st.keys.get? key).isSome → (st'.keys.get? key).isSome

theorem Advances.refl (u : Universe) (st : BuildState) : u.Advances st st := ⟨.refl, fun _ h => h⟩

theorem Advances.trans {u : Universe} ⦃st₁ st₂ st₃ : BuildState⦄ (h₁ : u.Advances st₁ st₂)
    (h₂ : u.Advances st₂ st₃) : u.Advances st₁ st₃ :=
  ⟨h₁.types.trans h₂.types, fun key h => h₂.keys key (h₁.keys key h)⟩

/-- The computation comes to an end, and the pass goes on from there. -/
abbrev Finishes {α : Type} (u : Universe) (st : BuildState) (m : Nat → Build α) : Prop :=
  Ends u.Advances st m

namespace Finishes

variable {u : Universe} {st : BuildState} {α β : Type}

theorem pure (a : α) : u.Finishes st fun _ => Pure.pure a := Ends.pure (.refl u st) a

theorem bind {m : Nat → Build α} {f : Nat → α → Build β} (hm : u.Finishes st m)
    (hf : ∀ a st', u.Advances st st' → (∃ fuel, m fuel st = some (a, st')) →
      u.Finishes st' fun fuel => f fuel a) : u.Finishes st fun fuel => m fuel >>= f fuel :=
  Ends.bind Advances.trans hm hf

theorem mapM {f : Nat → α → Build β} (as : List α)
    (hf : ∀ a ∈ as, ∀ st', u.Advances st st' → u.Finishes st' fun fuel => f fuel a) :
    u.Finishes st fun fuel => as.mapM (f fuel) :=
  Ends.mapM Advances.trans (.refl u) as hf

theorem map {m : Nat → Build α} (f : α → β) (hm : u.Finishes st m) :
    u.Finishes st fun fuel => f <$> m fuel := Ends.map Advances.trans (.refl u) f hm

theorem ask {m : Nat → Session α} (h : u.Answers st.types m) :
    u.Finishes st fun fuel => Build.ask (m fuel) := by
  obtain ⟨a, types, hlooks, n, hrun⟩ := h
  refine ⟨a, { st with types }, ⟨hlooks, fun _ h => h⟩, n, fun fuel hle => ?_⟩
  simp only [Build.ask, hrun fuel hle]

theorem query (f : Interner → α) : u.Finishes st fun _ => Build.ask (Session.query f) :=
  ask ⟨f st.types, st.types, .refl, 0, fun _ _ => rfl⟩

end Finishes

theorem ask_eq_some {m : Session α} {st st' : BuildState} {a : α}
    (h : Build.ask m st = some (a, st')) :
    ∃ types, m st.types = some (a, types) ∧ st' = { st with types } := by
  unfold Build.ask at h
  split at h
  · rename_i hrun
    cases h
    exact ⟨_, hrun, rfl⟩
  · cases h

variable {u : Universe} {bound : Nat} {st st' : BuildState} {t : TypeId}

/-! ## The parts of a node

Putting a node together asks questions about the type and makes calls for its parts; if
those calls come to an end, so does the whole. -/

section Parts

variable {self : Nat → TypeId → Build NodeId}

/-- From the state on, calls for handles of the table come to an end. -/
def CallsEnd (u : Universe) (st : BuildState) (self : Nat → TypeId → Build NodeId) : Prop :=
  ∀ x st', u.Advances st st' → st'.types.Has x → u.Finishes st' fun fuel => self fuel x

theorem CallsEnd.advances (h : u.CallsEnd st self) (hadvances : u.Advances st st') :
    u.CallsEnd st' self := fun x _ h' hx => h x _ (hadvances.trans h') hx

theorem CallsEnd.mapM (hu : u.Monomorphic) (hs : u.Steady bound st.types)
    (h : u.CallsEnd st self) {ts : List TypeId} (hts : ∀ t ∈ ts, st.types.Has t) :
    u.Finishes st fun fuel => ts.mapM (self fuel) :=
  .mapM ts fun t ht st' hadvances =>
    h t st' hadvances ((hs.looksOn hu hadvances.types).2.1.has (hts t ht))

theorem describeMembers_finishes (hu : u.Monomorphic) (hs : u.Steady bound st.types)
    (h : u.CallsEnd st self) (ht : st.types.Has t) (n : SchemaNode) :
    u.Finishes st fun fuel => u.describeMembers fuel (self fuel) t n := by
  unfold describeMembers
  simp only [monadLift_self]
  refine (Finishes.ask (members_answers hu st.types t)).bind fun ms st₁ h₁ ⟨fuel, hask⟩ => ?_
  obtain ⟨types, hrun, rfl⟩ := ask_eq_some hask
  obtain ⟨hs₁, hgrows₁, -⟩ := hs.looksOn hu h₁.types
  have hms := (members_settles hs.sound ht fuel ms types hrun).2.2.2
  -- the members were there when the list was made, and later tables keep them
  have hproperties : u.Finishes { st with types } fun fuel =>
      ((dataMembers ms).mapM fun m => do
        pure (Property.mk m.1.name m.1.optional (← self fuel m.2))) := by
    refine .mapM _ fun m hm st₂ h₂ => ?_
    have hhas : types.Has m.2 := by
      obtain ⟨m', hm', hmap⟩ := List.mem_filterMap.1 hm
      obtain ⟨x, hx, rfl⟩ := Option.map_eq_some_iff.1 hmap
      exact hms m' hm' x hx
    have hcall := h.advances h₁ m.2 st₂ h₂ ((hs₁.looksOn hu h₂.types).2.1.has hhas)
    exact hcall.bind fun id st₃ _ _ => .pure _
  refine hproperties.bind fun properties st₂ h₂ _ => ?_
  obtain ⟨hs₂, hgrows₂, -⟩ := hs₁.looksOn hu h₂.types
  have ht₂ : st₂.types.Has t := hgrows₂.has (hgrows₁.has ht)
  refine (Finishes.ask (indexes_answers hu st₂.types t)).bind fun is st₃ h₃ ⟨fuel, hask⟩ => ?_
  obtain ⟨types', hrun, rfl⟩ := ask_eq_some hask
  obtain ⟨hs₃, -, -⟩ := hs₂.looksOn hu h₃.types
  have his := (indexes_settles hs₂.sound ht₂ fuel is types' hrun).2.2.2
  have hself₃ := (h.advances h₁).advances (h₂.trans h₃)
  have hindexes : u.Finishes { st₂ with types := types' } fun fuel =>
      (is.mapM fun x => do
        let keyType ← self fuel x.key
        let valueType ← self fuel x.value
        pure (IndexSignature.mk keyType valueType)) := by
    refine .mapM _ fun x hx st₄ h₄ => ?_
    obtain ⟨hs₄, hgrows₄, -⟩ := hs₃.looksOn hu h₄.types
    obtain ⟨hkey, hvalue⟩ := his x hx
    refine (hself₃ x.key st₄ h₄ (hgrows₄.has hkey)).bind fun key st₅ h₅ _ => ?_
    have hvalue₅ := (hs₄.looksOn hu h₅.types).2.1.has (hgrows₄.has hvalue)
    exact (hself₃ x.value st₅ (h₄.trans h₅) hvalue₅).bind fun value st₆ _ _ => .pure _
  exact hindexes.bind fun indexes st₄ _ _ => .pure _

theorem describe_finishes (hu : u.Monomorphic) (hfinite : u.FiniteTexts)
    (hs : u.Steady bound st.types) (h : u.CallsEnd st self) (ht : st.types.Has t)
    {leaves : List TypeId} (hleaves : ∀ r ∈ leaves, st.types.Has r) :
    u.Finishes st fun fuel => u.describe fuel (self fuel) t leaves := by
  unfold describe
  simp only [monadLift_self]
  refine (Finishes.ask (display_answers hu hfinite t.index t st.types rfl hs)).bind
    fun text st₁ h₁ _ => ?_
  refine (Finishes.query id).bind fun s st₂ h₂ ⟨_, hrun⟩ => ?_
  cases hrun
  obtain ⟨hs₁, hgrows₁, -⟩ := hs.looksOn hu h₁.types
  have hreal : ∀ r ∈ realLeaves st₁.types leaves, st₁.types.Has r := fun r hr =>
    hgrows₁.has (hleaves r (List.mem_filter.1 hr).1)
  have hunion : u.Finishes st₁ fun fuel =>
      unionNodes (self fuel) t (realLeaves st₁.types leaves) := by
    unfold unionNodes
    split
    · exact .pure _
    · exact (h.advances h₁).mapM hu hs₁ hreal
  refine hunion.bind fun unionOf st₃ h₃ _ => ?_
  obtain ⟨hs₃, hgrows₃, -⟩ := hs₁.looksOn hu h₃.types
  have helement : u.Finishes st₃ fun fuel => elementNode (self fuel) (st₁.types.element? t) := by
    cases hfound : st₁.types.element? t with
    | none => exact .pure _
    | some x =>
      have hx : st₁.types.Has x := hs₁.sound.parts t x (TypeData.element?_parts hfound)
      exact ((h.advances h₁).advances h₃ x st₃ (.refl u st₃) (hgrows₃.has hx)).map some
  refine helement.bind fun arrayOf st₄ h₄ _ => ?_
  refine (Finishes.query id).bind fun s st₅ h₅ ⟨_, hrun⟩ => ?_
  cases hrun
  obtain ⟨hs₄, hgrows₄, -⟩ := hs₃.looksOn hu h₄.types
  have ht₄ : st₄.types.Has t := hgrows₄.has (hgrows₃.has (hgrows₁.has ht))
  have hself₄ := ((h.advances h₁).advances h₃).advances h₄
  have hdeclared : ∀ n, u.Finishes st₄ fun fuel =>
      u.describeDeclared fuel (self fuel) st₄.types t n (u.originOf? st₄.types t) := by
    intro n
    cases u.originOf? st₄.types t with
    | none => exact .pure n
    | some origin =>
      unfold describeDeclared
      dsimp only
      split
      · exact describeMembers_finishes hu hs₄ hself₄ ht₄ _
      · exact .pure _
  refine (hdeclared _).bind fun n st₆ _ _ => ?_
  exact (Finishes.query _).bind fun nullable st₇ _ _ => .pure _

end Parts

/-! ## One call

`Built` lists handles whose keys are known.  It is kept as the state advances, since keys are
never removed and the key of a handle stays what it is. -/

/-- The keys of the types are in the table of keys. -/
def Built (u : Universe) (st : BuildState) (built : List TypeId) : Prop :=
  ∀ x ∈ built, st.types.Has x ∧
    ∃ key, u.KeyAt st.types x key st.types ∧ (st.keys.get? key).isSome

theorem KeyAt.grown {s s' : Interner} (hs : u.Sound s) (hs' : u.Sound s') (hgrows : s.Grows s')
    (ht : s.Has t) {key : TypeKey} (h : u.KeyAt s t key s) : u.KeyAt s' t key s' := by
  obtain ⟨fuel, hrun⟩ := h
  refine ⟨fuel, ?_⟩
  rw [leaves_grown hs hs' hgrows ht]
  exact (keyOfBranches_settles hs fuel (leaves_has hs ht) key s hrun).2.1 s' hgrows

theorem Built.advances (hu : u.Monomorphic) (hs : u.Steady bound st.types) {built : List TypeId}
    (h : u.Built st built) (hadvances : u.Advances st st') : u.Built st' built := by
  obtain ⟨hs', hgrows, -⟩ := hs.looksOn hu hadvances.types
  intro x hx
  obtain ⟨hhas, key, hkey, hget⟩ := h x hx
  exact ⟨hgrows.has hhas, key, hkey.grown hs.sound hs'.sound hgrows hhas, hadvances.keys key hget⟩

theorem get?_isSome_iff {keys : KeyTable} {key : TypeKey} :
    (keys.get? key).isSome ↔ ∃ entry ∈ keys.entries, entry.1.isEqual key = true := by
  rw [KeyTable.get?, Option.isSome_map, Array.find?_isSome]

theorem get?_insert_of_isSome {keys : KeyTable} {key key' : TypeKey} (id : NodeId)
    (h : (keys.get? key').isSome) : ((keys.insert key id).get? key').isSome := by
  obtain ⟨entry, hentry, hequal⟩ := get?_isSome_iff.1 h
  exact get?_isSome_iff.2 ⟨entry, Array.mem_push.2 (.inl hentry), hequal⟩

theorem get?_insert_self (keys : KeyTable) (key : TypeKey) (id : NodeId) :
    ((keys.insert key id).get? key).isSome :=
  get?_isSome_iff.2 ⟨(key, id), Array.mem_push.2 (.inr rfl), TypeKey.same_refl key⟩

/-- **A call comes to an end**: if there is room for `room` types whose keys are not in the table
yet, then it is built or its key takes some of that room. -/
theorem buildNode_finishes (hu : u.Monomorphic) (hfinite : u.FiniteTexts) :
    ∀ (room : Nat) (built : List TypeId) (st : BuildState) (t : TypeId),
      bound < room + built.length → u.Steady bound st.types → built.Nodup → u.Built st built →
      st.types.Has t → u.Finishes st fun fuel => u.buildNode fuel t := by
  intro room
  induction room with
  | zero =>
    intro built st t hroom hs hnodup hbuilt _
    have hlength := length_le_of_nodup_of_lt TypeId.index TypeId.index_injective _ _ hnodup
      fun x hx => (hbuilt x hx).1
    have hsize := hs.size_le
    omega
  | succ room ih =>
    intro built st t hroom hs hnodup hbuilt ht
    have hleaves := leaves_has (u := u) hs.sound ht
    refine Ends.succ ?_
    simp only [buildNode, buildStep, monadLift_self]
    refine (Finishes.query _).bind fun leaves st₁ h₁ ⟨_, hrun⟩ => ?_
    cases hrun
    refine (Finishes.ask (keyOfBranches_answers hu hfinite hs hleaves)).bind
      fun key st₂ h₂ ⟨fuel, hask⟩ => ?_
    obtain ⟨types, hrun, rfl⟩ := ask_eq_some hask
    obtain ⟨hs₂, hgrows₂, -⟩ := hs.looksOn hu h₂.types
    have hkey : u.KeyAt types t key types := by
      refine ⟨fuel, ?_⟩
      rw [leaves_grown hs.sound hs₂.sound hgrows₂ ht]
      exact (keyOfBranches_settles hs.sound fuel hleaves key types hrun).2.1.now
    have hknown : u.Finishes { st with types } fun _ => Build.known? key :=
      ⟨_, _, .refl u _, 0, fun _ _ => rfl⟩
    refine hknown.bind fun found st₃ h₃ ⟨_, hrun₃⟩ => ?_
    cases hrun₃
    cases hfound : st.keys.get? key with
    | some id => exact .pure id
    | none =>
      have hbuilt₂ := hbuilt.advances hu hs h₂
      have hnew : t ∉ built := by
        intro hmem
        obtain ⟨-, key', ⟨fuel', hrun'⟩, hget⟩ := hbuilt₂ t hmem
        obtain ⟨fuel, hrun⟩ := hkey
        cases keyOfBranches_unique u hrun hrun'
        have hget : (st.keys.get? key).isSome := hget
        rw [hfound] at hget
        cases hget
      have hallocate : u.Finishes { st with types } fun _ => Build.allocate key := by
        refine ⟨⟨st.nodes.size⟩, allocated { st with types } key, ⟨.refl, fun key' h => ?_⟩, 0,
          fun _ _ => rfl⟩
        exact get?_insert_of_isSome _ h
      refine hallocate.bind fun id st₄ h₄ ⟨_, hrun₄⟩ => ?_
      have hbuilt₄ := hbuilt₂.advances hu hs₂ h₄
      cases hrun₄
      have hs₄ : u.Steady bound (allocated { st with types } key).types := hs₂
      have hbuilt' : u.Built (allocated { st with types } key) (t :: built) := by
        refine List.forall_mem_cons.2 ⟨⟨hgrows₂.has ht, key, hkey, ?_⟩, hbuilt₄⟩
        exact get?_insert_self _ _ _
      have hcalls : u.CallsEnd (allocated { st with types } key) u.buildNode := by
        intro x st₅ h₅ hx
        have hs₅ := (hs₄.looksOn hu h₅.types).1
        refine ih (t :: built) st₅ x ?_ hs₅ (List.nodup_cons.2 ⟨hnew, hnodup⟩)
          (hbuilt'.advances hu hs₄ h₅) hx
        rw [List.length_cons]
        omega
      refine (describe_finishes hu hfinite hs₄ hcalls (hgrows₂.has ht) fun r hr =>
        hgrows₂.has (hleaves r hr)).bind fun n st₅ _ _ => ?_
      have hfinish : u.Finishes st₅ fun _ => Build.finishNode ⟨st.nodes.size⟩ n :=
        ⟨(), finished st₅ ⟨st.nodes.size⟩ n, ⟨.refl, fun _ h => h⟩, 0, fun _ _ => rfl⟩
      exact hfinish.bind fun _ st₆ _ _ => .pure _

/-- **Every call for a handle of the table comes to an end.** -/
theorem buildNode_finishes_of_has (hu : u.Monomorphic) (hfinite : u.FiniteTexts)
    (hs : u.Steady bound st.types) (ht : st.types.Has t) :
    u.Finishes st fun fuel => u.buildNode fuel t :=
  buildNode_finishes hu hfinite (bound + 1) [] st t (Nat.lt_succ_self bound) hs List.nodup_nil
    (fun x hx => by cases hx) ht

/-- **The build terminates and makes finitely many handles.**  In a universe without type
parameters whose texts are finite there is one bound on the handles of all tables: after any
questions, and from any state of a pass, the node of every handle is built, the whole schema is
too, and no table gets more handles than that. -/
theorem build_terminates (u : Universe) (hu : u.Monomorphic) (hfinite : u.FiniteTexts) :
    ∃ bound, ∀ types, u.Reaches u.start types → types.slots.size ≤ bound ∧
      (∀ st : BuildState, st.types = types → ∀ t, types.Has t → ∃ fuel id st',
        u.buildNode fuel t st = some (id, st') ∧ st'.types.slots.size ≤ bound) ∧
      ∃ fuel schema, u.schemaFrom? fuel types = some schema := by
  refine ⟨u.budget u.start, fun types hreach => ?_⟩
  have hs := Steady.of_reaches hu hreach
  refine ⟨hs.size_le, ?_, ?_⟩
  · rintro st rfl t ht
    obtain ⟨id, st', hadvances, fuel, hrun⟩ := buildNode_finishes_of_has hu hfinite hs ht
    exact ⟨fuel, id, st', hrun fuel (Nat.le_refl fuel), (hs.looksOn hu hadvances.types).1.size_le⟩
  · obtain ⟨exported, types', hlooks, n, hexported⟩ := exportedTypes_answers hu types
    obtain ⟨hs', -, -⟩ := hs.looksOn hu hlooks
    have hhas := (exportedTypes_yields hs.sound n exported types' (hexported n (Nat.le_refl n))).2
    have hnodes : u.Finishes (.start types') fun fuel => u.buildNodes fuel exported := by
      refine .mapM exported fun t ht st hadvances => ?_
      obtain ⟨hst, hgrows, -⟩ := hs'.looksOn hu hadvances.types
      exact buildNode_finishes_of_has hu hfinite hst (hgrows.has (hhas t ht))
    obtain ⟨ids, st, -, n', hrun⟩ := hnodes
    refine ⟨max n n', Schema.ofNodes st.nodes, ?_⟩
    have hexported := hexported (max n n') (Nat.le_max_left n n')
    have hrun := hrun (max n n') (Nat.le_max_right n n')
    unfold schemaFrom?
    dsimp only at hexported hrun
    rw [hexported, Option.bind_eq_bind, Option.bind_some]
    dsimp only
    rw [hrun]
    rfl

/-- One unit in which everything refers to everything: an interface that extends itself, an alias
of an array of inline objects, and the union that an inline object holds and the alias is in. -/
def sheetUniverse : Universe where
  units := [⟨"sheet.ts", [
    { name := "Sheet", exported := true, line := none, typeParams := []
      body := .interface [.name "Sheet"] [⟨"rows", false, false, some (.name "Rows")⟩,
        ⟨"next", true, false, some (.intersection [.name "Sheet", .name "Cell"])⟩] [] },
    { name := "Rows", exported := true, line := none, typeParams := []
      body := .typeAlias (.array (.object [⟨"cell", false, false, some (.name "Cell")⟩] [])) },
    { name := "Cell", exported := false, line := none, typeParams := []
      body := .typeAlias (.union [.name "string", .name "Rows", .name "Sheet"]) }]⟩]
  distinct := by decide

theorem sheetUniverse_monomorphic : sheetUniverse.Monomorphic := by
  intro entry hmem
  simp only [declarations, sheetUniverse] at hmem
  fin_cases hmem <;> rfl

/-- The inline object holds a type that is known by its name, so its text ends there. -/
theorem sheetUniverse_finiteTexts : sheetUniverse.FiniteTexts := by
  intro id d body hd hbody hopen o q hshows hmember hcontinues
  have hmem : (id, d) ∈ sheetUniverse.declarations := mem_declarations_iff.2 hd
  have hrows : id = ⟨0, 1⟩ ∧ body = .array (.object [⟨"cell", false, false, some (.name "Cell")⟩] []) := by
    simp only [declarations, sheetUniverse] at hmem
    fin_cases hmem
    · cases hbody
    · cases hbody
      exact ⟨rfl, rfl⟩
    · cases hbody
      cases hopen
  obtain ⟨rfl, rfl⟩ := hrows
  have hobject : o = ⟨0, .object [⟨"cell", false, false, some (.name "Cell")⟩] []⟩ := by
    rcases Relation.ReflTransGen.cases_head hshows with rfl | ⟨x, hx, hrest⟩
    · cases hmember
    · cases hx
      rcases Relation.ReflTransGen.cases_head hrest with rfl | ⟨y, hy, -⟩
      · rfl
      · cases hy
  subst hobject
  obtain rfl : q = ⟨0, .name "Cell"⟩ := by
    cases hmember with
    | mk hm _ htype =>
      cases List.mem_singleton.1 hm
      cases htype
      rfl
  rcases Relation.ReflTransGen.cases_head hcontinues with heq | ⟨x, hx | hx, -⟩
  · cases heq
  · cases hx with
    | expanded _ hfind hd hbody hopen =>
      have hcell : sheetUniverse.find? "Cell" 0 = some ⟨0, 2⟩ := by decide
      cases hcell.symm.trans hfind
      cases hd
      cases hbody
      cases hopen
  · cases hx

theorem sheetUniverse_terminates : sheetUniverse.Monomorphic ∧ sheetUniverse.FiniteTexts ∧
    ∃ bound, ∀ types, sheetUniverse.Reaches sheetUniverse.start types → types.slots.size ≤ bound ∧
      (∀ st : BuildState, st.types = types → ∀ t, types.Has t → ∃ fuel id st',
        sheetUniverse.buildNode fuel t st = some (id, st') ∧ st'.types.slots.size ≤ bound) ∧
      ∃ fuel schema, sheetUniverse.schemaFrom? fuel types = some schema :=
  ⟨sheetUniverse_monomorphic, sheetUniverse_finiteTexts,
    build_terminates sheetUniverse sheetUniverse_monomorphic sheetUniverse_finiteTexts⟩

end Universe
end TypedJson
