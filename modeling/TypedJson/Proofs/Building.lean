import TypedJson.Proofs.Coherence
/-!
# Every call keeps the invariant

The step of the pass is followed once from its first question to the node that it puts in
place: if the calls that it makes keep the invariant, so does the step
(`buildStep_serves`).  By induction on the fuel every call keeps it
(`tracedNode_serves`), and with that every pass (`Pass.coherent`).

The node under construction is the delicate point.  Its number is given out and can be found
under its key before any part of it is known, so a call made for one of its parts may answer
with it.  What such a call answers is right all the same: it has to show the key only, as it
made no node.  The call that made the node shows the description as well, and it does so at
the end, when the node is written in its place (`fresh_call`).  In between no other call can
have made a node of that number (`ne_of_under_way`).
-/
namespace TypedJson
namespace Universe

variable {u : Universe} {tr : Trace} {self : TypeId → Traced NodeId}

/-- Calls for handles of the table keep the invariant and are noted. -/
def Serves (u : Universe) (self : TypeId → Traced NodeId) : Prop :=
  ∀ tr t, u.Coherent tr → tr.types.Has t →
    u.Runs tr (self t) fun id tr' => Answered tr'.calls t id

theorem Later.grown {tr tr' : Trace} (h : u.Later tr tr') (hc : u.Coherent tr) :
    u.Grown tr.types tr'.types := reaches_grown hc.sound h.types

theorem Serves.mapM (hself : u.Serves self) (h : u.Coherent tr) {ts : List TypeId}
    (hts : ∀ t ∈ ts, tr.types.Has t) :
    u.Runs tr (ts.mapM self) fun ids tr' => List.Forall₂ (Answered tr'.calls) ts ids :=
  Runs.mapM (P := fun t id tr' => Answered tr'.calls t id) h
    (fun hlater ha => ha.mono hlater.calls_subset) ts fun t ht tr' h' hlater =>
      hself tr' t h' ((hlater.grown h).has (hts t ht))

/-! ## The parts of a node

In the order of the program: the branches, the element, and what the declaration adds, which
is a name and the members.  Each lemma gives the field of `Describes` that it is responsible
for. -/

theorem unionNodes_runs (hself : u.Serves self) (h : u.Coherent tr) (t : TypeId)
    {real : List TypeId} (hreal : ∀ r ∈ real, tr.types.Has r) :
    u.Runs tr (unionNodes self t real) fun ids tr' =>
      List.Forall₂ (Answered tr'.calls) (if real = [t] then [] else real) ids := by
  unfold unionNodes
  by_cases hown : real = [t]
  · rw [if_pos hown, if_pos hown]
    exact .pure h .nil
  · rw [if_neg hown, if_neg hown]
    exact hself.mapM h hreal

theorem elementNode_runs (hself : u.Serves self) (h : u.Coherent tr) {element : Option TypeId}
    (helement : ∀ t, element = some t → tr.types.Has t) :
    u.Runs tr (elementNode self element) fun found tr' =>
      List.Forall₂ (Answered tr'.calls) element.toList found.toList := by
  cases element with
  | none => exact .pure h .nil
  | some t =>
    refine Runs.map ((hself tr t h (helement t rfl)).mono fun id tr' ⟨hinv, ha⟩ => ⟨hinv, ?_⟩)
    exact .cons ha .nil

theorem mem_dataMembers {ms : List TypeMember} {m : TypeMember} {t : TypeId} :
    (m, t) ∈ dataMembers ms ↔ m ∈ ms ∧ m.type = some t := by
  unfold dataMembers
  rw [List.mem_filterMap]
  constructor
  · rintro ⟨m', hm', hpair⟩
    obtain ⟨t', ht', heq⟩ := Option.map_eq_some_iff.1 hpair
    cases heq
    exact ⟨hm', ht'⟩
  · rintro ⟨hm, ht⟩
    exact ⟨m, hm, by rw [ht]; rfl⟩

theorem describeMembers_runs (hself : u.Serves self) (h : u.Coherent tr) {t : TypeId}
    (ht : tr.types.Has t) (fuel : Nat) (n : SchemaNode) :
    u.Runs tr (u.describeMembers fuel self t n) fun n' tr' =>
      ∃ ms is properties indexes, tr'.types.members? t = some ms ∧ tr'.types.indexes? t = some is ∧
        List.Forall₂ (PropertyOf tr'.calls) (dataMembers ms) properties ∧
        List.Forall₂ (SignatureOf tr'.calls) is indexes ∧ n' = { n with properties, indexes } := by
  refine Runs.bind (Runs.ask h fun ms s' hrun => ⟨.single (.members ht hrun),
    (members_settles h.sound ht fuel ms s' hrun).2.2⟩) fun ms tr₁ h₁ l₁ hms => ?_
  obtain ⟨-, hkept, hin⟩ := hms
  have hproperties := Runs.mapM (P := fun m p tr => PropertyOf tr.calls m p) h₁
    (fun hlater hp => ⟨hp.1, hp.2.1, hp.2.2.mono hlater.calls_subset⟩) (dataMembers ms)
    (f := fun m => do pure (Property.mk m.1.name m.1.optional (← self m.2)))
    fun m hm tr₂ h₂ l₂ => by
      obtain ⟨hmem, htype⟩ := mem_dataMembers.1 hm
      have hhas := (l₂.grown h₁).has (hin m.1 hmem m.2 htype)
      exact Runs.bind (hself tr₂ m.2 h₂ hhas) fun id tr₃ h₃ _ ha => .pure h₃ ⟨rfl, rfl, ha⟩
  refine hproperties.bind fun properties tr₂ h₂ l₂ hps => ?_
  have ht₂ := (l₂.grown h₁).has ((l₁.grown h).has ht)
  refine Runs.bind (Runs.ask h₂ fun is s' hrun => ⟨.single (.indexes ht₂ hrun),
    (indexes_settles h₂.sound ht₂ fuel is s' hrun).2.2⟩) fun is tr₃ h₃ l₃ his => ?_
  obtain ⟨-, hkept', hin'⟩ := his
  have hindexes := Runs.mapM (P := fun x y tr => SignatureOf tr.calls x y) h₃
    (fun hlater hx => hx.imp (fun ha => ha.mono hlater.calls_subset)
      fun ha => ha.mono hlater.calls_subset) is
    (f := fun x => do
      let keyType ← self x.key
      let valueType ← self x.value
      pure (IndexSignature.mk keyType valueType))
    fun x hx tr₄ h₄ l₄ => by
      obtain ⟨hkey, hvalue⟩ := hin' x hx
      refine Runs.bind (hself tr₄ x.key h₄ ((l₄.grown h₃).has hkey)) fun key tr₅ h₅ l₅ ha => ?_
      have hvalue₅ := (l₅.grown h₄).has ((l₄.grown h₃).has hvalue)
      refine Runs.bind (hself tr₅ x.value h₅ hvalue₅) fun value tr₆ h₆ l₆ ha' => ?_
      exact .pure h₆ ⟨ha.mono l₆.calls_subset, ha'⟩
  refine hindexes.bind fun indexes tr₄ h₄ l₄ hxs => .pure h₄ ?_
  have l₁₄ := (l₂.trans l₃).trans l₄
  refine ⟨ms, is, properties, indexes, ?_, ?_, ?_, hxs, rfl⟩
  · exact (l₁₄.grown h₁).grows.members t ms hkept
  · exact (l₄.grown h₃).grows.indexes t is hkept'
  · exact hps.imp fun _ _ hp => ⟨hp.1, hp.2.1, hp.2.2.mono (l₃.trans l₄).calls_subset⟩

/-- What the declaration of the type adds to a node that has none of it. -/
structure Declares (u : Universe) (s : Interner) (calls : List Call) (t : TypeId)
    (n n' : SchemaNode) : Prop where
  displayName : n'.displayName = n.displayName
  isNullable : n'.isNullable = n.isNullable
  unionOf : n'.unionOf = n.unionOf
  arrayOf : n'.arrayOf = n.arrayOf
  name : n'.name = (u.namingOrigin? s t).map (·.name)
  sourceLocation : n'.sourceLocation = (u.namingOrigin? s t).bind (·.location)
  isEnum : n'.isEnum = u.isEnum s t
  allowedValues : n'.allowedValues =
    if u.isEnum s t then .ofList (u.enumValues s t) else n.allowedValues
  members : ∃ ms is, u.DescribesMembers s calls t ms is n'

/-- The node before its declaration is looked at. -/
structure Undeclared (n : SchemaNode) : Prop where
  name : n.name = none
  sourceLocation : n.sourceLocation = none
  isEnum : n.isEnum = false
  properties : n.properties = []
  indexes : n.indexes = []

theorem describesMembers_nil {s : Interner} {calls : List Call} {t : TypeId} {n : SchemaNode}
    (hshown : u.showsMembers s t = false) (hn : n.properties = [] ∧ n.indexes = []) :
    ∃ ms is, u.DescribesMembers s calls t ms is n := by
  refine ⟨[], [], fun h => ?_, fun _ => ⟨rfl, rfl⟩, ?_, ?_⟩
  · rw [hshown] at h
    cases h
  · rw [hn.1]
    exact .nil
  · rw [hn.2]
    exact .nil

theorem declares_of_no_origin {s : Interner} {calls : List Call} {t : TypeId} {n : SchemaNode}
    (ho : u.originOf? s t = none) (hn : Undeclared n) : u.Declares s calls t n n := by
  refine ⟨rfl, rfl, rfl, rfl, ?_, ?_, ?_, ?_, describesMembers_nil ?_ ⟨hn.properties, hn.indexes⟩⟩
  · rw [namingOrigin?, ho]
    exact hn.name
  · rw [namingOrigin?, ho]
    exact hn.sourceLocation
  · rw [isEnum, ho]
    exact hn.isEnum
  · rw [isEnum, ho]
    rfl
  · rw [showsMembers, ho]
    rfl

/-- What the declaration says about the node apart from its members. -/
theorem declares_nameNode {s : Interner} {calls : List Call} {t : TypeId} {origin : Origin}
    {n : SchemaNode} {properties : List Property} {indexes : List IndexSignature}
    (ho : u.originOf? s t = some origin) (hn : Undeclared n)
    (hmembers : ∃ ms is, u.DescribesMembers s calls t ms is
      { u.nameNode s t origin n with properties, indexes }) :
    u.Declares s calls t n { u.nameNode s t origin n with properties, indexes } := by
  refine ⟨rfl, rfl, rfl, rfl, ?_, ?_, ?_, ?_, hmembers⟩
  · rw [namingOrigin?, ho, Option.filter_some]
    show (if origin.builtin then n.name else some origin.name) = _
    cases origin.builtin with
    | true => exact hn.name
    | false => rfl
  · rw [namingOrigin?, ho, Option.filter_some]
    show (if origin.builtin then n.sourceLocation else origin.location) = _
    cases origin.builtin with
    | true => exact hn.sourceLocation
    | false => rfl
  · rw [isEnum, ho]
    rfl
  · rw [isEnum, ho]
    rfl

theorem describeDeclared_runs (hself : u.Serves self) (h : u.Coherent tr) {t : TypeId}
    (ht : tr.types.Has t) (fuel : Nat) {n : SchemaNode} (hn : Undeclared n) :
    u.Runs tr (u.describeDeclared fuel self tr.types t n (u.originOf? tr.types t)) fun n' tr' =>
      u.Declares tr'.types tr'.calls t n n' := by
  cases ho : u.originOf? tr.types t with
  | none => exact .pure h (declares_of_no_origin ho hn)
  | some origin =>
    have hshown : u.showsMembers tr.types t = hasProperties tr.types t origin
        (u.nameNode tr.types t origin n).isEnum := by
      rw [showsMembers, ho]
      rfl
    unfold describeDeclared
    dsimp only
    by_cases hshows : hasProperties tr.types t origin (u.nameNode tr.types t origin n).isEnum = true
    · rw [if_pos hshows]
      refine After.mono (describeMembers_runs hself h ht fuel _)
        fun n' tr' ⟨⟨h', hlater⟩, ms, is, properties, indexes, hms, his, hps, hxs, heq⟩ => ?_
      subst heq
      have hgrows := (hlater.grown h).grows
      have hmembers : u.DescribesMembers tr'.types tr'.calls t ms is
          { u.nameNode tr.types t origin n with properties, indexes } := by
        refine ⟨fun _ => ⟨hms, his⟩, fun hhidden => ?_, hps, hxs⟩
        rw [showsMembers_grown h.sound hgrows ht, hshown, hshows] at hhidden
        cases hhidden
      have ho' : u.originOf? tr'.types t = some origin := by rw [originOf?_grown hgrows ht, ho]
      have hname : u.nameNode tr'.types t origin n = u.nameNode tr.types t origin n := by
        unfold nameNode
        rw [enumValues_grown hgrows ht]
      rw [← hname] at hmembers ⊢
      exact ⟨⟨h', hlater⟩, declares_nameNode ho' hn ⟨ms, is, hmembers⟩⟩
    · rw [if_neg hshows]
      refine .pure h (declares_nameNode ho hn (describesMembers_nil ?_ ⟨hn.properties, hn.indexes⟩))
      rw [hshown]
      exact Bool.eq_false_iff.2 hshows

/-- **The node that is put together describes its type.** -/
theorem describe_runs (hself : u.Serves self) (h : u.Coherent tr) {t : TypeId}
    (ht : tr.types.Has t) (fuel : Nat) :
    u.Runs tr (u.describe fuel self t (u.leaves tr.types t)) fun n tr' =>
      u.Describes tr'.types tr'.calls t n := by
  refine Runs.bind (Runs.ask h fun text s' hrun => ⟨.single (.display ht hrun),
    (display_settles u fuel t _ h.sound ht text s' hrun).2.1⟩) fun text tr₁ h₁ l₁ htext => ?_
  obtain ⟨-, hlast⟩ := htext
  have g₁ := l₁.grown h
  refine Runs.bind (Runs.query h₁ id) fun s tr₂ h₂ l₂ hs => ?_
  obtain ⟨rfl, rfl⟩ := hs
  -- the leaves were found before the text was asked for
  have hleaves := leaves_grown (u := u) h.sound h₁.sound g₁.grows ht
  have hhas : ∀ r ∈ u.leaves tr₁.types t, tr₁.types.Has r := leaves_has h₁.sound (g₁.has ht)
  rw [← hleaves]
  refine Runs.bind (unionNodes_runs hself h₂ t fun r hr => hhas r (List.mem_filter.1 hr).1)
    fun unionOf tr₃ h₃ l₃ hunion => ?_
  have g₃ := l₃.grown h₂
  have ht₃ := g₃.has (g₁.has ht)
  refine Runs.bind (elementNode_runs hself h₃ fun e he => ?_) fun arrayOf tr₄ h₄ l₄ harray => ?_
  · exact g₃.has (h₁.sound.parts t e (TypeData.element?_parts he))
  have g₄ := l₄.grown h₃
  refine Runs.bind (Runs.query h₄ id) fun s tr₅ h₅ l₅ hs => ?_
  obtain ⟨rfl, rfl⟩ := hs
  refine Runs.bind (describeDeclared_runs hself h₅ (g₄.has ht₃) fuel ⟨rfl, rfl, rfl, rfl, rfl⟩)
    fun n tr₆ h₆ l₆ hn => ?_
  have g₆ := l₆.grown h₅
  refine Runs.bind (Runs.query h₆ (·.isNullable t)) fun nullable tr₇ h₇ l₇ hs => ?_
  obtain ⟨rfl, rfl⟩ := hs
  have g : u.Grown tr₁.types tr₆.types := (g₃.trans g₄).trans g₆
  have hsub₃ := ((l₄.trans l₅).trans l₆).calls_subset
  have hsub₄ := (l₅.trans l₆).calls_subset
  have ht₁ := g₁.has ht
  refine .pure h₇ ⟨?_, ?_, ?_, ?_, ?_, ?_, ?_, ?_, ?_⟩
  · exact ⟨fuel, by rw [show _ = text from hn.displayName]; exact hlast.grown g.grows⟩
  · exact hn.name
  · exact hn.sourceLocation
  · exact hn.isEnum
  · show (n.isNullable || tr₆.types.isNullable t) = _
    rw [hn.isNullable]
    show (_ || _) = ((u.leaves tr₆.types t).any tr₆.types.isNull || tr₆.types.isNullable t)
    rw [leaves_any_isNull_grown h₁.sound h₆.sound g.grows ht₁]
    rfl
  · show n.allowedValues = u.admittedValues tr₆.types t
    rw [hn.allowedValues]
    show (if _ then _ else _) = _
    unfold admittedValues
    rw [leaves_grown h₁.sound h₆.sound g.grows ht₁, filterMap_literal?_grown g.grows hhas]
    rfl
  · show List.Forall₂ _ (u.unionTypes tr₆.types t) n.unionOf
    rw [hn.unionOf, unionTypes_grown h₁.sound h₆.sound g.grows ht₁]
    exact hunion.imp fun _ _ ha => ha.mono hsub₃
  · show List.Forall₂ _ (tr₆.types.element? t).toList n.arrayOf.toList
    rw [hn.arrayOf, element?_grown g.grows ht₁]
    exact harray.imp fun _ _ ha => ha.mono hsub₄
  · obtain ⟨ms, is, hm⟩ := hn.members
    exact ⟨ms, is, hm.shown, hm.hidden, hm.properties, hm.indexes⟩

/-! ## One call

A call first asks for the key of its type.  Either the key is known, and then the number is
that of its entry; or the number is new, and the node is built and put in place. -/

/-- The state with a number for the key. -/
def allocated (s : BuildState) (key : TypeKey) : BuildState :=
  { s with keys := s.keys.insert key ⟨s.nodes.size⟩, nodes := s.nodes.push .placeholder }

/-- The state with the node in its place. -/
def finished (s : BuildState) (id : NodeId) (n : SchemaNode) : BuildState :=
  { s with nodes := s.nodes.setIfInBounds id.index n }

theorem after_noted {t : TypeId} {m : Traced NodeId} {Q : NodeId → Trace → Prop}
    (h : After tr m fun id tr' => Q id (tr'.note ⟨t, tr.state, id, tr'.state⟩)) :
    After tr (Traced.noted t m) Q := by
  intro id tr' hrun
  unfold Traced.noted at hrun
  cases hm : m tr with
  | none =>
    rw [hm] at hrun
    cases hrun
  | some r =>
    rw [hm] at hrun
    cases hrun
    exact h r.1 r.2 hm

theorem after_known (key : TypeKey) :
    After tr (monadLift (Build.known? key) : Traced _) fun found tr' =>
      tr' = tr.withTypes tr.types ∧ found = tr.state.keys.get? key := by
  intro found tr' hrun
  cases hrun
  exact ⟨rfl, rfl⟩

theorem after_allocate (key : TypeKey) :
    After tr (monadLift (Build.allocate key) : Traced _) fun id tr' =>
      tr' = tr.moveTo (allocated tr.state key) ∧ id = ⟨tr.nodes.size⟩ := by
  intro id tr' hrun
  cases hrun
  exact ⟨rfl, rfl⟩

theorem after_finish (id : NodeId) (n : SchemaNode) :
    After tr (monadLift (Build.finishNode id n) : Traced _) fun _ tr' =>
      tr' = tr.moveTo (finished tr.state id n) := by
  intro _ tr' hrun
  cases hrun
  rfl

theorem size_allocated (tr : Trace) (key : TypeKey) :
    (tr.moveTo (allocated tr.state key)).nodes.size = tr.nodes.size + 1 := Array.size_push _

theorem extends_allocate (tr : Trace) (key : TypeKey) :
    u.Extends tr (tr.moveTo (allocated tr.state key)) where
  types := .refl
  entries := by
    intro i entry hi
    have hlt : i < tr.state.keys.entries.size := (Array.getElem?_eq_some_iff.1 hi).1
    show (tr.state.keys.entries.push _)[i]? = some entry
    rw [Array.getElem?_push, if_neg (Nat.ne_of_lt hlt)]
    exact hi
  nodes := by
    intro i n hi
    have hlt : i < tr.state.nodes.size := (Array.getElem?_eq_some_iff.1 hi).1
    show (tr.state.nodes.push _)[i]? = some n
    rw [Array.getElem?_push, if_neg (Nat.ne_of_lt hlt)]
    exact hi
  calls := ⟨[], rfl, fun _ hc => by cases hc⟩

theorem wellKept_finished {s : BuildState} (h : s.WellKept) (id : NodeId) (n : SchemaNode) :
    (finished s id n).WellKept where
  size := by
    show s.keys.entries.size = (s.nodes.setIfInBounds id.index n).size
    rw [Array.size_setIfInBounds, h.size]
  ids := h.ids
  distinct := h.distinct

theorem known_call {tr₁ : Trace} {t : TypeId} {key : TypeKey} {id : NodeId} (h : u.Coherent tr)
    (ht : tr.types.Has t) (h₁ : u.Coherent tr₁) (l₁ : u.Later tr tr₁)
    (hsize : tr₁.nodes.size = tr.nodes.size) (hkey : u.KeyAt tr.types t key tr₁.types)
    (hget : tr₁.state.keys.get? key = some id) :
    let call : Call := ⟨t, tr.state, id, tr₁.state⟩
    (u.Coherent (tr₁.note call) ∧ u.Later tr (tr₁.note call)) ∧
      Answered (tr₁.note call).calls t id := by
  intro call
  obtain ⟨entry, hentry, hsame⟩ := h₁.kept.known hget
  have hlt : id.index < tr.nodes.size := by
    have hlt := (Array.getElem?_eq_some_iff.1 hentry).1
    rw [h₁.kept.size] at hlt
    rw [← hsize]
    exact hlt
  have hcall : u.CallSound (tr₁.note call) call :=
    ⟨h.sound, ht, ⟨key, tr₁.types, hkey, .refl, .refl, entry, hentry, hsame⟩,
      fun hfresh => absurd hlt (Nat.not_lt_of_le hfresh)⟩
  refine ⟨⟨h₁.note hcall, l₁.toExtends.note (Nat.le_refl _), ?_⟩, call, List.mem_cons_self, rfl, rfl⟩
  intro i hi hi'
  obtain ⟨c, hc, hfresh⟩ := l₁.filled i hi hi'
  exact ⟨c, List.mem_cons_of_mem call hc, hfresh⟩

/-- No call that made its node answered with the number of a call that is still under way. -/
theorem ne_of_under_way {tr₁ tr₂ : Trace} {key : TypeKey} (h : u.Coherent tr)
    (hsize : tr₁.nodes.size = tr.nodes.size) (hcalls : tr₁.calls = tr.calls)
    (l₂ : u.Later (tr₁.moveTo (allocated tr₁.state key)) tr₂) :
    ∀ c ∈ tr₂.calls, c.IsFresh → tr₁.nodes.size ≠ c.id.index := by
  intro c hc hfresh
  have hnew := size_allocated tr₁ key
  have hfresh' : c.before.nodes.size ≤ c.id.index := hfresh
  obtain ⟨new, heq, hbound⟩ := l₂.calls
  rw [heq] at hc
  rcases List.mem_append.1 hc with hc | hc
  · have := hbound c hc
    omega
  · have hc : c ∈ tr.calls := by rw [← hcalls]; exact hc
    obtain ⟨n, hn, -⟩ := (h.calls c hc).fresh hfresh
    have hlt : c.id.index < tr.nodes.size := (Array.getElem?_eq_some_iff.1 hn).1
    omega

/-- The call has made a node of its own. -/
theorem fresh_call {tr₁ tr₂ : Trace} {t : TypeId} {key : TypeKey} {n : SchemaNode}
    (h : u.Coherent tr) (ht : tr.types.Has t) (l₁ : u.Later tr tr₁)
    (hsize : tr₁.nodes.size = tr.nodes.size) (hcalls : tr₁.calls = tr.calls)
    (hkept : tr₁.state.WellKept)
    (hkey : u.KeyAt tr.types t key tr₁.types) (h₂ : u.Coherent tr₂)
    (l₂ : u.Later (tr₁.moveTo (allocated tr₁.state key)) tr₂)
    (hn : u.Describes tr₂.types tr₂.calls t n) :
    let after := tr₂.moveTo (finished tr₂.state ⟨tr₁.nodes.size⟩ n)
    let call : Call := ⟨t, tr.state, ⟨tr₁.nodes.size⟩, after.state⟩
    (u.Coherent (after.note call) ∧ u.Later tr (after.note call)) ∧
      Answered (after.note call).calls t ⟨tr₁.nodes.size⟩ := by
  intro after call
  have hext : u.Extends tr tr₂ :=
    (l₁.toExtends.trans (extends_allocate tr₁ key)).trans l₂.toExtends
  have hgap : tr₁.nodes.size < tr₂.nodes.size := by
    have hnew := size_allocated tr₁ key
    have := l₂.size_le
    omega
  have hnodes : ∀ i, after.nodes[i]? = if tr₁.nodes.size = i then some n else tr₂.nodes[i]? := by
    intro i
    show (tr₂.nodes.setIfInBounds tr₁.nodes.size n)[i]? = _
    rw [Array.getElem?_setIfInBounds]
    by_cases hi : tr₁.nodes.size = i
    · rw [if_pos hi, if_pos hi, if_pos (hi ▸ hgap)]
    · rw [if_neg hi, if_neg hi]
  -- what was there before is as it was; only the node under way changes
  have hextAfter : u.Extends tr after := by
    refine ⟨hext.types, hext.entries, fun i n' hi => ?_, hext.calls⟩
    have hlt := (Array.getElem?_eq_some_iff.1 hi).1
    rw [hnodes, if_neg (by omega)]
    exact hext.nodes i n' hi
  have hafter : u.Coherent after := by
    refine ⟨h₂.sound, wellKept_finished h₂.kept _ n, List.forall_mem_cons.2 ⟨h₂.kept, h₂.past⟩, ?_⟩
    intro c hc
    refine (h₂.calls c hc).later h₂.sound .refl (fun _ _ he => he) (fun hfresh n' hn' => ?_)
      (List.Subset.refl _)
    rw [hnodes, if_neg (ne_of_under_way h hsize hcalls l₂ c hc hfresh)]
    exact hn'
  have hentry : tr₂.entries[tr₁.nodes.size]? = some (key, ⟨tr₁.nodes.size⟩) := by
    refine l₂.entries _ _ ?_
    show (tr₁.state.keys.entries.push (key, ⟨tr₁.nodes.size⟩))[tr₁.nodes.size]? = _
    have hnext : tr₁.state.keys.entries.size = tr₁.nodes.size := hkept.size
    rw [Array.getElem?_push, if_pos hnext.symm]
  have hcall : u.CallSound (after.note call) call := by
    refine ⟨h.sound, ht, ⟨key, tr₁.types, hkey, l₂.types, .refl, _, hentry,
      TypeKey.same_refl key⟩, fun _ => ⟨n, ?_, ?_⟩⟩
    · exact (hnodes tr₁.nodes.size).trans (if_pos rfl)
    · exact hn.grown h₂.sound (.refl h₂.sound) (List.subset_cons_self _ _)
        ((reaches_grown h.sound hext.types).has ht)
  refine ⟨⟨hafter.note hcall, hextAfter.note (Nat.le_refl _), ?_⟩, call, List.mem_cons_self, rfl, rfl⟩
  intro i hi hi'
  have hi' : i < tr₂.nodes.size := Nat.lt_of_lt_of_eq hi' Array.size_setIfInBounds
  by_cases hown : i = tr₁.nodes.size
  · refine ⟨call, List.mem_cons_self, ?_, by rw [hown]⟩
    show tr.nodes.size ≤ tr₁.nodes.size
    omega
  · have hnew := size_allocated tr₁ key
    obtain ⟨c, hc, hfresh⟩ := l₂.filled i (by omega) hi'
    exact ⟨c, List.mem_cons_of_mem call hc, hfresh⟩

/-- **If the calls that it makes keep the invariant, a step of the pass keeps it.** -/
theorem buildStep_serves (hself : u.Serves self) (fuel : Nat) :
    u.Serves fun t => Traced.noted t (u.buildStep fuel self t) := by
  intro tr t h ht
  refine after_noted ?_
  unfold buildStep
  refine After.bind (Runs.query h (u.leaves · t)) fun leaves tr₁ ⟨⟨h₁, l₁⟩, hleaves⟩ => ?_
  obtain ⟨rfl, rfl⟩ := hleaves
  have hhas : ∀ r ∈ u.leaves tr.types t, tr.types.Has r := leaves_has h.sound ht
  refine After.bind (Runs.ask (P := fun key s' => u.KeyAt tr.types t key s') h₁ fun key s' hrun =>
    ⟨.single (.key hhas hrun), fuel, hrun⟩) fun key tr₂ ⟨⟨h₂, l₂⟩, hkey⟩ => ?_
  obtain ⟨heq₂, hkey⟩ := hkey
  refine After.bind (after_known key) fun found tr₃ hknown => ?_
  obtain ⟨rfl, hget⟩ := hknown
  have h₃ : u.Coherent (tr₂.withTypes tr₂.types) := h₂.withTypes .refl
  have l₃ := (l₁.trans l₂).trans (Coherent.later_withTypes tr₂ .refl)
  have hsize : (tr₂.withTypes tr₂.types).nodes.size = tr.nodes.size := by
    rw [heq₂]
    rfl
  have hcalls : (tr₂.withTypes tr₂.types).calls = tr.calls := by
    rw [heq₂]
    rfl
  cases found with
  | some id => exact After.pure (known_call h ht h₃ l₃ hsize hkey hget.symm)
  | none =>
    refine After.bind (after_allocate key) fun id tr₄ hallocated => ?_
    obtain ⟨rfl, rfl⟩ := hallocated
    have h₄ := h₃.moveTo (h₃.kept.allocate hget.symm) (extends_allocate _ key)
    have ht₄ : tr₂.types.Has t := ((l₁.trans l₂).grown h).has ht
    have hleaves : u.leaves tr.types t = u.leaves tr₂.types t :=
      (leaves_grown h.sound h₂.sound ((l₁.trans l₂).grown h).grows ht).symm
    rw [hleaves]
    refine After.bind (describe_runs hself h₄ ht₄ fuel) fun n tr₅ ⟨⟨h₅, l₅⟩, hn⟩ => ?_
    refine After.bind (after_finish _ n) fun _ tr₆ hfinished => ?_
    subst hfinished
    exact After.pure (fresh_call h ht l₃ hsize hcalls h₃.kept hkey h₅ l₅ hn)

/-- **Every call keeps the invariant, and the nodes that it adds are finished.** -/
theorem tracedNode_serves (u : Universe) : ∀ fuel, u.Serves (u.tracedNode fuel)
  | 0 => fun _ _ _ _ _ _ h => by cases h
  | fuel + 1 => buildStep_serves (tracedNode_serves u fuel) fuel

/-! ## Whole passes

A pass is a series of calls from outside and of questions to the table of types between
them.  Between calls nothing is under way, so all nodes are finished. -/

/-- Each node of a pass was made by a call. -/
def Complete (tr : Trace) : Prop :=
  ∀ i, i < tr.nodes.size → ∃ c ∈ tr.calls, c.IsFresh ∧ c.id = ⟨i⟩

theorem Complete.later {tr tr' : Trace} (h : Complete tr) (hlater : u.Later tr tr') :
    Complete tr' := by
  intro i hi
  by_cases hold : i < tr.nodes.size
  · obtain ⟨c, hc, hfresh⟩ := h i hold
    exact ⟨c, hlater.calls_subset hc, hfresh⟩
  · exact hlater.filled i (Nat.le_of_not_lt hold) hi

/-- **Every pass keeps the invariant, and between calls all of its nodes are finished.** -/
theorem Pass.coherent (h : u.Pass tr) : u.Coherent tr ∧ Complete tr := by
  induction h with
  | start hreach =>
    exact ⟨.start (reaches_grown (start_sound u) hreach).sound, fun i hi => absurd hi (Nat.not_lt_zero i)⟩
  | ask _ hreach ih => exact ⟨ih.1.withTypes hreach, ih.2.later (Coherent.later_withTypes _ hreach)⟩
  | build _ ht hrun ih =>
    obtain ⟨⟨hcoherent, hlater⟩, -⟩ := tracedNode_serves u _ _ _ ih.1 ht _ _ hrun
    exact ⟨hcoherent, ih.2.later hlater⟩

theorem pass_of_tracedSchemaFrom? {s : Interner} (hreach : u.Reaches u.start s) {fuel : Nat}
    (h : u.tracedSchemaFrom? fuel s = some tr) : u.Pass tr := by
  unfold tracedSchemaFrom? at h
  obtain ⟨⟨exported, types⟩, hexported, h⟩ := Option.bind_eq_some_iff.1 h
  obtain ⟨⟨ids, tr'⟩, hrun, h⟩ := Option.bind_eq_some_iff.1 h
  cases h
  have hsound := (reaches_grown (start_sound u) hreach).sound
  have hyields := exportedTypes_yields hsound fuel exported types hexported
  have hall : ∀ (ts : List TypeId) (tr : Trace), u.Pass tr → (∀ t ∈ ts, tr.types.Has t) →
      After tr (ts.mapM (u.tracedNode fuel)) fun _ tr' => u.Pass tr' := by
    intro ts
    induction ts with
    | nil => exact fun tr hpass _ => .pure hpass
    | cons t ts ih =>
      intro tr hpass hts
      rw [List.mapM_cons]
      have hone : After tr (u.tracedNode fuel t) fun _ tr₁ => u.Pass tr₁ ∧ u.Later tr tr₁ := by
        intro id tr₁ hrun
        have hserves := tracedNode_serves u fuel tr t hpass.coherent.1 (hts t List.mem_cons_self)
        exact ⟨hpass.build (hts t List.mem_cons_self) hrun, (hserves id tr₁ hrun).1.2⟩
      refine hone.bind fun id tr₁ ⟨hpass₁, l₁⟩ => ?_
      refine (ih tr₁ hpass₁ fun x hx => ?_).bind fun ids tr₂ hpass₂ => .pure hpass₂
      exact (l₁.grown hpass.coherent.1).has (hts x (List.mem_cons_of_mem t hx))
  exact hall exported _ (.start (hreach.tail (.exported hexported))) hyields.2 ids _ hrun

theorem pass_of_tracedSchema? {fuel : Nat} (h : u.tracedSchema? fuel = some tr) : u.Pass tr := by
  rw [tracedSchema?_eq] at h
  exact pass_of_tracedSchemaFrom? .refl h

end Universe
end TypedJson
