import TypedJson.Proofs.Resolution
import TypedJson.Types.Key
/-!
# Answers last

A question about a type may add to the table: its parts are resolved when they are first
asked for.  An answer that was given stays the answer whatever is added to the table
later, and to give it again nothing more is added (`Universe.Lasts`).  For the members
and index signatures that is so because they are kept; the text and the key of a type are
read off answers of that kind.

An answer lasts for two reasons.  What is read off the data of a handle is the same in any
grown table.  What has to be resolved is kept in the slot when it is first asked for, and a
second question finds it there.  `Settles` states both at once for a computation: it keeps
the table sound, and what it answered it would answer again at any later table, without
changing it.  Texts and keys are recursions over such answers, so that they last follows
along their definitions.
-/
namespace TypedJson
namespace Universe

/-- At the table and at any larger one the computation gives this answer and changes
nothing. -/
def Lasts (s : Interner) (m : Session α) (a : α) : Prop := ∀ s', s.Grows s' → m s' = some (a, s')

namespace Lasts

variable {α β : Type} {s s' : Interner}

theorem grown {m : Session α} {a : α} (h : Lasts s m a) (hs : s.Grows s') : Lasts s' m a :=
  fun s'' h' => h s'' (hs.trans h')

theorem now {m : Session α} {a : α} (h : Lasts s m a) : m s = some (a, s) := h s (.refl s)

theorem pure (s : Interner) (a : α) : Lasts s (Pure.pure a) a := fun _ _ => rfl

theorem bind {m : Session α} {f : α → Session β} {a : α} {b : β} (hm : Lasts s m a)
    (hf : Lasts s (f a) b) : Lasts s (m >>= f) b :=
  fun s' h => bind_eq_some.2 ⟨a, s', hm s' h, hf s' h⟩

theorem mapM {f : α → Session β} : ∀ {as : List α} {bs : List β},
    List.Forall₂ (fun a b => Lasts s (f a) b) as bs → Lasts s (as.mapM f) bs
  | _, _, .nil => by
    rw [List.mapM_nil]
    exact .pure s []
  | _, _, .cons h hs => by
    rw [List.mapM_cons]
    exact h.bind ((mapM hs).bind (.pure s _))

/-- What a question reads of a handle of the table stays as it is. -/
theorem data {t : TypeId} (ht : s.Has t) : Lasts s (Session.query (·.data t)) (s.data t) := by
  intro s' h
  show some (s'.data t, s') = _
  rw [h.data t ht]

end Lasts

/-- The computation keeps the table sound, only adds to it, and gives an answer that
lasts and is as stated. -/
def Settles (u : Universe) (s : Interner) (m : Session α) (Q : α → Interner → Prop) : Prop :=
  u.Yields s m fun a s' => Lasts s' m a ∧ Q a s'

namespace Settles

variable {u : Universe} {s : Interner} {α β : Type}

theorem pure (hs : u.Sound s) {a : α} {Q : α → Interner → Prop} (h : Q a s) :
    u.Settles s (Pure.pure a) Q := Yields.pure hs ⟨.pure s a, h⟩

theorem bind {m : Session α} {f : α → Session β} {P : α → Interner → Prop}
    {Q : β → Interner → Prop} (hm : u.Settles s m P)
    (hf : ∀ a s', u.Grown s s' → P a s' → u.Settles s' (f a) Q) : u.Settles s (m >>= f) Q := by
  refine After.bind hm fun a s₁ ⟨h₁, hlast, ha⟩ => ?_
  refine (hf a s₁ h₁ ha).mono fun b s₂ ⟨h₂, hlast', hb⟩ => ?_
  exact ⟨h₁.trans h₂, (hlast.grown h₂.grows).bind hlast', hb⟩

theorem forall₂ (hs : u.Sound s) {f : α → Session β} (as : List α)
    (hf : ∀ a ∈ as, ∀ s', u.Grown s s' → u.Settles s' (f a) fun _ _ => True) :
    u.Yields s (as.mapM f) fun bs s' => List.Forall₂ (fun a b => Lasts s' (f a) b) as bs := by
  have hup : ∀ {a b s s'}, u.Grown s s' → Lasts s (f a) b → Lasts s' (f a) b :=
    fun h hlast => hlast.grown h.grows
  exact Yields.mapM (P := fun a b s => Lasts s (f a) b) hs hup as fun a ha s' h' =>
    (hf a ha s' h').mono fun b s'' ⟨h'', hlast, _⟩ => ⟨h'', hlast⟩

/-- What a list of computations gives without adding anything, each of them gives so. -/
theorem of_mapM (hs : u.Sound s) {f : α → Session β} {as : List α} {bs : List β}
    (hf : ∀ a ∈ as, ∀ s', u.Grown s s' → u.Settles s' (f a) fun _ _ => True)
    (hrun : as.mapM f s = some (bs, s)) :
    List.Forall₂ (fun a b => f a s = some (b, s)) as bs :=
  (forall₂ hs as hf bs s hrun).2.imp fun _ _ hlasts => hlasts.now

theorem exists_of_mapM (hs : u.Sound s) {f : α → Session β} {as : List α} {bs : List β}
    (hf : ∀ a ∈ as, ∀ s', u.Grown s s' → u.Settles s' (f a) fun _ _ => True)
    (hrun : as.mapM f s = some (bs, s)) : ∀ a ∈ as, ∃ b, f a s = some (b, s) := by
  intro a ha
  obtain ⟨b, -, hb⟩ := forall₂_mem_left (of_mapM hs hf hrun) ha
  exact ⟨b, hb⟩

theorem mapM (hs : u.Sound s) {f : α → Session β} (as : List α)
    (hf : ∀ a ∈ as, ∀ s', u.Grown s s' → u.Settles s' (f a) fun _ _ => True) :
    u.Settles s (as.mapM f) fun _ _ => True :=
  (forall₂ hs as hf).mono fun _ _ ⟨h', hbs⟩ => ⟨h', .mapM hbs, trivial⟩

theorem data (hs : u.Sound s) {t : TypeId} (ht : s.Has t) :
    u.Settles s (Session.query (·.data t)) fun d s' => s' = s ∧ d = s.data t := by
  rintro d s' hrun
  cases hrun
  exact ⟨.refl hs, .data ht, rfl, rfl⟩

end Settles

variable {u : Universe} {s : Interner}

/-! ## Members

`computeMembers` is what is done the first time; it is followed through the four shapes that
have members, with the same statement for each: all the types that come out are handles of
the table left behind. -/

/-- The types of the members are handles of the table. -/
def MembersIn (ms : List TypeMember) (s : Interner) : Prop :=
  ∀ m ∈ ms, ∀ t, m.type = some t → s.Has t

/-- The types of the index signatures are handles of the table. -/
def IndexesIn (is : List TypeIndex) (s : Interner) : Prop := ∀ x ∈ is, s.Has x.key ∧ s.Has x.value

theorem MembersIn.grown {ms : List TypeMember} {s s' : Interner} (h : MembersIn ms s)
    (hs : s.Grows s') : MembersIn ms s' := fun m hm t ht => hs.has (h m hm t ht)

theorem IndexesIn.grown {is : List TypeIndex} {s s' : Interner} (h : IndexesIn is s)
    (hs : s.Grows s') : IndexesIn is s' := fun x hx => (h x hx).imp hs.has hs.has

theorem mem_mergeMembers {m : TypeMember} :
    ∀ (more members : List TypeMember), m ∈ mergeMembers members more → m ∈ members ∨ m ∈ more
  | [], _, h => .inl h
  | x :: more, members, h => by
    have h : m ∈ mergeMembers (if members.any (·.name == x.name) then members else members ++ [x])
        more := h
    rcases mem_mergeMembers more _ h with h | h
    · by_cases hx : members.any (·.name == x.name) = true
      · rw [if_pos hx] at h
        exact .inl h
      · rw [if_neg hx] at h
        rcases List.mem_append.1 h with h | h
        · exact .inl h
        · exact .inr (List.mem_cons.2 (.inl (List.mem_singleton.1 h)))
    · exact .inr (List.mem_cons_of_mem x h)

theorem mem_mergeAll {m : TypeMember} :
    ∀ (lists : List (List TypeMember)) (members : List TypeMember),
      m ∈ mergeAll lists members → m ∈ members ∨ ∃ list ∈ lists, m ∈ list
  | [], _, h => .inl h
  | list :: lists, members, h => by
    have h : m ∈ mergeAll lists (mergeMembers members list) := h
    rcases mem_mergeAll lists _ h with h | ⟨other, ho, h⟩
    · rcases mem_mergeMembers list members h with h | h
      · exact .inl h
      · exact .inr ⟨list, List.mem_cons_self, h⟩
    · exact .inr ⟨other, List.mem_cons_of_mem list ho, h⟩

theorem mergeAll_in {lists : List (List TypeMember)} {own : List TypeMember}
    (hown : MembersIn own s) (hlists : ∀ list ∈ lists, MembersIn list s) :
    MembersIn (mergeAll lists own) s := by
  intro m hm
  rcases mem_mergeAll lists own hm with h | ⟨list, hlist, h⟩
  · exact hown m h
  · exact hlists list hlist m h

theorem memberType_yields {self : Resolver} (hself : u.Resolves self) (hs : u.Sound s)
    {scope : Scope} (hscope : Scope.In scope s) (m : Member) :
    u.Yields s (memberType self scope m) fun found s' => ∀ t, found = some t → s'.Has t := by
  unfold memberType
  split
  · rename_i expr _ _
    refine Yields.map (After.mono (hself s scope expr hs hscope) fun t s' ⟨h', ht⟩ => ⟨h', ?_⟩)
    rintro t' ht'
    cases ht'
    exact ht
  · exact Yields.pure hs fun t ht => by cases ht

theorem resolveMembers_yields {self : Resolver} (hself : u.Resolves self) (hs : u.Sound s)
    {scope : Scope} (hscope : Scope.In scope s) (members : List Member) :
    u.Yields s (resolveMembers self scope members) MembersIn := by
  unfold resolveMembers
  refine Yields.mapM_all (P := fun (m : TypeMember) s => ∀ t, m.type = some t → s.Has t) hs
    (fun h hm t ht => h.has (hm t ht)) members fun m _ s' h' => ?_
  refine Yields.bind (memberType_yields hself h'.sound (fun p hp => h'.has (hscope p hp)) m)
    fun found s'' h'' hfound => ?_
  exact Yields.pure h''.sound hfound

theorem resolveIndexes_yields {self : Resolver} (hself : u.Resolves self) (hs : u.Sound s)
    {scope : Scope} (hscope : Scope.In scope s) (indexes : List Index) :
    u.Yields s (resolveIndexes self scope indexes) IndexesIn := by
  unfold resolveIndexes
  refine Yields.mapM_all (P := fun (x : TypeIndex) s => s.Has x.key ∧ s.Has x.value) hs
    (fun h hx => hx.imp h.has h.has) indexes fun x _ s' h' => ?_
  refine Yields.bind (hself s' scope x.key h'.sound fun p hp => h'.has (hscope p hp))
    fun key s₁ h₁ hk => ?_
  refine Yields.bind (hself s₁ scope x.value h₁.sound fun p hp => (h'.trans h₁).has (hscope p hp))
    fun value s₂ h₂ hv => ?_
  exact Yields.pure h₂.sound ⟨h₂.has hk, hv⟩

/-- The scope of an interface binds its parameters to the arguments of the type. -/
theorem interface?_scope_in (hs : u.Sound s) {t : TypeId} {scope : Scope} {bases : List TypeExpr}
    {members : List Member} {indexes : List Index}
    (h : u.interface? (s.data t) = some (scope, bases, members, indexes)) : Scope.In scope s := by
  obtain ⟨id, d, args, hdata, -, -, rfl⟩ := exists_interface h
  exact scope_zip_in fun p hp => hs.parts t p (by rw [hdata]; exact hp)

theorem shape_parts_has (hs : u.Sound s) {t : TypeId} {origin : Option Instance} {shape : Shape}
    (h : s.data t = .object origin shape) : ∀ p ∈ shape.parts, s.Has p := by
  intro p hp
  refine hs.parts t p ?_
  rw [h]
  cases origin with
  | none => exact hp
  | some inst => exact List.mem_append_right _ hp

/-- The bases of an interface in turn, each resolved and asked. -/
theorem bases_yields {β : Type} {self : Resolver} (hself : u.Resolves self) (hs : u.Sound s)
    {scope : Scope} (hscope : Scope.In scope s) {ask : TypeId → Session β}
    {P : β → Interner → Prop} (up : ∀ {b s s'}, u.Grown s s' → P b s → P b s')
    (hask : ∀ t s', u.Sound s' → s'.Has t → u.Yields s' (ask t) P) (bases : List TypeExpr) :
    u.Yields s (bases.mapM fun base => do ask (← self scope base))
      fun bs s' => ∀ b ∈ bs, P b s' := by
  refine Yields.mapM_all (P := P) hs up bases fun base _ s' h' => ?_
  exact Yields.bind (hself s' scope base h'.sound fun p hp => h'.has (hscope p hp))
    fun t s'' h'' ht => hask t s'' h''.sound ht

theorem computeMembers_yields {self : Resolver} (hself : u.Resolves self) (hs : u.Sound s)
    {membersOf : TypeId → Session (List TypeMember)}
    (hof : ∀ t s', u.Sound s' → s'.Has t → u.Yields s' (membersOf t) MembersIn) (t : TypeId) :
    u.Yields s (u.computeMembers self membersOf t) MembersIn := by
  have hup : ∀ {ms s s'}, u.Grown s s' → MembersIn ms s → MembersIn ms s' :=
    fun h hms => hms.grown h.grows
  unfold computeMembers
  refine Yields.bind (Yields.query hs _) fun data s₁ _ ⟨heq, hdata⟩ => ?_
  subst heq hdata
  split
  · rename_i scope bases members indexes hinterface
    have hscope := interface?_scope_in hs hinterface
    refine Yields.bind (resolveMembers_yields hself hs hscope members) fun own s₂ h₂ hown => ?_
    refine Yields.bind (bases_yields (P := MembersIn) hself h₂.sound (fun p hp => h₂.has (hscope p hp)) hup hof
      bases) fun inherited s₃ h₃ hin => ?_
    exact Yields.pure h₃.sound (mergeAll_in (hown.grown h₃.grows) hin)
  · split
    · rename_i members indexes scope hdata
      exact resolveMembers_yields hself hs (fun p hp => shape_parts_has hs hdata p.2
        (List.mem_map_of_mem hp)) members
    · rename_i parts hdata
      refine Yields.bind (Yields.mapM_all (P := MembersIn) hs hup parts fun t ht s' h' =>
        hof t s' h'.sound (h'.has (shape_parts_has hs hdata t ht))) fun lists s₂ h₂ hlists => ?_
      exact Yields.pure h₂.sound (mergeAll_in (fun m hm => by cases hm) hlists)
    · rename_i key value hdata
      refine Yields.bind (Yields.query hs _) fun names s₂ h₂ ⟨heq, _⟩ => ?_
      subst heq
      refine Yields.pure hs fun m hm t ht => ?_
      obtain ⟨name, -, rfl⟩ := List.mem_map.1 hm
      cases ht
      exact shape_parts_has hs hdata _ (List.mem_cons_of_mem key List.mem_cons_self)
    · exact Yields.pure hs fun m hm => by cases hm

theorem interface?_of_isBare {d : TypeData} (h : d.isBare = true) : u.interface? d = none := by
  unfold interface?
  split
  · cases h
  · rfl

/-- Where nothing has members, none are computed. -/
theorem computeMembers_of_isBare {self : Resolver} {membersOf : TypeId → Session (List TypeMember)}
    {t : TypeId} (h : (s.data t).isBare = true) :
    u.computeMembers self membersOf t s = some ([], s) := by
  unfold computeMembers
  refine bind_eq_some.2 ⟨s.data t, s, rfl, ?_⟩
  rw [interface?_of_isBare h]
  generalize s.data t = d at h
  cases d with
  | object => cases h
  | _ => rfl

/-- The members are computed once and then kept. -/
theorem members_yields (u : Universe) : ∀ (fuel : Nat) (t : TypeId) (s : Interner), u.Sound s →
    s.Has t → u.Yields s (u.members fuel t) fun ms s' => s'.members? t = some ms ∧ MembersIn ms s'
  | 0, _, _, _, _ => fun _ _ h => by cases h
  | fuel + 1, t, s, hs, ht => by
    unfold members
    refine After.bind (Yields.query hs _) fun found s₁ ⟨_, heq, hfound⟩ => ?_
    subst heq
    cases found with
    | some ms => exact Yields.pure hs ⟨hfound.symm, hs.members t ms hfound.symm⟩
    | none =>
      -- the list stands as empty while it is computed, and is filled in at the end
      have hopen : u.Grown s₁ (s₁.setMembers t []) :=
        ⟨hs.setMembers ht (fun m hm => by cases hm) (fun _ => rfl),
          (Interner.Grows.refl s₁).setMembers ht hfound.symm []⟩
      have hof : ∀ t s', u.Sound s' → s'.Has t → u.Yields s' (u.members fuel t) MembersIn :=
        fun t s' hs' ht' => (members_yields u fuel t s' hs' ht').mono
          fun ms s'' ⟨h'', _, hms⟩ => ⟨h'', hms⟩
      refine After.bind (P := fun _ s' => s' = s₁.setMembers t []) ?_ fun _ s₂ heq => ?_
      · rintro _ _ hrun
        cases hrun
        rfl
      subst heq
      have hcompute := (computeMembers_yields (resolve_resolves u fuel) hopen.sound hof t).and
        (Q := fun ms s' => (s'.data t).isBare = true → ms = []) fun ms s' ⟨h', _⟩ hrun hbare => by
          rw [h'.grows.data t (hopen.has ht)] at hbare
          rw [computeMembers_of_isBare hbare] at hrun
          cases hrun
          rfl
      refine After.bind hcompute fun ms s₃ ⟨⟨h₃, hms⟩, hbare⟩ => ?_
      rintro _ _ hrun
      cases hrun
      have ht₃ : s₃.Has t := h₃.has (hopen.has ht)
      refine ⟨⟨h₃.sound.setMembers ht₃ hms hbare, ?_⟩, ?_, ?_⟩
      · exact (hopen.grows.trans h₃.grows).setMembers ht₃ hfound.symm ms
      · rw [Interner.members?_setMembers ht₃, if_pos rfl]
      · exact fun m hm p hp => (Interner.has_modifySlot s₃ t _).2 (hms m hm p hp)

theorem members_of_kept {t : TypeId} {ms : List TypeMember} (h : s.members? t = some ms)
    (fuel : Nat) : Lasts s (u.members (fuel + 1) t) ms := by
  intro s' hs'
  unfold members
  refine bind_eq_some.2 ⟨some ms, s', ?_, rfl⟩
  show some (s'.members? t, s') = _
  rw [hs'.members t ms h]

theorem members_settles (hs : u.Sound s) {t : TypeId} (ht : s.Has t) (fuel : Nat) :
    u.Settles s (u.members fuel t) fun ms s' => s'.members? t = some ms ∧ MembersIn ms s' := by
  cases fuel with
  | zero => exact fun _ _ h => by cases h
  | succ fuel =>
    exact (members_yields u _ t s hs ht).mono fun ms s' ⟨h', hkept, hms⟩ =>
      ⟨h', members_of_kept hkept fuel, hkept, hms⟩

/-! ## Index signatures

Index signatures are computed and kept as members are, and by the same steps. -/

theorem flatten_in {lists : List (List TypeIndex)} (h : ∀ list ∈ lists, IndexesIn list s) :
    IndexesIn lists.flatten s := by
  intro x hx
  obtain ⟨list, hlist, hx⟩ := List.mem_flatten.1 hx
  exact h list hlist x hx

theorem computeIndexes_yields {self : Resolver} (hself : u.Resolves self) (hs : u.Sound s)
    {indexesOf : TypeId → Session (List TypeIndex)}
    (hof : ∀ t s', u.Sound s' → s'.Has t → u.Yields s' (indexesOf t) IndexesIn) (t : TypeId) :
    u.Yields s (u.computeIndexes self indexesOf t) IndexesIn := by
  have hup : ∀ {is s s'}, u.Grown s s' → IndexesIn is s → IndexesIn is s' :=
    fun h his => his.grown h.grows
  unfold computeIndexes
  refine Yields.bind (Yields.query hs _) fun data s₁ _ ⟨heq, hdata⟩ => ?_
  subst heq hdata
  split
  · rename_i scope bases members indexes hinterface
    have hscope := interface?_scope_in hs hinterface
    refine Yields.bind (resolveIndexes_yields hself hs hscope indexes) fun own s₂ h₂ hown => ?_
    refine Yields.bind (bases_yields (P := IndexesIn) hself h₂.sound
      (fun p hp => h₂.has (hscope p hp)) hup hof bases) fun inherited s₃ h₃ hin => ?_
    refine Yields.pure h₃.sound fun x hx => ?_
    rcases List.mem_append.1 hx with hx | hx
    · exact hown.grown h₃.grows x hx
    · exact flatten_in hin x hx
  · split
    · rename_i members indexes scope hdata
      exact resolveIndexes_yields hself hs (fun p hp => shape_parts_has hs hdata p.2
        (List.mem_map_of_mem hp)) indexes
    · rename_i parts hdata
      refine Yields.bind (Yields.mapM_all (P := IndexesIn) hs hup parts fun t ht s' h' =>
        hof t s' h'.sound (h'.has (shape_parts_has hs hdata t ht))) fun lists s₂ h₂ hlists => ?_
      exact Yields.pure h₂.sound (flatten_in hlists)
    · rename_i key value hdata
      refine Yields.bind (Yields.query hs _) fun names s₂ h₂ ⟨heq, _⟩ => ?_
      subst heq
      cases names with
      | some names => exact Yields.pure hs fun x hx => by cases hx
      | none =>
        have hparts := shape_parts_has hs hdata
        refine Yields.pure hs fun x hx => ?_
        rw [List.mem_singleton.1 hx]
        exact ⟨hparts _ List.mem_cons_self, hparts _ (List.mem_cons_of_mem _ List.mem_cons_self)⟩
    · exact Yields.pure hs fun x hx => by cases hx

theorem computeIndexes_of_isBare {self : Resolver} {indexesOf : TypeId → Session (List TypeIndex)}
    {t : TypeId} (h : (s.data t).isBare = true) :
    u.computeIndexes self indexesOf t s = some ([], s) := by
  unfold computeIndexes
  refine bind_eq_some.2 ⟨s.data t, s, rfl, ?_⟩
  rw [interface?_of_isBare h]
  generalize s.data t = d at h
  cases d with
  | object => cases h
  | _ => rfl

theorem indexes_yields (u : Universe) : ∀ (fuel : Nat) (t : TypeId) (s : Interner), u.Sound s →
    s.Has t → u.Yields s (u.indexes fuel t) fun is s' => s'.indexes? t = some is ∧ IndexesIn is s'
  | 0, _, _, _, _ => fun _ _ h => by cases h
  | fuel + 1, t, s, hs, ht => by
    unfold indexes
    refine After.bind (Yields.query hs _) fun found s₁ ⟨_, heq, hfound⟩ => ?_
    subst heq
    cases found with
    | some is => exact Yields.pure hs ⟨hfound.symm, hs.indexes t is hfound.symm⟩
    | none =>
      -- the empty list is there first, and what is computed replaces it
      have hopen : u.Grown s₁ (s₁.setIndexes t []) :=
        ⟨hs.setIndexes ht (fun x hx => by cases hx) (fun _ => rfl),
          (Interner.Grows.refl s₁).setIndexes ht hfound.symm []⟩
      have hof : ∀ t s', u.Sound s' → s'.Has t → u.Yields s' (u.indexes fuel t) IndexesIn :=
        fun t s' hs' ht' => (indexes_yields u fuel t s' hs' ht').mono
          fun is s'' ⟨h'', _, his⟩ => ⟨h'', his⟩
      refine After.bind (P := fun _ s' => s' = s₁.setIndexes t []) ?_ fun _ s₂ heq => ?_
      · rintro _ _ hrun
        cases hrun
        rfl
      subst heq
      -- a bare type lists nothing, which soundness asks for
      have hcompute := (computeIndexes_yields (resolve_resolves u fuel) hopen.sound hof t).and
        (Q := fun is s' => (s'.data t).isBare = true → is = []) fun is s' ⟨h', _⟩ hrun hbare => by
          rw [h'.grows.data t (hopen.has ht)] at hbare
          rw [computeIndexes_of_isBare hbare] at hrun
          cases hrun
          rfl
      refine After.bind hcompute fun is s₃ ⟨⟨h₃, his⟩, hbare⟩ => ?_
      rintro _ _ hrun
      cases hrun
      have ht₃ : s₃.Has t := h₃.has (hopen.has ht)
      have hhas : ∀ {x}, s₃.Has x → (s₃.setIndexes t is).Has x :=
        (Interner.has_modifySlot s₃ t _).2
      refine ⟨⟨h₃.sound.setIndexes ht₃ his hbare, ?_⟩, ?_, ?_⟩
      · exact (hopen.grows.trans h₃.grows).setIndexes ht₃ hfound.symm is
      · rw [Interner.indexes?_setIndexes ht₃, if_pos rfl]
      · exact fun x hx => (his x hx).imp hhas hhas

theorem indexes_of_kept {t : TypeId} {is : List TypeIndex} (h : s.indexes? t = some is)
    (fuel : Nat) : Lasts s (u.indexes (fuel + 1) t) is := by
  intro s' hs'
  unfold indexes
  refine bind_eq_some.2 ⟨some is, s', ?_, rfl⟩
  show some (s'.indexes? t, s') = _
  rw [hs'.indexes t is h]

theorem indexes_settles (hs : u.Sound s) {t : TypeId} (ht : s.Has t) (fuel : Nat) :
    u.Settles s (u.indexes fuel t) fun is s' => s'.indexes? t = some is ∧ IndexesIn is s' := by
  cases fuel with
  | zero => exact fun _ _ h => by cases h
  | succ fuel =>
    exact (indexes_yields u _ t s hs ht).mono fun is s' ⟨h', hkept, his⟩ =>
      ⟨h', indexes_of_kept hkept fuel, hkept, his⟩

/-! ## Texts

The text of a type asks for the texts of its parts, and for those of its members if it is an
object without a name.  The induction is on the fuel and follows the definition. -/

theorem genericText_settles (hs : u.Sound s) {displayOf : TypeId → Session String}
    {inst : Instance} (hof : ∀ t ∈ inst.args, ∀ s', u.Grown s s' →
      u.Settles s' (displayOf t) fun _ _ => True) :
    u.Settles s (u.genericText displayOf inst) fun _ _ => True := by
  unfold genericText
  by_cases hargs : inst.args.isEmpty = true
  · rw [if_pos hargs]
    exact .pure hs trivial
  · rw [if_neg hargs]
    exact (Settles.mapM hs inst.args hof).bind fun args s' h' _ => .pure h'.sound trivial

theorem memberText_settles (hs : u.Sound s) {displayOf : TypeId → Session String}
    {m : TypeMember} (hof : ∀ t, m.type = some t → u.Settles s (displayOf t) fun _ _ => True) :
    u.Settles s (memberText displayOf m) fun _ _ => True := by
  unfold memberText
  cases htype : m.type with
  | none => exact .pure hs trivial
  | some t => exact (hof t htype).bind fun text s' h' _ => .pure h'.sound trivial

/-- **The text of a type lasts.** -/
theorem display_settles (u : Universe) : ∀ (fuel : Nat) (t : TypeId) (s : Interner), u.Sound s →
    s.Has t → u.Settles s (u.display fuel t) fun _ _ => True
  | 0, _, _, _, _ => fun _ _ h => by cases h
  | fuel + 1, t, s, hs, ht => by
    have hparts : ∀ p ∈ (s.data t).parts, ∀ s', u.Grown s s' →
        u.Settles s' (u.display fuel p) fun _ _ => True := fun p hp s' h' =>
      display_settles u fuel p s' h'.sound (h'.has (hs.parts t p hp))
    have hhas := hs.parts t
    unfold display
    refine (Settles.data hs ht).bind fun data s₁ h₁ hread => ?_
    obtain ⟨rfl, hdata⟩ := hread
    rw [← hdata] at hparts hhas
    clear hdata
    split
    · exact .pure hs trivial
    · exact .pure hs trivial
    · exact .pure hs trivial
    · exact .pure hs trivial
    · rename_i element
      have helement : s₁.Has element := hhas element List.mem_cons_self
      refine (hparts element List.mem_cons_self s₁ h₁).bind fun inner s₂ h₂ _ => ?_
      refine (Settles.data h₂.sound (h₂.has helement)).bind fun data s₃ h₃ ⟨heq, _⟩ => ?_
      subst heq
      split
      · exact .pure h₂.sound trivial
      · exact .pure h₂.sound trivial
    · exact genericText_settles hs hparts
    · rename_i branches
      exact (Settles.mapM hs branches hparts).bind fun texts s' h' _ => .pure h'.sound trivial
    · rename_i origin branches
      exact genericText_settles hs fun p hp => hparts p (List.mem_append_left _ hp)
    · rename_i origin shape
      exact genericText_settles hs fun p hp => hparts p (List.mem_append_left _ hp)
    · rename_i parts
      exact (Settles.mapM hs parts hparts).bind fun texts s' h' _ => .pure h'.sound trivial
    · refine (members_settles hs ht fuel).bind fun ms s₂ h₂ ⟨_, hms⟩ => ?_
      have hall := Settles.mapM (f := memberText (u.display fuel)) h₂.sound ms fun m hm s' h' =>
        memberText_settles h'.sound fun p hp =>
          display_settles u fuel p s' h'.sound (h'.has (hms m hm p hp))
      refine hall.bind fun fields s₃ h₃ _ => ?_
      by_cases hfields : fields.isEmpty = true
      · rw [if_pos hfields]
        exact .pure h₃.sound trivial
      · rw [if_neg hfields]
        exact .pure h₃.sound trivial
    · exact .pure hs trivial

/-! ## Keys

A key takes the texts of types and the keys of the parts.  The unions that are open do not
matter here: the statement is for any list of them. -/

theorem keyWithin_settles (u : Universe) : ∀ (fuel : Nat) (opened : List TypeId) (t : TypeId)
    (s : Interner), u.Sound s → s.Has t → u.Settles s (u.keyWithin fuel opened t) fun _ _ => True
  | 0, _, _, _, _, _ => fun _ _ h => by cases h
  | fuel + 1, opened, t, s, hs, ht => by
    have hparts : ∀ opened, ∀ p ∈ (s.data t).parts, ∀ s', u.Grown s s' →
        u.Settles s' (u.keyWithin fuel opened p) fun _ _ => True := fun opened p hp s' h' =>
      keyWithin_settles u fuel opened p s' h'.sound (h'.has (hs.parts t p hp))
    have htext : u.Settles s (do pure (TypeKey.opaqueText (← u.display fuel t))) fun _ _ => True :=
      (display_settles u fuel t s hs ht).bind fun text s' h' _ => .pure h'.sound trivial
    unfold keyWithin
    refine (Settles.data hs ht).bind fun data s₁ h₁ hread => ?_
    obtain ⟨rfl, hdata⟩ := hread
    rw [← hdata] at hparts
    clear hdata
    split
    · exact .pure hs trivial
    · exact .pure hs trivial
    · exact .pure hs trivial
    · exact .pure hs trivial
    · split
      · rename_i branches hunion
        by_cases hopened : opened.contains t = true
        · rw [if_pos hopened]
          split
          · exact .pure hs trivial
          · exact htext
        · rw [if_neg hopened]
          have hall := Settles.mapM hs branches fun b hb =>
            hparts (t :: opened) b (TypeData.union?_parts hunion hb)
          exact hall.bind fun keys s' h' _ => .pure h'.sound trivial
      · exact htext
      · split
        · exact .pure hs trivial
        · have hall := Settles.mapM hs data.arguments fun a ha =>
            hparts opened a (data.arguments_parts ha)
          exact hall.bind fun keys s' h' _ => .pure h'.sound trivial

/-- **The key of a list of branches lasts.** -/
theorem keyOfBranches_settles (hs : u.Sound s) (fuel : Nat) {ts : List TypeId}
    (hts : ∀ t ∈ ts, s.Has t) : u.Settles s (u.keyOfBranches fuel ts) fun _ _ => True := by
  have hall : u.Settles s (do pure (TypeKey.union (← ts.mapM (u.keyOf fuel)))) fun _ _ => True :=
    (Settles.mapM hs ts fun t ht s' h' =>
      keyWithin_settles u fuel [] t s' h'.sound (h'.has (hts t ht))).bind
      fun keys s' h' _ => .pure h'.sound trivial
  match ts with
  | [] => exact .pure hs trivial
  | [t] => exact keyWithin_settles u fuel [] t s hs (hts t List.mem_cons_self)
  | _ :: _ :: _ => exact hall

end Universe
end TypedJson
