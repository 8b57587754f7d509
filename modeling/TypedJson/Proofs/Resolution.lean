import TypedJson.Proofs.Session
import TypedJson.Proofs.Growth
import TypedJson.Types.Members
/-!
# Resolution keeps the table sound

Whatever is resolved in a sound table, the table stays sound and only grows
(`Universe.Grown`), and the handle that comes out of it is one of the table.  The handle
of a named type is reserved first and filled in last, so the growth is stated between
the table before and the table after, never in between.

`Yields` is the triple of these proofs: from a sound table the computation ends, if it ends,
in a sound table grown from the first one, with an answer that satisfies the condition.  The
lemmas on `pure`, `bind`, `map` and `mapM` follow the program's own way of putting
computations together, and each function of the resolver has its lemma on top of those of
the functions it calls.  The recursion through type expressions is closed once, by induction
on the fuel (`resolve_resolves`).
-/
namespace TypedJson

theorem Session.query_bind {α β : Type} (f : Interner → α) (g : α → Session β) (s : Interner) :
    (Session.query f >>= g) s = g (f s) s := rfl

namespace Universe

/-! ## Declarations -/

theorem mem_declarations_iff {u : Universe} {id : DeclarationId} {d : Declaration} :
    (id, d) ∈ u.declarations ↔ u.declaration? id = some d := by
  unfold declarations declaration?
  constructor
  · intro h
    obtain ⟨⟨unit, i⟩, hunit, h⟩ := List.mem_flatMap.1 h
    obtain ⟨⟨d', j⟩, hd, heq⟩ := List.mem_map.1 h
    cases heq
    rw [List.mk_mem_zipIdx_iff_getElem?] at hunit hd
    rw [hunit]
    exact hd
  · intro h
    obtain ⟨unit, hunit, hd⟩ := Option.bind_eq_some_iff.1 h
    refine List.mem_flatMap.2 ⟨(unit, id.unit), List.mk_mem_zipIdx_iff_getElem?.2 hunit, ?_⟩
    exact List.mem_map.2 ⟨(d, id.index), List.mk_mem_zipIdx_iff_getElem?.2 hd, rfl⟩

theorem mem_declarations_of_find? {u : Universe} {name : String} {unit : Nat} {id : DeclarationId}
    (h : u.find? name unit = some id) : ∃ d, (id, d) ∈ u.declarations ∧ d.name = name := by
  have hmem : id ∈ (u.declarations.filter (·.2.name == name)).map (·.1) := by
    unfold find? at h
    rw [Option.orElse_eq_orElse, Option.orElse_eq_or] at h
    rcases Option.or_eq_some_iff.1 h with h | ⟨-, h⟩
    · exact List.mem_of_find?_eq_some h
    · exact List.mem_of_mem_head? h
  obtain ⟨⟨id', d⟩, hd, rfl⟩ := List.mem_map.1 hmem
  obtain ⟨hd, hname⟩ := List.mem_filter.1 hd
  exact ⟨d, hd, by simpa using hname⟩

/-! ## Growth of sound tables -/

/-- The second table is sound and has all that the first has. -/
structure Grown (u : Universe) (s s' : Interner) : Prop where
  sound : u.Sound s'
  grows : s.Grows s'

namespace Grown

variable {u : Universe}

theorem refl {s : Interner} (h : u.Sound s) : u.Grown s s := ⟨h, .refl s⟩

theorem trans {s₁ s₂ s₃ : Interner} (h₁ : u.Grown s₁ s₂) (h₂ : u.Grown s₂ s₃) : u.Grown s₁ s₃ :=
  ⟨h₂.sound, h₁.grows.trans h₂.grows⟩

theorem has {s s' : Interner} (h : u.Grown s s') {t : TypeId} (ht : s.Has t) : s'.Has t :=
  h.grows.has ht

/-- A note about an instance is no growth of the slots. -/
theorem record {s s' : Interner} (h : u.Grown s s') (i : Instance) {t : TypeId} (ht : s'.Has t) :
    u.Grown s (s'.record i t) := by
  refine ⟨h.sound.of_slots_eq rfl ?_, h.grows.trans (.of_slots_eq rfl)⟩
  intro entry he
  rcases List.mem_cons.1 he with rfl | he
  · exact ht
  · exact h.sound.instances entry he

theorem expanding {s s' : Interner} (h : u.Grown s s') (is : List Instance) :
    u.Grown s { s' with expanding := is } :=
  ⟨h.sound.of_slots_eq rfl h.sound.instances, h.grows.trans (.of_slots_eq rfl)⟩

theorem define {s s' : Interner} (h : u.Grown s s') {t : TypeId} (ht : s'.Has t)
    (hs : ¬ s.Has t) (hopen : s'.data t = .reserved) {d : TypeData}
    (hp : ∀ p ∈ d.parts, s'.Has p) (hd : u.Lawful d) : u.Grown s (s'.define t d) :=
  ⟨h.sound.define ht hopen hp hd, h.grows.define ht hs d⟩

end Grown

/-! ## Computations that keep the table sound

The condition on the answer is about the table that the computation leaves behind, and it is
handed on to what follows.  For a list of computations it has to survive the growth that the
later ones cause; that is the assumption `up`. -/

/-- The computation keeps the table sound, only adds to it, and answers as stated. -/
def Yields (u : Universe) (s : Interner) (m : Session α) (Q : α → Interner → Prop) : Prop :=
  After s m fun a s' => u.Grown s s' ∧ Q a s'

/-- The computation answers with a handle of the table. -/
abbrev YieldsType (u : Universe) (s : Interner) (m : Session TypeId) : Prop :=
  u.Yields s m fun t s' => s'.Has t

/-- The computation answers with handles of the table. -/
abbrev YieldsTypes (u : Universe) (s : Interner) (m : Session (List TypeId)) : Prop :=
  u.Yields s m fun ts s' => ∀ t ∈ ts, s'.Has t

namespace Yields

variable {u : Universe} {α β : Type}

theorem pure {s : Interner} (hs : u.Sound s) {a : α} {Q : α → Interner → Prop} (h : Q a s) :
    u.Yields s (Pure.pure a : Session α) Q :=
  After.pure ⟨.refl hs, h⟩

theorem bind {s : Interner} {m : Session α} {f : α → Session β} {P : α → Interner → Prop}
    {Q : β → Interner → Prop} (hm : u.Yields s m P)
    (hf : ∀ a s', u.Grown s s' → P a s' → u.Yields s' (f a) Q) : u.Yields s (m >>= f) Q :=
  After.bind hm fun a s' ⟨hgrown, ha⟩ =>
    (hf a s' hgrown ha).mono fun _ _ ⟨hgrown', hb⟩ => ⟨hgrown.trans hgrown', hb⟩

theorem query {s : Interner} (hs : u.Sound s) (f : Interner → α) :
    u.Yields s (Session.query f) fun a s' => s' = s ∧ a = f s := by
  rintro a s' h
  cases h
  exact ⟨.refl hs, rfl, rfl⟩

theorem map {s : Interner} {m : Session α} {f : α → β} {Q : β → Interner → Prop}
    (h : u.Yields s m fun a s' => Q (f a) s') : u.Yields s (f <$> m) Q :=
  After.map h

theorem mapM {s : Interner} (hs : u.Sound s) {P : α → β → Interner → Prop}
    (up : ∀ {a b s s'}, u.Grown s s' → P a b s → P a b s') {f : α → Session β} (as : List α)
    (hf : ∀ a ∈ as, ∀ s', u.Grown s s' → u.Yields s' (f a) (P a)) :
    u.Yields s (as.mapM f) fun bs s' => List.Forall₂ (fun a b => P a b s') as bs :=
  After.mapM (R := u.Grown) (P := P) Grown.trans up as (.refl hs) (fun _ h => .refl h.sound) hf

theorem mapM_all {s : Interner} (hs : u.Sound s) {P : β → Interner → Prop}
    (up : ∀ {b s s'}, u.Grown s s' → P b s → P b s') {f : α → Session β} (as : List α)
    (hf : ∀ a ∈ as, ∀ s', u.Grown s s' → u.Yields s' (f a) P) :
    u.Yields s (as.mapM f) fun bs s' => ∀ b ∈ bs, P b s' :=
  After.mono (Yields.mapM (P := fun _ b s => P b s) hs up as hf)
    fun _ _ ⟨hgrown, hbs⟩ => ⟨hgrown, fun _ hb => (forall₂_mem_right hbs hb).elim fun _ h => h.2⟩

end Yields

variable {u : Universe} {s : Interner}

theorem YieldsType.mapM {α : Type} (hs : u.Sound s) {f : α → Session TypeId} (as : List α)
    (hf : ∀ a ∈ as, ∀ s', u.Grown s s' → u.YieldsType s' (f a)) : u.YieldsTypes s (as.mapM f) :=
  Yields.mapM_all (P := fun t s => s.Has t) hs (fun h => h.has) as hf

/-! ## Single types

Two operations give handles: a form that is interned is looked up first and added only if it
is new, an object is always new.  Both are inverted in `intern_cases` and `newObject_eq`, and
nothing else about them is used later. -/

theorem reserve_yields (hs : u.Sound s) : u.Yields s Session.reserve fun t s' =>
    s'.Has t ∧ ¬ s.Has t ∧ s'.data t = .reserved := by
  intro t s' h
  cases h
  refine ⟨⟨hs.push (fun p hp => by cases hp) trivial, .push s _⟩, ?_, Nat.lt_irrefl _, ?_⟩
  · exact Interner.has_push_new s .reserved
  · exact Interner.data_push_new s .reserved

theorem intern_cases {f : Form} {t : TypeId} {s' : Interner}
    (hrun : Session.intern f s = some (t, s')) :
    (s.find? f = some t ∧ s' = s) ∨
      (s.find? f = none ∧ t = (s.push (.form f)).1 ∧ s' = (s.push (.form f)).2) := by
  have hrun : s.intern f = (t, s') := Option.some.inj hrun
  unfold Interner.intern at hrun
  split at hrun
  · rename_i hfind
    cases hrun
    exact .inl ⟨hfind, rfl⟩
  · rename_i hnone
    cases hrun
    exact .inr ⟨hnone, rfl, rfl⟩

theorem intern_yields (hs : u.Sound s) {f : Form} (hp : ∀ p ∈ (TypeData.form f).parts, s.Has p)
    (hd : u.Lawful (.form f)) : u.YieldsType s (Session.intern f) := by
  intro t s' hrun
  rcases intern_cases hrun with ⟨hfind, rfl⟩ | ⟨-, rfl, rfl⟩
  · exact ⟨.refl hs, (Interner.data_of_find? hfind).1⟩
  · exact ⟨⟨hs.push hp hd, .push s _⟩, Interner.has_push_new s _⟩

/-- A new handle for an object is reserved and then closed; it is a new handle with its
meaning. -/
theorem newObject_eq (origin : Option Instance) (shape : Shape) (s : Interner) :
    newObject origin shape s = some (s.push (.object origin shape)) := by
  show some (_, (s.push .reserved).2.define ⟨s.slots.size⟩ (.object origin shape)) = _
  have hslots : (s.slots.push ⟨.reserved, none, none⟩).modify s.slots.size
      (fun slot => { slot with data := .object origin shape }) =
      s.slots.push ⟨.object origin shape, none, none⟩ := by
    refine Array.ext (by simp) fun i hi hi' => ?_
    rw [Array.getElem_modify, Array.getElem_push, Array.getElem_push]
    by_cases hlt : i < s.slots.size
    · have hne : s.slots.size ≠ i := Nat.ne_of_gt hlt
      rw [if_neg hne, dif_pos hlt, dif_pos hlt]
    · rw [Array.size_push] at hi'
      have heq : s.slots.size = i := by omega
      rw [if_pos heq, dif_neg hlt, dif_neg hlt]
  unfold Interner.define Interner.modifySlot Interner.push
  dsimp only
  rw [hslots]

theorem newObject_yields (hs : u.Sound s) {origin : Option Instance} {shape : Shape}
    (hp : ∀ p ∈ (TypeData.object origin shape).parts, s.Has p)
    (hd : u.Lawful (.object origin shape)) : u.YieldsType s (newObject origin shape) := by
  intro t s' hrun
  rw [newObject_eq] at hrun
  cases hrun
  exact ⟨⟨hs.push hp hd, .push s _⟩, Interner.has_push_new s _⟩

theorem intern_answers (s : Interner) (f : Form) :
    After s (Session.intern f) fun t s' => s'.data t = .form f := by
  intro t s' hrun
  rcases intern_cases hrun with ⟨hfind, rfl⟩ | ⟨-, rfl, rfl⟩
  · exact (Interner.data_of_find? hfind).2
  · exact Interner.data_push_new s _

theorem instance?_yields (hs : u.Sound s) (i : Instance) :
    u.Yields s (Session.query (·.instance? i)) fun found s' =>
      s' = s ∧ ∀ t, found = some t → s.Has t := by
  refine (Yields.query hs _).mono fun found s' ⟨hgrown, hs', hfound⟩ => ⟨hgrown, hs', ?_⟩
  rintro t rfl
  obtain ⟨entry, hentry, rfl⟩ := Option.map_eq_some_iff.1 hfound.symm
  exact hs.instances entry (List.mem_of_find?_eq_some hentry)

/-! ## What the table has already

Asked for again, a type is found where it was put, and the table stays as it is.  What makes
an answer last is stated in terms of these. -/

theorem intern_of_find? {f : Form} {t : TypeId} (h : s.find? f = some t) :
    Session.intern f s = some (t, s) := by
  show some (s.intern f) = _
  rw [Interner.intern, h]

theorem recordType_of_instance? {key value t : TypeId}
    (h : s.instance? ⟨.builtin .record, [key, value]⟩ = some t) :
    recordType key value s = some (t, s) := by
  unfold recordType
  rw [Session.query_bind, h]
  rfl

/-- An alias with all its arguments is found again, and nothing is resolved. -/
theorem instantiate_of_instance? {self : Resolver} {id : DeclarationId} {d : Declaration}
    {body : TypeExpr} {args : List TypeId} {t : TypeId} (hd : u.declaration? id = some d)
    (hbody : d.body = .typeAlias body) (hcount : args.length = d.typeParams.length)
    (h : s.instance? ⟨.declared id, args⟩ = some t) :
    u.instantiate self id args s = some (t, s) := by
  have hnone :
      (List.range d.typeParams.length).drop (args.take d.typeParams.length).length = [] := by
    rw [← hcount, List.take_length]
    exact List.drop_eq_nil_of_le (Nat.le_of_eq List.length_range)
  unfold instantiate
  rw [hd]
  dsimp only
  rw [hnone, List.mapM_nil, pure_bind, List.append_nil, ← hcount, List.take_length, hbody]
  dsimp only
  rw [expandAlias, Session.query_bind, h]
  rfl

/-! ## Type expressions

A declaration may be met again while its own parts are being resolved.  If it has a handle of
its own, that is in the table already and is the answer.  A transparent alias has none: it
stands for what it expands into, and while that is under way the name is unresolved.  Growth
is stated around the whole of the reservation and the filling in (`reserveInstance_yields`),
where the handle is new to the table before. -/

/-- The type parameters in force stand for handles of the table. -/
def Scope.In (scope : Scope) (s : Interner) : Prop := ∀ p ∈ scope.params, s.Has p.2

/-- In a sound table the resolver yields a handle of the table. -/
def Resolves (u : Universe) (self : Resolver) : Prop :=
  ∀ s scope e, u.Sound s → Scope.In scope s → u.YieldsType s (self scope e)

theorem scope_zip_in {unit : Nat} {params : List String} {args : List TypeId}
    (h : ∀ t ∈ args, s.Has t) : Scope.In ⟨unit, params.zip args⟩ s :=
  fun p hp => h p.2 (List.of_mem_zip hp).2

theorem Resolves.mapM {self : Resolver} (hself : u.Resolves self) (hs : u.Sound s) {scope : Scope}
    (hscope : Scope.In scope s) (es : List TypeExpr) :
    u.YieldsTypes s (es.mapM (self scope)) :=
  YieldsType.mapM hs es fun e _ s' hgrown =>
    hself s' scope e hgrown.sound fun p hp => hgrown.has (hscope p hp)

theorem argumentOr_yields (hs : u.Sound s) (i : Intrinsic) (given : Option TypeId)
    (h : ∀ t, given = some t → s.Has t) : u.YieldsType s (argumentOr i given) := by
  cases given with
  | some t => exact Yields.pure hs (h t rfl)
  | none => exact intern_yields hs (fun p hp => by cases hp) trivial

/-- A record type is found, or it is a new object that is noted under its keys and values. -/
theorem recordType_cases {key value t : TypeId} {s' : Interner}
    (hrun : recordType key value s = some (t, s')) :
    (s.instance? ⟨.builtin .record, [key, value]⟩ = some t ∧ s' = s) ∨
      (s.instance? ⟨.builtin .record, [key, value]⟩ = none ∧ t = ⟨s.slots.size⟩ ∧
        s' = (s.push (.object (some ⟨.builtin .record, [key, value]⟩) (.record key value))).2.record
          ⟨.builtin .record, [key, value]⟩ ⟨s.slots.size⟩) := by
  unfold recordType at hrun
  rw [Session.query_bind] at hrun
  cases hfind : s.instance? ⟨.builtin .record, [key, value]⟩ with
  | some t' =>
    rw [hfind] at hrun
    cases hrun
    exact .inl ⟨rfl, rfl⟩
  | none =>
    rw [hfind] at hrun
    obtain ⟨t', s₁, hobject, hrun⟩ := bind_eq_some.1 hrun
    rw [newObject_eq] at hobject
    cases hobject
    cases hrun
    exact .inr ⟨rfl, rfl, rfl⟩

theorem recordType_yields (hs : u.Sound s) {key value : TypeId} (hk : s.Has key)
    (hv : s.Has value) : u.YieldsType s (recordType key value) := by
  intro t s' hrun
  rcases recordType_cases hrun with ⟨hfind, rfl⟩ | ⟨-, rfl, rfl⟩
  · exact ⟨.refl hs, hs.instances _ (Interner.mem_of_instance? hfind)⟩
  · have hparts : ∀ p ∈ (TypeData.object (some ⟨.builtin .record, [key, value]⟩)
        (.record key value)).parts, s.Has p := by
      intro p hp
      simp only [TypeData.parts, Shape.parts, List.cons_append, List.nil_append, List.mem_cons,
        List.not_mem_nil, or_false] at hp
      rcases hp with rfl | rfl | rfl | rfl
      · exact hk
      · exact hv
      · exact hk
      · exact hv
    have ht := Interner.has_push_new s (.object (some ⟨.builtin .record, [key, value]⟩)
      (.record key value))
    exact ⟨Grown.record ⟨hs.push hparts rfl, .push s _⟩ _ ht, ht⟩

theorem builtinType_yields (hs : u.Sound s) (b : Builtin) {args : List TypeId}
    (h : ∀ t ∈ args, s.Has t) : u.YieldsType s (builtinType b args) := by
  have harg : ∀ {s'} (i : Intrinsic) (n : Nat), u.Grown s s' →
      u.YieldsType s' (argumentOr i args[n]?) := fun i n hgrown =>
    argumentOr_yields hgrown.sound i _ fun t ht => hgrown.has (h t (List.mem_of_getElem? ht))
  cases b with
  | array =>
    refine Yields.bind (harg .unknown 0 (.refl hs)) fun t s₁ h₁ ht => ?_
    refine intern_yields h₁.sound (fun p hp => ?_) trivial
    rw [List.mem_singleton.1 hp]
    exact ht
  | date => exact intern_yields hs (fun p hp => by cases hp) (.inl ⟨.date, .inl rfl, rfl⟩)
  | pattern => exact intern_yields hs (fun p hp => by cases hp) (.inl ⟨.pattern, .inr rfl, rfl⟩)
  | record =>
    refine Yields.bind (harg .string 0 (.refl hs)) fun key s₁ h₁ hk => ?_
    refine Yields.bind (harg .unknown 1 h₁) fun value s₂ h₂ hv => ?_
    exact recordType_yields h₂.sound (h₂.has hk) hv

/-- A handle is reserved for the instance, its parts are resolved, and the handle is filled in. -/
theorem reserveInstance_cases {α : Type} {inst : Instance} {parts : Session α}
    {data : α → TypeData} {t : TypeId} {s' : Interner}
    (hrun : (do
      let t ← reserveInstance inst
      let a ← parts
      Session.update (·.define t (data a))
      pure t : Session TypeId) s = some (t, s')) :
    ∃ a s₁, parts ((s.push .reserved).2.record inst (s.push .reserved).1) = some (a, s₁) ∧
      t = (s.push .reserved).1 ∧ s' = s₁.define (s.push .reserved).1 (data a) := by
  obtain ⟨t', s₀, hreserve, hrun⟩ := bind_eq_some.1 hrun
  cases hreserve
  obtain ⟨a, s₁, hparts, hrun⟩ := bind_eq_some.1 hrun
  cases hrun
  exact ⟨a, s₁, hparts, rfl, rfl⟩

/-- A handle is reserved for the instance, its parts are resolved, and the handle is
filled in with what they come to. -/
theorem reserveInstance_yields {α : Type} (hs : u.Sound s) (inst : Instance) (parts : Session α)
    {P : α → Interner → Prop} (data : α → TypeData)
    (hparts : ∀ s', u.Grown s s' → u.Yields s' parts P)
    (hdata : ∀ a s', u.Grown s s' → P a s' →
      (∀ p ∈ (data a).parts, s'.Has p) ∧ u.Lawful (data a)) :
    u.YieldsType s (do
      let t ← reserveInstance inst
      let a ← parts
      Session.update (·.define t (data a))
      pure t) := by
  intro t s' hrun
  obtain ⟨a, s₁, hrun₁, rfl, rfl⟩ := reserveInstance_cases hrun
  obtain ⟨hgrown, ht, hnew, hopen⟩ := reserve_yields hs _ _ (rfl : Session.reserve s = some _)
  have hgrown := hgrown.record inst ht
  obtain ⟨h₁, ha⟩ := hparts _ hgrown a s₁ hrun₁
  obtain ⟨hp, hd⟩ := hdata a s₁ (hgrown.trans h₁) ha
  have hopen' := (h₁.grows.data _ ht).trans hopen
  exact ⟨(hgrown.trans h₁).define (h₁.has ht) hnew hopen' hp hd,
    (Interner.has_modifySlot s₁ _ _).2 (h₁.has ht)⟩

/-- An alias without a handle of its own stands for what it expands into, unless it is being
expanded already. -/
def expandTransparent (self : Resolver) (name : String) (inst : Instance) (scope : Scope)
    (e : TypeExpr) : Session TypeId := do
  if ← Session.query (·.expanding.contains inst) then Session.intern (.unresolved name)
  else
    Session.update fun s => { s with expanding := inst :: s.expanding }
    let t ← self scope e
    Session.update fun s => { s with expanding := s.expanding.drop 1 }
    Session.update (·.record inst t)
    pure t

/-- The alias is being expanded already, or its expansion is resolved and noted. -/
theorem expandTransparent_cases {self : Resolver} {name : String} {inst : Instance} {scope : Scope}
    {e : TypeExpr} {t : TypeId} {s' : Interner}
    (hrun : expandTransparent self name inst scope e s = some (t, s')) :
    (inst ∈ s.expanding ∧ Session.intern (.unresolved name) s = some (t, s')) ∨
      (inst ∉ s.expanding ∧ ∃ s₁,
        self scope e { s with expanding := inst :: s.expanding } = some (t, s₁) ∧
        s' = Interner.record { s₁ with expanding := s₁.expanding.drop 1 } inst t) := by
  unfold expandTransparent at hrun
  rw [Session.query_bind] at hrun
  by_cases hagain : inst ∈ s.expanding
  · rw [if_pos (List.contains_iff_mem.2 hagain)] at hrun
    exact .inl ⟨hagain, hrun⟩
  · rw [if_neg (mt List.contains_iff_mem.1 hagain)] at hrun
    obtain ⟨_, s₀, hbegin, hrun⟩ := bind_eq_some.1 hrun
    cases hbegin
    obtain ⟨t', s₁, hself, hrun⟩ := bind_eq_some.1 hrun
    cases hrun
    exact .inr ⟨hagain, s₁, hself, rfl⟩

theorem expandTransparent_yields {self : Resolver} (hself : u.Resolves self) (hs : u.Sound s)
    {scope : Scope} (hscope : Scope.In scope s) {name : String}
    (hname : u.Lawful (.form (.unresolved name))) {inst : Instance} (e : TypeExpr) :
    u.YieldsType s (expandTransparent self name inst scope e) := by
  intro t s' hrun
  rcases expandTransparent_cases hrun with ⟨-, hrun⟩ | ⟨-, s₁, hrun₁, rfl⟩
  · exact intern_yields hs (fun p hp => by cases hp) hname t s' hrun
  · have h₀ := (Grown.refl hs).expanding (inst :: s.expanding)
    obtain ⟨h₁, ht⟩ := hself _ scope e h₀.sound (fun p hp => h₀.has (hscope p hp)) t s₁ hrun₁
    exact ⟨((h₀.trans h₁).expanding _).record _ ht, ht⟩

/-! An alias with a handle of its own has it before its parts are resolved.  The parts are
handles of a later table, and the arguments of an earlier one, so both are carried to the
table in which the handle is filled in. -/

theorem expandAlias_yields {self : Resolver} (hself : u.Resolves self) (hs : u.Sound s)
    {id : DeclarationId} {d : Declaration} {body : TypeExpr} (hd : u.declaration? id = some d)
    (hbody : d.body = .typeAlias body) {args : List TypeId} (hargs : ∀ t ∈ args, s.Has t) :
    u.YieldsType s (expandAlias self d.name d.typeParams id.unit body ⟨.declared id, args⟩) := by
  have halias : u.IsAlias (.declared id) := ⟨id, d, body, rfl, hd, hbody⟩
  have hscope : ∀ {s'}, u.Grown s s' → Scope.In ⟨id.unit, d.typeParams.zip args⟩ s' := fun h =>
    scope_zip_in fun t ht => h.has (hargs t ht)
  unfold expandAlias
  refine Yields.bind (instance?_yields hs _) fun found s₁ _ ⟨heq, hfound⟩ => ?_
  subst heq
  cases found with
  | some t => exact Yields.pure hs (hfound t rfl)
  | none =>
    have htransparent : ∀ e : TypeExpr, u.YieldsType s₁
        (expandTransparent self d.name ⟨.declared id, args⟩ ⟨id.unit, d.typeParams.zip args⟩ e) :=
      expandTransparent_yields hself hs (hscope (.refl hs)) (.inr ⟨id, d, hd, rfl⟩)
    cases body with
    | union branches =>
      refine reserveInstance_yields hs _ (branches.mapM _)
        (fun ts => .namedUnion ⟨.declared id, args⟩ ts)
        (fun s' h' => hself.mapM h'.sound (hscope h') branches) fun ts s' h' hts => ⟨?_, halias⟩
      intro p hp
      rcases List.mem_append.1 hp with hp | hp
      · exact h'.has (hargs p hp)
      · exact hts p hp
    | object members indexes =>
      refine reserveInstance_yields (P := fun _ _ => True) hs _ (pure ())
        (fun _ => .object (some ⟨.declared id, args⟩) (.literal members indexes _))
        (fun s' h' => .pure h'.sound trivial) fun _ s' h' _ => ⟨?_, halias⟩
      intro p hp
      rcases List.mem_append.1 hp with hp | hp
      · exact h'.has (hargs p hp)
      · obtain ⟨q, hq, rfl⟩ := List.mem_map.1 hp
        exact hscope h' q hq
    | intersection parts =>
      refine reserveInstance_yields hs _ (parts.mapM _)
        (fun ts => .object (some ⟨.declared id, args⟩) (.intersection ts))
        (fun s' h' => hself.mapM h'.sound (hscope h') parts) fun ts s' h' hts => ⟨?_, halias⟩
      intro p hp
      rcases List.mem_append.1 hp with hp | hp
      · exact h'.has (hargs p hp)
      · exact hts p hp
    | name n => exact htransparent _
    | generic n es => exact htransparent _
    | array e => exact htransparent _
    | literal value => exact htransparent _

theorem instantiate_yields {self : Resolver} (hself : u.Resolves self) (hs : u.Sound s)
    {id : DeclarationId} {d : Declaration} (hd : u.declaration? id = some d) {args : List TypeId}
    (hargs : ∀ t ∈ args, s.Has t) : u.YieldsType s (u.instantiate self id args) := by
  unfold instantiate
  rw [hd]
  have hmissing : u.YieldsTypes s
      (((List.range d.typeParams.length).drop (args.take d.typeParams.length).length).mapM
        fun position => Session.intern (.param (.param id position))) := by
    refine YieldsType.mapM hs _ fun position hmem s' h' => ?_
    have hlt := List.mem_range.1 (List.mem_of_mem_drop hmem)
    exact intern_yields h'.sound (fun p hp => by cases hp) ⟨id, position, d, rfl, hd, hlt⟩
  refine Yields.bind hmissing fun missing s₁ h₁ hm => ?_
  have hall : ∀ t ∈ args.take d.typeParams.length ++ missing, s₁.Has t := by
    intro t ht
    rcases List.mem_append.1 ht with ht | ht
    · exact h₁.has (hargs t (List.mem_of_mem_take ht))
    · exact hm t ht
  have hreference (hkind : DeclarationBody.kind d.body ≠ .typeAlias) : u.YieldsType s₁
      (Session.intern (.reference ⟨.declared id, args.take d.typeParams.length ++ missing⟩)) :=
    intern_yields h₁.sound hall (.inr ⟨id, d, rfl, hd, hkind⟩)
  cases hbody : d.body with
  | interface bases members indexes => exact hreference fun h => by rw [hbody] at h; cases h
  | enum members => exact hreference fun h => by rw [hbody] at h; cases h
  | typeAlias body => exact expandAlias_yields hself h₁.sound hd hbody hall

/-! A name is looked for among the parameters, the intrinsic types, `true` and `false`, the
declarations and the builtins, in this order; what is found nowhere is unresolved. -/

theorem resolveName_yields {self : Resolver} (hself : u.Resolves self) (hs : u.Sound s)
    {scope : Scope} (hscope : Scope.In scope s) (name : String) (args : List TypeExpr) :
    u.YieldsType s (u.resolveName self scope name args) := by
  have hleaf : ∀ {s'} (f : Form), u.Sound s' → (TypeData.form f).parts = [] →
      u.Lawful (.form f) → u.YieldsType s' (Session.intern f) := fun f hs' hp hd =>
    intern_yields hs' (fun p hmem => by rw [hp] at hmem; cases hmem) hd
  unfold resolveName
  split
  · rename_i p t hfind
    refine Yields.pure hs ?_
    split at hfind
    · exact hscope _ (List.mem_of_find?_eq_some hfind)
    · cases hfind
  · split
    · exact hleaf _ hs rfl trivial
    · rename_i hintrinsic
      by_cases htrue : name = "true"
      · rw [if_pos htrue]
        exact hleaf _ hs rfl trivial
      rw [if_neg htrue]
      by_cases hfalse : name = "false"
      · rw [if_pos hfalse]
        exact hleaf _ hs rfl trivial
      rw [if_neg hfalse]
      refine Yields.bind (hself.mapM hs hscope args) fun ts s₁ h₁ hts => ?_
      cases hfind : u.find? name scope.unit with
      | some id =>
        obtain ⟨d, hmem, -⟩ := mem_declarations_of_find? hfind
        exact instantiate_yields hself h₁.sound (mem_declarations_iff.1 hmem) hts
      | none =>
        cases hbuiltin : Builtin.ofName? name with
        | some b => exact builtinType_yields h₁.sound b hts
        | none => exact hleaf _ h₁.sound rfl (.inl ⟨hintrinsic, hbuiltin⟩)

theorem resolveStep_resolves {self : Resolver} (hself : u.Resolves self) :
    u.Resolves (u.resolveStep self) := by
  intro s scope e hs hscope
  cases e with
  | name n => exact resolveName_yields hself hs hscope n []
  | generic n args => exact resolveName_yields hself hs hscope n args
  | array e =>
    refine Yields.bind (hself s scope e hs hscope) fun t s₁ h₁ ht => ?_
    refine intern_yields h₁.sound (fun p hp => ?_) trivial
    rw [List.mem_singleton.1 hp]
    exact ht
  | union branches =>
    exact Yields.bind (hself.mapM hs hscope branches) fun ts s₁ h₁ hts =>
      intern_yields h₁.sound hts trivial
  | intersection parts =>
    exact Yields.bind (hself.mapM hs hscope parts) fun ts s₁ h₁ hts =>
      newObject_yields h₁.sound hts trivial
  | literal value => exact intern_yields hs (fun p hp => by cases hp) trivial
  | object members indexes =>
    refine newObject_yields hs (fun p hp => ?_) trivial
    obtain ⟨q, hq, rfl⟩ := List.mem_map.1 hp
    exact hscope q hq

/-- **Resolution keeps a sound table sound and answers with a handle of it.** -/
theorem resolve_resolves (u : Universe) : ∀ fuel, u.Resolves (u.resolve fuel)
  | 0 => fun _ _ _ _ _ _ _ h => by cases h
  | fuel + 1 => resolveStep_resolves (resolve_resolves u fuel)

theorem declared?_yields (hs : u.Sound s) (fuel : Nat) (name : String) :
    u.Yields s (u.declared? fuel name) fun found s' => ∀ t, found = some t → s'.Has t := by
  unfold declared?
  cases hfind : u.find? name 0 with
  | none => exact Yields.pure hs fun t ht => by cases ht
  | some id =>
    obtain ⟨d, hmem, -⟩ := mem_declarations_of_find? hfind
    refine Yields.bind (instantiate_yields (resolve_resolves u fuel) hs
      (mem_declarations_iff.1 hmem) (fun t ht => by cases ht)) fun t s₁ h₁ ht => ?_
    exact Yields.pure h₁.sound fun t' ht' => by cases ht'; exact ht

theorem exportedTypes_yields (hs : u.Sound s) (fuel : Nat) :
    u.YieldsTypes s (u.exportedTypes fuel) := by
  refine YieldsType.mapM hs _ fun entry hmem s' h' => ?_
  have hd := mem_declarations_iff.1 (List.mem_filter.1 hmem).1
  exact instantiate_yields (resolve_resolves u fuel) h'.sound hd fun t ht => by cases ht

/-- A type is an interface if it refers to the declaration of one. -/
theorem exists_interface {data : TypeData} {scope : Scope} {bases : List TypeExpr}
    {members : List Member} {indexes : List Index}
    (h : u.interface? data = some (scope, bases, members, indexes)) :
    ∃ id d args, data = .form (.reference ⟨.declared id, args⟩) ∧ u.declaration? id = some d ∧
      d.body = .interface bases members indexes ∧ scope = ⟨id.unit, d.typeParams.zip args⟩ := by
  unfold interface? at h
  split at h
  · split at h
    · rename_i hd
      cases h
      exact ⟨_, _, _, rfl, hd, rfl, rfl⟩
    · cases h
  · cases h

/-- The table before anything is asked is made of type parameters, one after the other. -/
theorem start_induction {P : Interner → Prop} (hempty : P .empty)
    (hparam : ∀ s id position d, u.declaration? id = some d → position < d.typeParams.length →
      P s → P (s.intern (.param (.param id position))).2) : P u.start := by
  unfold start
  refine List.foldlRecOn _ _ hempty fun s hs entry hentry => ?_
  refine List.foldlRecOn _ _ hs fun s hs position hposition => ?_
  exact hparam s entry.1 position entry.2 (mem_declarations_iff.1 hentry)
    (List.mem_range.1 hposition) hs

theorem start_sound (u : Universe) : u.Sound u.start := by
  refine start_induction (.empty u) fun s id position d hd hposition hs => ?_
  have hlawful : u.Lawful (.form (.param (.param id position))) :=
    ⟨id, position, d, rfl, hd, hposition⟩
  exact (intern_yields hs (fun p hp => by cases hp) hlawful _ _ rfl).1.sound

end Universe
end TypedJson
