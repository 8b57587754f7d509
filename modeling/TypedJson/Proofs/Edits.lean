import TypedJson.Proofs.Course
/-!
# The table changes step by step

Resolving makes one change to the table of types after the other (`Universe.Edit`), and a call
within a call makes its own in between, while reserved handles stand open.  `Universe.Edited` is
any number of changes in turn.  What an expression, a declaration or a question does to the table
is that (`resolve_edits`, `edited_of_reaches`); so what holds after every change holds at every
moment, between questions and within them.

`Grown` and its like speak of the tables before and after a computation.  In between there
are handles that are reserved, and a call within a call starts from such a table.  To speak
of these moments the computation is cut into its changes, and each moment is the end of a
series of them.
-/
namespace TypedJson

/-- The items of a list refer to handles of the table. -/
def Listing.ItemsIn : (k : Listing) → List k.Item → Interner → Prop
  | .members => Universe.MembersIn
  | .indexes => Universe.IndexesIn

/-- The instance that stands for the record type with these keys and values. -/
abbrev recordInstance (key value : TypeId) : Instance := ⟨.builtin .record, [key, value]⟩

namespace Universe

/-- The instance is one of an alias that is another way to write its body. -/
def IsTransparent (u : Universe) (inst : Instance) : Prop :=
  ∃ body scope, u.IsBody inst body scope ∧ body.isStructure = false

/-- The instance has an argument for every type parameter. -/
def TakesAll (u : Universe) (inst : Instance) : Prop :=
  ∀ id d, inst.symbol = .declared id → u.declaration? id = some d →
    inst.args.length = d.typeParams.length

/-- One change of the table. -/
inductive Edit (u : Universe) (s : Interner) : Interner → Prop
  /-- A form that has no handle gets one. -/
  | intern {f : Form} (new : s.find? f = none) (parts : ∀ p ∈ (TypeData.form f).parts, s.Has p)
      (lawful : u.Lawful (.form f)) : Edit u s (s.push (.form f)).2
  /-- An object without a name gets a handle. -/
  | object {shape : Shape} (parts : ∀ p ∈ shape.parts, s.Has p)
      (lawful : u.Lawful (.object none shape)) : Edit u s (s.push (.object none shape)).2
  /-- A record type that has no handle gets one. -/
  | record {key value : TypeId} (new : s.instance? (recordInstance key value) = none)
      (hk : s.Has key) (hv : s.Has value) :
      Edit u s ((s.push (.object (some (recordInstance key value)) (.record key value))).2.record
        (recordInstance key value) ⟨s.slots.size⟩)
  /-- A handle is reserved for an instance that has none. -/
  | reserve {inst : Instance} (new : s.instance? inst = none) (nominal : u.IsNominal inst)
      (args : ∀ a ∈ inst.args, s.Has a) (all : u.TakesAll inst) :
      Edit u s ((s.push .reserved).2.record inst ⟨s.slots.size⟩)
  /-- A handle that was reserved for an instance gets its meaning. -/
  | define {inst : Instance} {t : TypeId} {d : TypeData} (reserved : (inst, t) ∈ s.instances)
      (nominal : u.IsNominal inst) (opened : s.data t = .reserved) (named : d.named? = some inst)
      (parts : ∀ p ∈ d.parts, s.Has p) (lawful : u.Lawful d) : Edit u s (s.define t d)
  /-- The type of a transparent alias is noted. -/
  | note {inst : Instance} {t : TypeId} (transparent : u.IsTransparent inst)
      (args : ∀ a ∈ inst.args, s.Has a) (ht : s.Has t) : Edit u s (s.record inst t)
  /-- The expansion of a transparent alias begins. -/
  | expand {inst : Instance} (transparent : u.IsTransparent inst)
      (args : ∀ a ∈ inst.args, s.Has a) :
      Edit u s { s with expanding := inst :: s.expanding }
  /-- The innermost expansion ends. -/
  | expanded : Edit u s { s with expanding := s.expanding.drop 1 }
  /-- The list of a type is kept. -/
  | keep {t : TypeId} (k : Listing) {l : List k.Item} (ht : s.Has t) (items : k.ItemsIn l s)
      (bare : (s.data t).isBare = true → l = []) : Edit u s (s.keep k t l)

/-- Any number of changes of the table, one after the other. -/
def Edited (u : Universe) : Interner → Interner → Prop := Relation.ReflTransGen u.Edit

variable {u : Universe} {s s' : Interner} {inst : Instance} {t : TypeId}

theorem IsNominal.not_transparent (h : u.IsNominal inst) : ¬ u.IsTransparent inst := by
  obtain ⟨body, scope, hbody, hstructure⟩ := h
  rintro ⟨body', scope', hbody', htransparent⟩
  rw [(hbody.unique hbody').1, hstructure] at htransparent
  cases htransparent

theorem takesAll_declared {id : DeclarationId} {d : Declaration} (hd : u.declaration? id = some d)
    {args : List TypeId} (hcount : args.length = d.typeParams.length) :
    u.TakesAll ⟨.declared id, args⟩ := by
  rintro _ d' ⟨⟩ hd'
  rw [hd] at hd'
  cases hd'
  exact hcount

theorem Sound.record (hs : u.Sound s) (ht : s.Has t) : u.Sound (s.record inst t) :=
  ((Grown.refl hs).record inst ht).sound

theorem Sound.push_record (hs : u.Sound s) {d : TypeData} (parts : ∀ p ∈ d.parts, s.Has p)
    (lawful : u.Lawful d) : u.Sound ((s.push d).2.record inst ⟨s.slots.size⟩) :=
  (hs.push parts lawful).record (Interner.has_push_new s d)

theorem Sound.keep (hs : u.Sound s) (ht : s.Has t) :
    ∀ (k : Listing) {l : List k.Item}, k.ItemsIn l s → ((s.data t).isBare = true → l = []) →
      u.Sound (s.keep k t l)
  | .members, _, hitems, hbare => hs.setMembers ht hitems hbare
  | .indexes, _, hitems, hbare => hs.setIndexes ht hitems hbare

/-! ## One change

The constructors carry what holds when the program makes the change: that a form is new,
that an instance is not noted, that what fills a handle is what it was reserved for. -/

namespace Edit

/-- **A change keeps the table sound.** -/
theorem sound (hs : u.Sound s) (h : u.Edit s s') : u.Sound s' := by
  cases h with
  | intern _ parts lawful => exact hs.push parts lawful
  | object parts lawful => exact hs.push parts lawful
  | @record key value _ hk hv =>
    have harguments : ∀ p ∈ [key, value], s.Has p :=
      List.forall_mem_cons.2 ⟨hk, List.forall_mem_singleton.2 hv⟩
    exact hs.push_record (d := .object (some (recordInstance key value)) (.record key value))
      (List.forall_mem_append.2 ⟨harguments, harguments⟩) rfl
  | reserve => exact hs.push_record (d := .reserved) (List.forall_mem_nil _) trivial
  | define reserved _ opened _ parts lawful =>
    exact hs.define (hs.instances _ reserved) opened parts lawful
  | note _ _ ht => exact hs.record ht
  | expand | expanded => exact ((Grown.refl hs).expanding _).sound
  | keep k ht items bare => exact hs.keep ht k items bare

theorem has (h : u.Edit s s') (ht : s.Has t) : s'.Has t := by
  cases h with
  | intern | object | record | reserve => exact (Interner.Grows.push s _).has ht
  | define => exact (Interner.has_modifySlot s _ _).2 ht
  | note | expand | expanded => exact ht
  | keep => exact Interner.has_keep.2 ht

/-- **A change leaves alone what a handle stands for**, unless the handle is reserved, and what is
noted for instances. -/
theorem extends_table (hs : u.Sound s) (h : u.Edit s s') : s.Extends s' := by
  cases h with
  | intern | object => exact .of_grows (.push s _) (List.Subset.refl _)
  | record | reserve =>
    exact .of_grows ((Interner.Grows.push s _).trans (.of_slots_eq rfl)) (List.subset_cons_self _ _)
  | define reserved _ opened =>
    refine ⟨fun x hx => ?_, List.Subset.refl _⟩
    rw [Interner.data_define (hs.instances _ reserved), if_neg]
    rintro rfl
    exact hx opened
  | note => exact ⟨fun _ _ => rfl, List.subset_cons_self _ _⟩
  | expand | expanded => exact ⟨fun _ _ => rfl, List.Subset.refl _⟩
  | keep => exact Interner.extends_keep

end Edit

/-! ## Many changes

Statements on moments are proved by induction on the changes. -/

namespace Edited

theorem refl (s : Interner) : u.Edited s s := Relation.ReflTransGen.refl

theorem trans {s₁ s₂ s₃ : Interner} (h : u.Edited s₁ s₂) (h' : u.Edited s₂ s₃) : u.Edited s₁ s₃ :=
  Relation.ReflTransGen.trans h h'

theorem of_edit (h : u.Edit s s') : u.Edited s s' := .single h

theorem induction {P : Interner → Prop} (hstep : ∀ s s', P s → u.Edit s s' → P s') (hs : P s)
    (h : u.Edited s s') : P s' := by
  induction h with
  | refl => exact hs
  | tail _ hedit ih => exact hstep _ _ ih hedit

theorem sound (h : u.Edited s s') (hs : u.Sound s) : u.Sound s' :=
  h.induction (fun _ _ hs hedit => hedit.sound hs) hs

theorem has (h : u.Edited s s') (ht : s.Has t) : s'.Has t :=
  h.induction (fun _ _ ht hedit => hedit.has ht) ht

theorem extends_table (h : u.Edited s s') (hs : u.Sound s) : s.Extends s' :=
  (h.induction (P := fun s' => u.Sound s' ∧ s.Extends s')
    (fun _ _ ⟨hs', hext⟩ hedit => ⟨hedit.sound hs', hext.trans (hedit.extends_table hs')⟩)
    ⟨hs, fun _ _ => rfl, List.Subset.refl _⟩).2

end Edited

/-! ## Computations

`Edits` is the triple whose relation is a series of changes; it composes since series do. -/

/-- The computation changes the table step by step and answers as stated. -/
def Edits (u : Universe) (s : Interner) (m : Session α) (Q : α → Interner → Prop) : Prop :=
  After s m fun a s' => u.Edited s s' ∧ Q a s'

namespace Edits

variable {α β : Type} {Q : α → Interner → Prop}

theorem pure {a : α} (h : Q a s) : u.Edits s (Pure.pure a) Q := After.pure ⟨.refl s, h⟩

theorem bind {m : Session α} {f : α → Session β} {Q : β → Interner → Prop}
    {P : α → Interner → Prop} (hm : u.Edits s m P)
    (hf : ∀ a s', u.Edited s s' → P a s' → u.Edits s' (f a) Q) : u.Edits s (m >>= f) Q :=
  After.bind hm fun a s' ⟨h', ha⟩ => (hf a s' h' ha).mono fun _ _ ⟨h'', hb⟩ => ⟨h'.trans h'', hb⟩

theorem query_bind (f : Interner → α) {g : α → Session β} {Q : β → Interner → Prop}
    (h : u.Edits s (g (f s)) Q) : u.Edits s (Session.query f >>= g) Q := by
  intro b s' hrun
  rw [Session.query_bind] at hrun
  exact h b s' hrun

theorem mapM {P : α → β → Interner → Prop}
    (up : ∀ {a b s s'}, u.Sound s → u.Edited s s' → P a b s → P a b s') (hs : u.Sound s)
    {f : α → Session β} (as : List α)
    (hf : ∀ a ∈ as, ∀ s', u.Edited s s' → u.Edits s' (f a) (P a)) :
    u.Edits s (as.mapM f) fun bs s' => List.Forall₂ (fun a b => P a b s') as bs := by
  have hall := After.mapM (R := fun s s' => u.Sound s ∧ u.Edited s s') (P := P)
    (fun h h' => ⟨h.1, h.2.trans h'.2⟩) (fun h => up h.1 h.2) as (f := f) ⟨hs, .refl s⟩
    (fun s' h => ⟨h.2.sound hs, .refl s'⟩)
    fun a ha s' h => (hf a ha s' h.2).mono fun b s'' h' => ⟨⟨h.2.sound hs, h'.1⟩, h'.2⟩
  exact hall.mono fun bs s' ⟨h, hbs⟩ => ⟨h.2, hbs⟩

theorem mapM_has (hs : u.Sound s) {f : α → Session TypeId} (as : List α)
    (hf : ∀ a ∈ as, ∀ s', u.Edited s s' → u.Edits s' (f a) fun t s'' => s''.Has t) :
    u.Edits s (as.mapM f) fun ts s' => ∀ t ∈ ts, s'.Has t :=
  After.mono (mapM (P := fun _ t s => s.Has t) (fun _ h => h.has) hs as hf) fun _ _ ⟨h, hts⟩ =>
    ⟨h, fun _ ht => (forall₂_mem_right hts ht).elim fun _ h => h.2⟩

theorem intern {f : Form} (hs : u.Sound s) (parts : ∀ p ∈ (TypeData.form f).parts, s.Has p)
    (lawful : u.Lawful (.form f)) :
    u.Edits s (Session.intern f) fun t s' => s'.Has t ∧ s'.data t = .form f := by
  intro t s' hrun
  have hhas := (intern_yields hs parts lawful t s' hrun).2
  have hdata := intern_answers s f t s' hrun
  refine ⟨?_, hhas, hdata⟩
  rcases intern_cases hrun with ⟨-, rfl⟩ | ⟨hnone, -, rfl⟩
  · exact .refl _
  · exact .of_edit (.intern hnone parts lawful)

/-- A handle is reserved for the instance, its parts are resolved, and they give the handle its
meaning. -/
theorem reserveInstance {inst : Instance} (hs : u.Sound s) (hnominal : u.IsNominal inst)
    (hargs : ∀ a ∈ inst.args, s.Has a) (hall : u.TakesAll inst)
    (hnew : s.instance? inst = none) (parts : Session α)
    (data : α → TypeData) {P : α → Interner → Prop}
    (hnamed : ∀ a, (data a).named? = some inst)
    (hgrown : ∀ s', u.Grown s s' → u.Yields s' parts P)
    (hparts : ∀ s', u.Grown s s' → u.Edits s' parts P)
    (hdata : ∀ a s', u.Grown s s' → P a s' → (∀ p ∈ (data a).parts, s'.Has p) ∧ u.Lawful (data a)) :
    u.Edits s (do
      let t ← reserveInstance inst
      let a ← parts
      Session.update (·.define t (data a))
      Pure.pure t) fun t s' => s'.Has t ∧ (inst, t) ∈ s'.instances := by
  intro t s₃ hrun
  obtain ⟨a, s₂, hrun₂, rfl, rfl⟩ := reserveInstance_cases hrun
  have hnew₁ : (s.push .reserved).2.Has (s.push .reserved).1 := Interner.has_push_new s _
  have h₁ : u.Grown s ((s.push .reserved).2.record inst (s.push .reserved).1) :=
    Grown.record ⟨hs.push (d := .reserved) (fun p hp => by cases hp) trivial, .push s _⟩ inst hnew₁
  obtain ⟨h₂, ha⟩ := hparts _ h₁ a s₂ hrun₂
  have hg₂ := (hgrown _ h₁ a s₂ hrun₂).1
  -- what is resolved in between leaves the reserved handle open
  have hopen : s₂.data (s.push .reserved).1 = .reserved :=
    (hg₂.grows.data _ hnew₁).trans (Interner.data_push_new s _)
  have hmem : (inst, (s.push .reserved).1) ∈ s₂.instances :=
    (h₂.extends_table h₁.sound).instances List.mem_cons_self
  obtain ⟨hp, hlawful⟩ := hdata a s₂ (h₁.trans hg₂) ha
  refine ⟨?_, (Interner.has_modifySlot s₂ _ _).2 (hg₂.has hnew₁), hmem⟩
  exact ((Edited.of_edit (.reserve hnew hnominal hargs hall)).trans h₂).trans
    (.of_edit (.define hmem hnominal hopen (hnamed a) hp hlawful))

end Edits

/-! ## Resolution

Each function of the resolver is a series of changes.  For an alias with a handle of its own
the answer is the handle that is noted, and that is part of the statement, as the changes
alone do not say it. -/

section Resolution

variable {self : Resolver}

/-- The resolver changes the table step by step and answers with a handle of it. -/
def EditsTypes (u : Universe) (self : Resolver) : Prop :=
  ∀ s scope e, u.Sound s → Scope.In scope s → u.Edits s (self scope e) fun t s' => s'.Has t

theorem EditsTypes.mapM (hself : u.EditsTypes self) (hs : u.Sound s) {scope : Scope}
    (hscope : Scope.In scope s) (es : List TypeExpr) :
    u.Edits s (es.mapM (self scope)) fun ts s' => ∀ t ∈ ts, s'.Has t :=
  .mapM_has hs es fun e _ s' h' =>
    hself s' scope e (h'.sound hs) fun p hp => h'.has (hscope p hp)

theorem intern_edits {f : Form} (hs : u.Sound s) (parts : ∀ p ∈ (TypeData.form f).parts, s.Has p)
    (lawful : u.Lawful (.form f)) : u.Edits s (Session.intern f) fun t s' => s'.Has t :=
  (Edits.intern hs parts lawful).mono fun _ _ ⟨h, ht, _⟩ => ⟨h, ht⟩

theorem leaf_edits {f : Form} (hs : u.Sound s) (hf : (TypeData.form f).parts = [])
    (lawful : u.Lawful (.form f)) : u.Edits s (Session.intern f) fun t s' => s'.Has t :=
  intern_edits hs (fun p hp => by rw [hf] at hp; cases hp) lawful

theorem object_edits {shape : Shape} (parts : ∀ p ∈ shape.parts, s.Has p)
    (lawful : u.Lawful (.object none shape)) :
    u.Edits s (newObject none shape) fun t s' => s'.Has t := by
  intro t s' hrun
  rw [newObject_eq] at hrun
  cases hrun
  exact ⟨.of_edit (.object parts lawful), Interner.has_push_new s _⟩

theorem argumentOr_edits (hs : u.Sound s) (i : Intrinsic) (given : Option TypeId)
    (hgiven : ∀ t, given = some t → s.Has t) :
    u.Edits s (argumentOr i given) fun t s' => s'.Has t ∧ s'.IsArgument i given t := by
  cases given with
  | some t => exact .pure ⟨hgiven t rfl, .inl rfl⟩
  | none =>
    exact (Edits.intern (f := .intrinsic i) hs (List.forall_mem_nil _) trivial).mono
      fun t s' ⟨h, ht, hdata⟩ => ⟨h, ht, .inr ⟨rfl, hdata⟩⟩

theorem recordType_edits (hs : u.Sound s) {key value : TypeId} (hk : s.Has key)
    (hv : s.Has value) : u.Edits s (recordType key value) fun t s' =>
      s'.Has t ∧ (recordInstance key value, t) ∈ s'.instances := by
  intro t s' hrun
  rcases recordType_cases hrun with ⟨hfind, rfl⟩ | ⟨hnone, rfl, rfl⟩
  · have hmem := Interner.mem_of_instance? hfind
    exact ⟨.refl s', hs.instances _ hmem, hmem⟩
  · exact ⟨.of_edit (.record hnone hk hv), Interner.has_push_new s _, List.mem_cons_self⟩

theorem argument_edits (hs : u.Sound s) {args : List TypeId} (hargs : ∀ t ∈ args, s.Has t)
    (i : Intrinsic) (n : Nat) :
    u.Edits s (argumentOr i args[n]?) fun t s' => s'.Has t ∧ s'.IsArgument i args[n]? t :=
  argumentOr_edits hs i _ fun t ht => hargs t (List.mem_of_getElem? ht)

theorem builtinType_record_edits (hs : u.Sound s) {args : List TypeId}
    (hargs : ∀ t ∈ args, s.Has t) : u.Edits s (builtinType .record args) fun t s' => s'.Has t ∧
      ∃ key value, s'.IsArgument .string args[0]? key ∧ s'.IsArgument .unknown args[1]? value ∧
        (recordInstance key value, t) ∈ s'.instances := by
  refine .bind (argument_edits hs hargs .string 0) fun key s₁ h₁ ⟨hk, hkey⟩ => ?_
  have hs₁ := h₁.sound hs
  refine .bind (argument_edits hs₁ (fun t ht => h₁.has (hargs t ht)) .unknown 1)
    fun value s₂ h₂ ⟨hv, hvalue⟩ => ?_
  have hs₂ := h₂.sound hs₁
  refine (recordType_edits hs₂ (h₂.has hk) hv).mono fun t s₃ ⟨h₃, ht, hmem⟩ =>
    ⟨h₃, ht, key, value, hkey.extends ?_, hvalue.extends (h₃.extends_table hs₂), hmem⟩
  exact (h₂.extends_table hs₁).trans (h₃.extends_table hs₂)

theorem builtinType_edits (hs : u.Sound s) (b : Builtin) {args : List TypeId}
    (hargs : ∀ t ∈ args, s.Has t) : u.Edits s (builtinType b args) fun t s' => s'.Has t := by
  cases b with
  | array =>
    refine .bind (argument_edits hs hargs .unknown 0) fun t s₁ h₁ ⟨ht, _⟩ => ?_
    exact intern_edits (h₁.sound hs) (List.forall_mem_singleton.2 ht) trivial
  | date => exact leaf_edits hs rfl (.inl ⟨.date, .inl rfl, rfl⟩)
  | pattern => exact leaf_edits hs rfl (.inl ⟨.pattern, .inr rfl, rfl⟩)
  | record => exact (builtinType_record_edits hs hargs).mono fun _ _ ⟨h, ht, _⟩ => ⟨h, ht⟩

theorem expandTransparent_edits (hself : u.EditsTypes self) (hs : u.Sound s) {scope : Scope}
    (hscope : Scope.In scope s) {name : String} (hname : u.Lawful (.form (.unresolved name)))
    {inst : Instance} (htransparent : u.IsTransparent inst) (hargs : ∀ a ∈ inst.args, s.Has a)
    (e : TypeExpr) : u.Edits s (expandTransparent self name inst scope e) fun t s' => s'.Has t := by
  intro t s₃ hrun
  rcases expandTransparent_cases hrun with ⟨-, hrun⟩ | ⟨-, s₂, hrun₂, rfl⟩
  · exact leaf_edits hs rfl hname t s₃ hrun
  · have h₁ : u.Edited s { s with expanding := inst :: s.expanding } :=
      .of_edit (.expand htransparent hargs)
    obtain ⟨h₂, ht⟩ := hself _ scope e (h₁.sound hs) (fun p hp => h₁.has (hscope p hp)) t s₂ hrun₂
    have h₃ : u.Edited s₂ { s₂ with expanding := s₂.expanding.drop 1 } := .of_edit .expanded
    have hto : u.Edited s { s₂ with expanding := s₂.expanding.drop 1 } := (h₁.trans h₂).trans h₃
    exact ⟨hto.trans (.of_edit (.note htransparent (fun a ha => hto.has (hargs a ha)) ht)), ht⟩

/-- An alias with a handle of its own answers with the handle that is noted for it. -/
theorem expandAlias_edits (hself : u.EditsTypes self) (hyields : u.Resolves self) (hs : u.Sound s)
    {id : DeclarationId} {d : Declaration} {body : TypeExpr} (hd : u.declaration? id = some d)
    (hbody : d.body = .typeAlias body) {args : List TypeId} (hargs : ∀ t ∈ args, s.Has t)
    (hcount : args.length = d.typeParams.length) :
    u.Edits s (expandAlias self d.name d.typeParams id.unit body ⟨.declared id, args⟩) fun t s' =>
      s'.Has t ∧ (body.isStructure = true → (⟨.declared id, args⟩, t) ∈ s'.instances) := by
  have halias : u.IsAlias (.declared id) := ⟨id, d, body, rfl, hd, hbody⟩
  have hinst : u.IsBody ⟨.declared id, args⟩ body (d.scope id args) := ⟨id, d, rfl, hd, hbody, rfl⟩
  have hall : u.TakesAll ⟨.declared id, args⟩ := takesAll_declared hd hcount
  have hscope : ∀ {s'}, u.Grown s s' → Scope.In (d.scope id args) s' := fun h =>
    scope_zip_in fun t ht => h.has (hargs t ht)
  have htransparent : body.isStructure = false → u.Edits s
      (expandTransparent self d.name ⟨.declared id, args⟩ (d.scope id args) body) fun t s' =>
        s'.Has t ∧ (body.isStructure = true → (⟨.declared id, args⟩, t) ∈ s'.instances) :=
    fun hopen => (expandTransparent_edits hself hs (hscope (.refl hs)) (.inr ⟨id, d, hd, rfl⟩)
      ⟨body, _, hinst, hopen⟩ hargs body).mono
      fun t s' ⟨h', ht⟩ => ⟨h', ht, fun hstructure => by rw [hopen] at hstructure; cases hstructure⟩
  unfold expandAlias
  refine .query_bind _ ?_
  split
  · rename_i t hfind
    have hmem := Interner.mem_of_instance? hfind
    exact .pure ⟨hs.instances _ hmem, fun _ => hmem⟩
  · rename_i hnone
    -- the handle is reserved before the parts of the alias are resolved
    have hreserve : ∀ (es : List TypeExpr) (data : List TypeId → TypeData),
        body.isStructure = true → (∀ ts, (data ts).named? = some ⟨.declared id, args⟩) →
        (∀ ts, (data ts).parts = args ++ ts) → (∀ ts, u.Lawful (data ts)) → u.Edits s (do
          let t ← reserveInstance ⟨.declared id, args⟩
          let ts ← es.mapM (self (d.scope id args))
          Session.update (·.define t (data ts))
          pure t) fun t s' => s'.Has t ∧
            (body.isStructure = true → (⟨.declared id, args⟩, t) ∈ s'.instances) := by
      intro es data hstructure hnamed hparts hlawful
      refine (Edits.reserveInstance (P := fun ts s' => ∀ t ∈ ts, s'.Has t) hs
        ⟨body, _, hinst, hstructure⟩ hargs hall hnone _ data hnamed
        (fun s' h' => hyields.mapM h'.sound (hscope h') es)
        (fun s' h' => hself.mapM h'.sound (hscope h') es) fun ts s' h' hts => ⟨?_, hlawful ts⟩).mono
          fun t s' ⟨h', ht, hmem⟩ => ⟨h', ht, fun _ => hmem⟩
      rw [hparts]
      exact List.forall_mem_append.2 ⟨fun a ha => h'.has (hargs a ha), hts⟩
    cases body with
    | union branches =>
      exact hreserve branches (fun ts => .namedUnion ⟨.declared id, args⟩ ts) rfl (fun _ => rfl)
        (fun _ => rfl) fun _ => halias
    | object members indexes =>
      refine (Edits.reserveInstance (P := fun _ _ => True) hs ⟨_, _, hinst, rfl⟩ hargs hall hnone
        (pure ()) (fun _ => .object (some ⟨.declared id, args⟩) (.literal members indexes _))
        (fun _ => rfl) (fun s' h' => .pure h'.sound trivial) (fun _ _ => .pure trivial)
        fun _ s' h' _ => ⟨?_, halias⟩).mono fun t s' ⟨h', ht, hmem⟩ => ⟨h', ht, fun _ => hmem⟩
      refine List.forall_mem_append.2 ⟨fun a ha => h'.has (hargs a ha), fun p hp => ?_⟩
      obtain ⟨q, hq, rfl⟩ := List.mem_map.1 hp
      exact hscope h' q hq
    | intersection parts =>
      exact hreserve parts (fun ts => .object (some ⟨.declared id, args⟩) (.intersection ts)) rfl
        (fun _ => rfl) (fun _ => rfl) fun _ => halias
    | name n => exact htransparent rfl
    | generic n es => exact htransparent rfl
    | array e => exact htransparent rfl
    | literal value => exact htransparent rfl

/-- The arguments that are given and the parameters that stand for missing ones are handles of the
table, one for every parameter. -/
theorem arguments_edits (hs : u.Sound s) {id : DeclarationId} {d : Declaration}
    (hd : u.declaration? id = some d) {given : List TypeId} (hgiven : ∀ t ∈ given, s.Has t) :
    u.Edits s (((List.range d.typeParams.length).drop (given.take d.typeParams.length).length).mapM
      fun position => Session.intern (.param (.param id position))) fun missing s' =>
        s'.Completes id d.typeParams.length given (given.take d.typeParams.length ++ missing) ∧
        ∀ t ∈ given.take d.typeParams.length ++ missing, s'.Has t := by
  have hmissing := Edits.mapM (u := u) (P := fun position t s' => s'.Has t ∧
      s'.data t = .form (.param (.param id position)))
    (fun hs h ht => ⟨h.has ht.1, (h.extends_table hs).form ht.2⟩) hs
    ((List.range d.typeParams.length).drop (given.take d.typeParams.length).length)
    fun position hmem s' h' => by
      have hlt := List.mem_range.1 (List.mem_of_mem_drop hmem)
      exact .intern (h'.sound hs) (List.forall_mem_nil _) ⟨id, position, d, rfl, hd, hlt⟩
  refine hmissing.mono fun missing s' ⟨h', hall⟩ =>
    ⟨h', ⟨missing, rfl, hall.imp fun _ _ h => h.2⟩, ?_⟩
  exact List.forall_mem_append.2 ⟨fun t ht => h'.has (hgiven t (List.mem_of_mem_take ht)),
    fun t ht => (forall₂_mem_right hall ht).elim fun _ h => h.2.1⟩

/-- A declaration applied to arguments answers with a handle of the table; an alias with a handle
of its own, with the one that is noted for the instance. -/
theorem instantiate_edits (hself : u.EditsTypes self) (hyields : u.Resolves self) (hs : u.Sound s)
    {id : DeclarationId} {d : Declaration} (hd : u.declaration? id = some d) {given : List TypeId}
    (hgiven : ∀ t ∈ given, s.Has t) : u.Edits s (u.instantiate self id given) fun t s' =>
      s'.Has t ∧ ∀ body, d.body = .typeAlias body → body.isStructure = true →
        ∃ args, s'.Completes id d.typeParams.length given args ∧
          (⟨.declared id, args⟩, t) ∈ s'.instances := by
  unfold instantiate
  rw [hd]
  refine .bind (arguments_edits hs hd hgiven) fun missing s₁ h₁ ⟨hcompletes, hargs⟩ => ?_
  have hs₁ := h₁.sound hs
  have hreference (hkind : DeclarationBody.kind d.body ≠ .typeAlias) : u.Edits s₁
      (Session.intern (.reference ⟨.declared id, given.take d.typeParams.length ++ missing⟩))
      fun t s' => s'.Has t ∧ ∀ body, d.body = .typeAlias body → body.isStructure = true →
        ∃ args, s'.Completes id d.typeParams.length given args ∧
          (⟨.declared id, args⟩, t) ∈ s'.instances := by
    refine After.mono (intern_edits hs₁ hargs (.inr ⟨id, d, rfl, hd, hkind⟩)) fun t s' ⟨h', ht⟩ =>
      ⟨h', ht, fun body hbody => absurd ?_ hkind⟩
    rw [hbody]
    rfl
  cases hbody : d.body with
  | interface bases members indexes =>
    rw [hbody] at hreference
    exact hreference fun h => by cases h
  | enum members =>
    rw [hbody] at hreference
    exact hreference fun h => by cases h
  | typeAlias body =>
    refine (expandAlias_edits hself hyields hs₁ hd hbody hargs hcompletes.length_eq).mono
      fun t s' ⟨h', ht, hnoted⟩ => ⟨h', ht, ?_⟩
    rintro _ ⟨⟩ hstructure
    exact ⟨_, hcompletes.extends (h'.extends_table hs₁), hnoted hstructure⟩

theorem resolveName_edits (hself : u.EditsTypes self) (hyields : u.Resolves self) (hs : u.Sound s)
    {scope : Scope} (hscope : Scope.In scope s) (name : String) (args : List TypeExpr) :
    u.Edits s (u.resolveName self scope name args) fun t s' => s'.Has t := by
  unfold resolveName
  split
  · rename_i p t hfind
    refine .pure ?_
    split at hfind
    · exact hscope _ (List.mem_of_find?_eq_some hfind)
    · cases hfind
  · split
    · exact leaf_edits hs rfl trivial
    · rename_i hintrinsic
      by_cases htrue : name = "true"
      · rw [if_pos htrue]
        exact leaf_edits hs rfl trivial
      rw [if_neg htrue]
      by_cases hfalse : name = "false"
      · rw [if_pos hfalse]
        exact leaf_edits hs rfl trivial
      rw [if_neg hfalse]
      refine .bind (hself.mapM hs hscope args) fun ts s₁ h₁ hts => ?_
      cases hfind : u.find? name scope.unit with
      | some id =>
        obtain ⟨d, hmem, -⟩ := mem_declarations_of_find? hfind
        exact (instantiate_edits hself hyields (h₁.sound hs) (mem_declarations_iff.1 hmem) hts).mono
          fun _ _ ⟨h, ht, _⟩ => ⟨h, ht⟩
      | none =>
        cases hbuiltin : Builtin.ofName? name with
        | some b => exact builtinType_edits (h₁.sound hs) b hts
        | none => exact leaf_edits (h₁.sound hs) rfl (.inl ⟨hintrinsic, hbuiltin⟩)

theorem resolveStep_edits (hself : u.EditsTypes self) (hyields : u.Resolves self) :
    u.EditsTypes (u.resolveStep self) := by
  intro s scope e hs hscope
  cases e with
  | name n => exact resolveName_edits hself hyields hs hscope n []
  | generic n args => exact resolveName_edits hself hyields hs hscope n args
  | array e =>
    exact .bind (hself s scope e hs hscope) fun t s₁ h₁ ht =>
      intern_edits (h₁.sound hs) (List.forall_mem_singleton.2 ht) trivial
  | union branches =>
    exact .bind (hself.mapM hs hscope branches) fun ts s₁ h₁ hts =>
      intern_edits (h₁.sound hs) hts trivial
  | intersection parts =>
    exact .bind (hself.mapM hs hscope parts) fun ts s₁ _ hts => object_edits hts trivial
  | literal value => exact leaf_edits hs rfl trivial
  | object members indexes =>
    refine object_edits (fun p hp => ?_) trivial
    obtain ⟨q, hq, rfl⟩ := List.mem_map.1 hp
    exact hscope q hq

/-- **Resolving an expression changes the table step by step.** -/
theorem resolve_edits (u : Universe) : ∀ fuel, u.EditsTypes (u.resolve fuel)
  | 0 => fun _ _ _ _ _ _ _ h => by cases h
  | fuel + 1 => resolveStep_edits (resolve_edits u fuel) (resolve_resolves u fuel)

end Resolution

/-! ## Questions -/

theorem Sound.kept (hs : u.Sound s) : ∀ (k : Listing) {l : List k.Item}, s.kept? k t = some l →
    k.ItemsIn l s ∧ ((s.data t).isBare = true → l = [])
  | .members, l, h => ⟨hs.members t l h, fun hbare => (hs.bare t hbare).1 l h⟩
  | .indexes, l, h => ⟨hs.indexes t l h, fun hbare => (hs.bare t hbare).2 l h⟩

theorem Listing.itemsIn_of_has {k : Listing} {l : List k.Item} (h : k.ItemsIn l s)
    (hhas : ∀ x, s.Has x → s'.Has x) : k.ItemsIn l s' := by
  cases k with
  | members => exact fun m hm x hx => hhas x (h m hm x hx)
  | indexes => exact fun x hx => (h x hx).imp (hhas _) (hhas _)

theorem edited_course (u : Universe) : u.Course u.Edited where
  refl := .refl
  trans := .trans
  resolve fuel s scope hs hscope e :=
    (resolve_edits u fuel s scope e hs hscope).mono fun _ _ h => h.1
  instantiate fuel s id d hd hs :=
    (instantiate_edits (resolve_edits u fuel) (resolve_resolves u fuel) hs hd
      (List.forall_mem_nil _)).mono fun _ _ h => h.1
  keep {s t} k l ht hs := by
    obtain ⟨hitems, hbare⟩ := hs.kept k (Interner.kept?_keep ht)
    rw [Interner.data_keep] at hbare
    exact .of_edit (.keep k ht (Listing.itemsIn_of_has hitems fun _ => Interner.has_keep.1) hbare)

/-- **Questions change the table step by step.** -/
theorem edited_of_reaches (hs : u.Reaches u.start s) (h : u.Reaches s s') : u.Edited s s' :=
  (edited_course u).of_reaches hs h

end Universe
end TypedJson
