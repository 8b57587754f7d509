import TypedJson.Proofs.Denotation
/-!
# The resolver answers with what expressions denote

Resolving an expression only adds to the table of types, keeps it meaningful, and answers with
the type that the expression denotes there (`resolve_interprets`).

The proof follows the resolver function by function.  A name is resolved by the rule of
`Denotes` for what it means; an expression by the rule for its form, from what its parts
denote in the table that is left at the end.  That the parts are resolved before the whole
costs nothing, as what is denoted stays so in larger tables.
-/
namespace TypedJson
namespace Universe

variable {u : Universe} {s s' : Interner}

/-- The second table is meaningful and has what the first has; nothing new is left open, and no
list of members or index signatures is kept for longer. -/
structure Enlarged (u : Universe) (s s' : Interner) : Prop where
  meaningful : u.Meaningful s'
  size : s.slots.size ≤ s'.slots.size
  data : ∀ t, s.Has t → s'.data t = s.data t
  instances : s.instances ⊆ s'.instances
  opened : ∀ t, s'.Has t → s'.data t = .reserved → s.Has t
  members : ∀ t, s'.members? t = s.members? t
  indexes : ∀ t, s'.indexes? t = s.indexes? t

namespace Enlarged

variable {s'' : Interner}

theorem refl (h : u.Meaningful s) : u.Enlarged s s :=
  ⟨h, Nat.le_refl _, fun _ _ => rfl, List.Subset.refl _, fun _ ht _ => ht, fun _ => rfl, fun _ => rfl⟩

theorem has (h : u.Enlarged s s') {t : TypeId} (ht : s.Has t) : s'.Has t :=
  Nat.lt_of_lt_of_le ht h.size

theorem trans (h : u.Enlarged s s') (h' : u.Enlarged s' s'') : u.Enlarged s s'' where
  meaningful := h'.meaningful
  size := Nat.le_trans h.size h'.size
  data := fun t ht => (h'.data t (h.has ht)).trans (h.data t ht)
  instances := List.Subset.trans h.instances h'.instances
  opened := fun t ht hopen =>
    have ht' := h'.opened t ht hopen
    h.opened t ht' ((h'.data t ht').symm.trans hopen)
  members := fun t => (h'.members t).trans (h.members t)
  indexes := fun t => (h'.indexes t).trans (h.indexes t)

theorem push (h : u.Meaningful s) {d : TypeData} (hd : u.Meant s d) (hne : d ≠ .reserved)
    (hnew : ∀ inst, d.named? = some inst → ¬ u.IsNominal inst) : u.Enlarged s (s.push d).2 where
  meaningful := h.push hd hnew
  size := (Interner.Grows.push s d).size
  data := (Interner.Grows.push s d).data
  instances := List.Subset.refl _
  opened := by
    intro t ht hopen
    rw [Interner.data_push] at hopen
    split at hopen
    · exact absurd hopen hne
    · rename_i hold
      have ht : t.index < (s.push d).2.slots.size := ht
      rw [Interner.size_push] at ht
      exact Nat.lt_of_le_of_ne (Nat.le_of_lt_succ ht) hold
  members := Interner.members?_push s d
  indexes := Interner.indexes?_push s d

theorem of_slots_eq (h : u.Enlarged s s') (hslots : s''.slots = s'.slots)
    (hinst : s'.instances ⊆ s''.instances) (hm : u.Meaningful s'') : u.Enlarged s s'' := by
  obtain ⟨slots, instances, expanding⟩ := s''
  obtain rfl : slots = s'.slots := hslots
  exact ⟨hm, h.size, h.data, List.Subset.trans h.instances hinst, h.opened, h.members, h.indexes⟩

theorem define {inst : Instance} (hnamed : u.IsNominal inst)
    (h : u.Enlarged ((s.push .reserved).2.record inst (s.push .reserved).1) s') {d : TypeData}
    (hd : u.Meant s' d) (hname : d.named? = some inst) :
    u.Enlarged s (s'.define (s.push .reserved).1 d) := by
  have hpush := Interner.Grows.push s .reserved
  have hmem := h.instances (List.mem_cons_self (a := (inst, (s.push .reserved).1)))
  have hnew : (s.push .reserved).2.Has (s.push .reserved).1 := Interner.has_push_new s .reserved
  have hopen : s'.data (s.push .reserved).1 = .reserved :=
    (h.data _ hnew).trans (Interner.data_push_new s .reserved)
  refine ⟨(h.meaningful.define hopen hmem hnamed hd hname).2, ?_, fun x hx => ?_,
    List.Subset.trans (List.subset_cons_self _ _) h.instances, fun x hx hxopen => ?_,
    fun x => ?_, fun x => ?_⟩
  · rw [Interner.define, Interner.size_modifySlot]
    exact Nat.le_trans hpush.size h.size
  · have hne : (s.push .reserved).1 ≠ x := by
      rintro rfl
      exact Nat.lt_irrefl _ hx
    rw [Interner.data_define (h.has hnew), if_neg hne]
    exact (h.data x (hpush.has hx)).trans (hpush.data x hx)
  · -- the new handle is filled in, and what else is open was open before
    rw [Interner.data_define (h.has hnew)] at hxopen
    split at hxopen
    · rw [hxopen] at hname
      cases hname
    · rename_i hne
      have hx : x.index < (s.push .reserved).2.slots.size :=
        h.opened x ((Interner.has_modifySlot s' _ _).1 hx) hxopen
      rw [Interner.size_push] at hx
      exact Nat.lt_of_le_of_ne (Nat.le_of_lt_succ hx) fun heq => hne (TypeId.index_injective heq.symm)
  · rw [Interner.members?_define, h.members]
    exact Interner.members?_push s .reserved x
  · rw [Interner.indexes?_define, h.indexes]
    exact Interner.indexes?_push s .reserved x

end Enlarged

theorem Enlarged.extends (h : u.Enlarged s s') : s.Extends s' where
  data := fun t ht => h.data t (Interner.has_of_data_ne ht)
  instances := h.instances

/-- The computation only adds to the table and answers as stated. -/
def Means (u : Universe) (s : Interner) (m : Session α) (Q : α → Interner → Prop) : Prop :=
  After s m fun a s' => u.Enlarged s s' ∧ Q a s'

namespace Means

variable {α β : Type}

theorem pure (hs : u.Meaningful s) {a : α} {Q : α → Interner → Prop} (h : Q a s) :
    u.Means s (Pure.pure a) Q := After.pure ⟨.refl hs, h⟩

theorem bind {m : Session α} {f : α → Session β} {P : α → Interner → Prop}
    {Q : β → Interner → Prop} (hm : u.Means s m P)
    (hf : ∀ a s', u.Enlarged s s' → P a s' → u.Means s' (f a) Q) : u.Means s (m >>= f) Q :=
  After.bind hm fun a s' ⟨h', ha⟩ => (hf a s' h' ha).mono fun _ _ ⟨h'', hb⟩ => ⟨h'.trans h'', hb⟩

theorem mapM (hs : u.Meaningful s) {P : α → β → Interner → Prop}
    (up : ∀ {a b s s'}, u.Enlarged s s' → P a b s → P a b s') {f : α → Session β} (as : List α)
    (hf : ∀ a ∈ as, ∀ s', u.Enlarged s s' → u.Means s' (f a) (P a)) :
    u.Means s (as.mapM f) fun bs s' => List.Forall₂ (fun a b => P a b s') as bs :=
  After.mapM (R := u.Enlarged) (P := P) Enlarged.trans up as (.refl hs)
    (fun _ h => .refl h.meaningful) hf

theorem query_bind (f : Interner → α) {g : α → Session β} {Q : β → Interner → Prop}
    (h : u.Means s (g (f s)) Q) : u.Means s (Session.query f >>= g) Q := by
  intro b s' hrun
  rw [Session.query_bind] at hrun
  exact h b s' hrun

theorem intern (hs : u.Meaningful s) (f : Form) :
    u.Means s (Session.intern f) fun t s' => s'.data t = .form f := by
  refine After.and ?_ fun t s' _ hrun => intern_answers s f t s' hrun
  intro t s' hrun
  rcases intern_cases hrun with ⟨-, rfl⟩ | ⟨-, -, rfl⟩
  · exact .refl hs
  · exact .push hs trivial (fun h => by cases h) fun _ h => by cases h

theorem newObject (hs : u.Meaningful s) (origin : Option Instance) {shape : Shape}
    (h : u.Meant s (.object origin shape)) (hnew : ∀ inst, origin = some inst → ¬ u.IsNominal inst) :
    u.Means s (newObject origin shape) fun t s' => s'.data t = .object origin shape := by
  intro t s' hrun
  rw [newObject_eq] at hrun
  cases hrun
  refine ⟨Enlarged.push hs h (fun h => by cases h) fun inst hinst => hnew inst ?_,
    Interner.data_push_new s _⟩
  cases origin with
  | none => cases hinst
  | some => exact hinst

theorem reserveInstance (hs : u.Meaningful s) {inst : Instance} (hnamed : u.IsNominal inst)
    (hnone : ∀ t, (inst, t) ∉ s.instances) (parts : Session α) {P : α → Interner → Prop} (data : α → TypeData)
    (hparts : ∀ s', u.Meaningful s' → u.Means s' parts P)
    (hdata : ∀ a s', P a s' → u.Meant s' (data a)) (hname : ∀ a, (data a).named? = some inst) :
    u.Means s (do
      let t ← reserveInstance inst
      let a ← parts
      Session.update (·.define t (data a))
      Pure.pure t) fun t s' => (inst, t) ∈ s'.instances := by
  intro t s₃ hrun
  obtain ⟨a, s₂, hrun₂, rfl, rfl⟩ := reserveInstance_cases hrun
  have h₁ := hs.reserve hnamed hnone
  obtain ⟨h₂, ha⟩ := hparts _ h₁ a s₂ hrun₂
  have hmem := h₂.instances (List.mem_cons_self (a := (inst, (s.push .reserved).1)))
  exact ⟨.define hnamed h₂ (hdata a s₂ ha) (hname a), hmem⟩

end Means

/-! ## Resolution

The one place where it is not the resolver that has to be followed but the table is an alias
with a handle of its own: what is noted for it was right when it was noted, and is so still. -/

section Resolution

variable {self : Resolver}

/-- The resolver answers with what the expression denotes. -/
def Interprets (u : Universe) (self : Resolver) : Prop :=
  ∀ s scope e, u.Meaningful s → u.Means s (self scope e) fun t s' => u.Denotes s' (.expr scope e) t

theorem Interprets.mapM (hself : u.Interprets self) (hs : u.Meaningful s) (scope : Scope)
    (es : List TypeExpr) :
    u.Means s (es.mapM (self scope)) fun ts s' => u.DenoteAll s' scope es ts :=
  Means.mapM (P := fun e t s => u.Denotes s (.expr scope e) t) hs
    (fun h ht => ht.extends h.extends) es fun e _ s' h' => hself s' scope e h'.meaningful

theorem argumentOr_means (hs : u.Meaningful s) (i : Intrinsic) (given : Option TypeId) :
    u.Means s (argumentOr i given) fun t s' => s'.IsArgument i given t := by
  cases given with
  | some t => exact .pure hs (.inl rfl)
  | none => exact (Means.intern hs _).mono fun t s' ⟨h', hdata⟩ => ⟨h', .inr ⟨rfl, hdata⟩⟩

theorem not_isNominal_builtin (b : Builtin) (args : List TypeId) : ¬ u.IsNominal ⟨.builtin b, args⟩ := by
  rintro ⟨_, _, ⟨_, _, hid, -⟩, -⟩
  cases hid

theorem noted_record {key value t : TypeId} (hdata : s.data t =
    .object (some ⟨.builtin .record, [key, value]⟩) (.record key value)) :
    u.Noted s ⟨.builtin .record, [key, value]⟩ t := by
  refine ⟨?_, fun hnamed => absurd hnamed (not_isNominal_builtin _ _), ?_⟩
  · rintro _ _ ⟨⟩
    exact hdata
  · rintro _ _ ⟨_, _, hid, -⟩
    cases hid

theorem recordType_means (hs : u.Meaningful s) (key value : TypeId) :
    u.Means s (recordType key value) fun t s' =>
      s'.data t = .object (some ⟨.builtin .record, [key, value]⟩) (.record key value) := by
  intro t s' hrun
  rcases recordType_cases hrun with ⟨hfind, rfl⟩ | ⟨-, rfl, rfl⟩
  · exact ⟨.refl hs, (hs.noted _ _ (Interner.mem_of_instance? hfind)).record key value rfl⟩
  · have hnew : ∀ inst, some ⟨.builtin .record, [key, value]⟩ = some inst → ¬ u.IsNominal inst := by
      rintro _ ⟨⟩
      exact not_isNominal_builtin _ _
    have hmeans : u.Means s
        (newObject (some ⟨.builtin .record, [key, value]⟩) (.record key value)) _ :=
      .newObject hs _ trivial hnew
    obtain ⟨h₁, hdata⟩ := hmeans _ _ (newObject_eq _ _ s)
    refine ⟨.of_slots_eq h₁ rfl (List.subset_cons_self _ _) ?_, hdata⟩
    exact h₁.meaningful.record (noted_record hdata) (not_isNominal_builtin _ _)

theorem builtinType_means (hs : u.Meaningful s) (b : Builtin) (args : List TypeId) :
    u.Means s (builtinType b args) fun t s' => s'.IsBuiltin b args (s'.data t) := by
  cases b with
  | array =>
    refine .bind (argumentOr_means hs _ _) fun x s₁ h₁ hx => ?_
    exact (Means.intern h₁.meaningful _).mono fun t s₂ ⟨h₂, hdata⟩ =>
      ⟨h₂, x, hx.extends h₂.extends, hdata⟩
  | date | pattern => exact Means.intern hs _
  | record =>
    refine .bind (argumentOr_means hs _ _) fun key s₁ h₁ hkey => ?_
    refine .bind (argumentOr_means h₁.meaningful _ _) fun value s₂ h₂ hvalue => ?_
    exact (recordType_means h₂.meaningful key value).mono fun t s₃ ⟨h₃, hdata⟩ =>
      ⟨h₃, key, value, (hkey.extends h₂.extends).extends h₃.extends, hvalue.extends h₃.extends, hdata⟩

theorem expandTransparent_means (hself : u.Interprets self) (hs : u.Meaningful s) (name : String)
    {inst : Instance} {body : TypeExpr} {scope : Scope} (hbody : u.IsBody inst body scope)
    (htransparent : body.isStructure = false) :
    u.Means s (expandTransparent self name inst scope body) fun t s' =>
      u.Denotes s' (.expr scope body) t ∨ s'.data t = .form (.unresolved name) := by
  intro t s₂ hrun
  rcases expandTransparent_cases hrun with ⟨-, hrun⟩ | ⟨-, s₃, hrun₃, rfl⟩
  · obtain ⟨h', hdata⟩ := Means.intern hs _ t s₂ hrun
    exact ⟨h', .inr hdata⟩
  · -- which aliases are under way is not part of what the table says
    have hslots : ∀ {s' : Interner} (es : List Instance), u.Meaningful s' →
        u.Enlarged s' { s' with expanding := es } := fun es h =>
      .of_slots_eq (.refl h) rfl (List.Subset.refl _)
        (h.of_data ⟨fun _ _ => rfl, List.Subset.refl _⟩ rfl (fun _ ht => ht) (fun _ => .inl rfl)
          fun _ _ _ _ hopen => .inl hopen)
    have h₁ := hslots (inst :: s.expanding) hs
    obtain ⟨h₃, ht⟩ := hself _ scope body h₁.meaningful t s₃ hrun₃
    have h₄ := hslots (s₃.expanding.drop 1) h₃.meaningful
    have ht₄ := ht.extends h₄.extends
    generalize hs₄ : ({ s₃ with expanding := s₃.expanding.drop 1 } : Interner) = s₄ at h₄ ht₄
    have hnot : ¬ u.IsNominal inst := by
      rintro ⟨body', scope', hbody', hnamed⟩
      rw [(hbody.unique hbody').1, htransparent] at hnamed
      cases hnamed
    have hnoted : u.Noted s₄ inst t := by
      refine ⟨?_, fun hnamed => absurd hnamed hnot, fun body' scope' hbody' _ => ?_⟩
      · rintro key value rfl
        obtain ⟨_, _, hid, -⟩ := hbody
        cases hid
      · obtain ⟨rfl, rfl⟩ := hbody.unique hbody'
        exact ht₄
    have h₅ : u.Enlarged s₄ (s₄.record inst t) :=
      .of_slots_eq (.refl h₄.meaningful) rfl (List.subset_cons_self _ _)
        (h₄.meaningful.record hnoted hnot)
    subst hs₄
    exact ⟨((h₁.trans h₃).trans h₄).trans h₅, .inl (ht₄.extends h₅.extends)⟩

/-- An alias with a handle of its own answers with the handle noted for it, any other one with
what its text denotes. -/
theorem expandAlias_means (hself : u.Interprets self) (hs : u.Meaningful s) {id : DeclarationId}
    {d : Declaration} {body : TypeExpr} (hd : u.declaration? id = some d)
    (hbody : d.body = .typeAlias body) (args : List TypeId) :
    u.Means s (expandAlias self d.name d.typeParams id.unit body ⟨.declared id, args⟩)
      fun t s' => (body.isStructure = true ∧ (⟨.declared id, args⟩, t) ∈ s'.instances) ∨
        (body.isStructure = false ∧ u.Denotes s' (.expr (d.scope id args) body) t) ∨
        s'.data t = .form (.unresolved d.name) := by
  have hinst : u.IsBody ⟨.declared id, args⟩ body (d.scope id args) := ⟨id, d, rfl, hd, hbody, rfl⟩
  have htransparent : body.isStructure = false → u.Means s
      (expandTransparent self d.name ⟨.declared id, args⟩ (d.scope id args) body) fun t s' =>
        (body.isStructure = true ∧ (⟨.declared id, args⟩, t) ∈ s'.instances) ∨
        (body.isStructure = false ∧ u.Denotes s' (.expr (d.scope id args) body) t) ∨
        s'.data t = .form (.unresolved d.name) := fun hopen =>
    (expandTransparent_means hself hs d.name hinst hopen).mono fun t s' ⟨h', ht⟩ =>
      ⟨h', .inr (ht.imp_left fun ht => ⟨hopen, ht⟩)⟩
  unfold expandAlias
  refine .query_bind _ ?_
  split
  · rename_i t hfind
    have hmem := Interner.mem_of_instance? hfind
    refine .pure hs ?_
    cases hstructure : body.isStructure with
    | true => exact .inl ⟨rfl, hmem⟩
    | false => exact .inr (.inl ⟨rfl, (hs.noted _ _ hmem).transparent body _ hinst hstructure⟩)
  · rename_i hfind
    have hnone := Interner.not_mem_of_instance? hfind
    -- an alias with a handle of its own is noted first and filled in after its text is resolved
    cases body with
    | union branches =>
      refine (Means.reserveInstance (P := fun ts s' => u.DenoteAll s' (d.scope id args) branches ts) hs
        ⟨_, _, hinst, rfl⟩ hnone _ (fun ts => .namedUnion ⟨.declared id, args⟩ ts)
        (fun s' h' => hself.mapM h' _ branches) (fun ts s' hts => ⟨_, _, hinst, hts⟩)
        fun _ => rfl).mono fun t s' ⟨h', hmem⟩ => ⟨h', .inl ⟨rfl, hmem⟩⟩
    | object members indexes =>
      refine (Means.reserveInstance (P := fun _ _ => True) hs ⟨_, _, hinst, rfl⟩ hnone (pure ())
        (fun _ => .object (some ⟨.declared id, args⟩) (.literal members indexes (d.scope id args)))
        (fun s' h' => .pure h' trivial) (fun _ _ _ => hinst)
        fun _ => rfl).mono fun t s' ⟨h', hmem⟩ => ⟨h', .inl ⟨rfl, hmem⟩⟩
    | intersection parts =>
      refine (Means.reserveInstance (P := fun ts s' => u.DenoteAll s' (d.scope id args) parts ts) hs
        ⟨_, _, hinst, rfl⟩ hnone _ (fun ts => .object (some ⟨.declared id, args⟩) (.intersection ts))
        (fun s' h' => hself.mapM h' _ parts) (fun ts s' hts => ⟨_, _, hinst, hts⟩)
        fun _ => rfl).mono fun t s' ⟨h', hmem⟩ => ⟨h', .inl ⟨rfl, hmem⟩⟩
    | name n => exact htransparent rfl
    | generic n es => exact htransparent rfl
    | array e => exact htransparent rfl
    | literal value => exact htransparent rfl

/-! The rule for a declaration depends on its kind, and the one for a name on where it is found.
A denotation that was established stays right while later parts are resolved, as the table
is only enlarged. -/

theorem instantiate_means (hself : u.Interprets self) (hs : u.Meaningful s) {id : DeclarationId}
    {d : Declaration} (hd : u.declaration? id = some d) (args : List TypeId) :
    u.Means s (u.instantiate self id args) fun t s' => u.Denotes s' (.declared id args) t := by
  unfold instantiate
  rw [hd]
  refine .bind (Means.mapM (P := fun position t s => s.data t = .form (.param (.param id position)))
    hs (fun h ht => h.extends.form ht) _ fun position _ s' h' => Means.intern h'.meaningful _)
    fun missing s₁ h₁ hmissing => ?_
  have hargs : s₁.Completes id d.typeParams.length args
      (args.take d.typeParams.length ++ missing) := ⟨missing, rfl, hmissing⟩
  have hreference (hkind : DeclarationBody.kind d.body ≠ .typeAlias) : u.Means s₁
      (Session.intern (.reference ⟨.declared id, args.take d.typeParams.length ++ missing⟩))
      fun t s' => u.Denotes s' (.declared id args) t :=
    (Means.intern h₁.meaningful _).mono fun t s' ⟨h', hdata⟩ =>
      ⟨h', .reference hd hkind (hargs.extends h'.extends) hdata⟩
  cases hbody : d.body with
  | interface bases members indexes => exact hreference fun h => by rw [hbody] at h; cases h
  | enum members => exact hreference fun h => by rw [hbody] at h; cases h
  | typeAlias body =>
    refine (expandAlias_means hself h₁.meaningful hd hbody _).mono fun t s' ⟨h', ht⟩ => ⟨h', ?_⟩
    rcases ht with ⟨hnamed, hmem⟩ | ⟨hopen, ht⟩ | hdata
    · exact .named hd hbody hnamed (hargs.extends h'.extends) hmem
    · exact .transparent hd hbody hopen (hargs.extends h'.extends) ht
    · exact .circular hd hdata

theorem resolveName_means (hself : u.Interprets self) (hs : u.Meaningful s) (scope : Scope)
    (n : String) (args : List TypeExpr) : u.Means s (u.resolveName self scope n args)
      fun t s' => u.Denotes s' (.expr scope (.generic n args)) t := by
  have hword : ∀ f, scope.bound? n args = none → wordForm? n = some f → u.Means s
      (Session.intern f) fun t s' => u.Denotes s' (.expr scope (.generic n args)) t :=
    fun f hbound hf => (Means.intern hs f).mono fun t s' ⟨h', hdata⟩ => ⟨h', .word hbound hf hdata⟩
  unfold resolveName
  split
  · rename_i p hfind
    exact .pure hs (.param (p := (_, _)) hfind)
  · rename_i hbound
    split
    · rename_i i hi
      exact hword _ hbound (by simp [wordForm?, hi])
    · rename_i hi
      split
      · rename_i htrue
        exact hword _ hbound (by simp only [wordForm?, hi, if_pos htrue])
      · rename_i htrue
        split
        · rename_i hfalse
          exact hword _ hbound (by simp only [wordForm?, hi, if_neg htrue, if_pos hfalse])
        · rename_i hfalse
          have hnone : wordForm? n = none := by
            simp only [wordForm?, hi, if_neg htrue, if_neg hfalse]
          refine .bind (hself.mapM hs scope args) fun xs s₁ h₁ hxs => ?_
          have hdone : ∀ t s', u.Enlarged s₁ s' → u.Denotes s' (.applied scope.unit n xs) t →
              u.Denotes s' (.expr scope (.generic n args)) t := by
            intro t s' h' ht
            obtain ⟨hlen, hall⟩ := List.forall₂_iff_zip.1 (DenoteAll.extends hxs h'.extends)
            exact .applied hbound hnone hlen hall ht
          split
          · rename_i id hfind
            obtain ⟨d, hmem, -⟩ := mem_declarations_of_find? hfind
            exact (instantiate_means hself h₁.meaningful (mem_declarations_iff.1 hmem) xs).mono
              fun t s' ⟨h', ht⟩ => ⟨h', hdone t s' h' (.declared hfind ht)⟩
          · rename_i hfind
            split
            · rename_i b hb
              exact (builtinType_means h₁.meaningful b xs).mono
                fun t s' ⟨h', ht⟩ => ⟨h', hdone t s' h' (.builtin hfind hb ht)⟩
            · rename_i hb
              exact (Means.intern h₁.meaningful _).mono
                fun t s' ⟨h', ht⟩ => ⟨h', hdone t s' h' (.unknown hfind hb ht)⟩

theorem resolveStep_interprets (hself : u.Interprets self) : u.Interprets (u.resolveStep self) := by
  intro s scope e hs
  cases e with
  | name n =>
    exact (resolveName_means hself hs scope n []).mono fun t s' ⟨h', ht⟩ => ⟨h', .name ht⟩
  | generic n args => exact resolveName_means hself hs scope n args
  | array e =>
    refine .bind (hself s scope e hs) fun x s₁ h₁ hx => ?_
    exact (Means.intern h₁.meaningful _).mono fun t s' ⟨h', hdata⟩ =>
      ⟨h', .array (hx.extends h'.extends) hdata⟩
  | union branches =>
    refine .bind (hself.mapM hs scope branches) fun xs s₁ h₁ hxs => ?_
    refine (Means.intern h₁.meaningful _).mono fun t s' ⟨h', hdata⟩ => ⟨h', ?_⟩
    obtain ⟨hlen, hall⟩ := List.forall₂_iff_zip.1 (DenoteAll.extends hxs h'.extends)
    exact .union hlen hall hdata
  | intersection parts =>
    refine .bind (hself.mapM hs scope parts) fun xs s₁ h₁ hxs => ?_
    refine (Means.newObject h₁.meaningful none trivial fun _ h => by cases h).mono fun t s' ⟨h', hdata⟩ => ⟨h', ?_⟩
    obtain ⟨hlen, hall⟩ := List.forall₂_iff_zip.1 (DenoteAll.extends hxs h'.extends)
    exact .intersection hlen hall hdata
  | literal value =>
    exact (Means.intern hs _).mono fun t s' ⟨h', hdata⟩ => ⟨h', .literal hdata⟩
  | object members indexes =>
    exact (Means.newObject hs none trivial fun _ h => by cases h).mono fun t s' ⟨h', hdata⟩ => ⟨h', .object hdata⟩

/-- **Resolution answers with what the expression denotes.** -/
theorem resolve_interprets (u : Universe) : ∀ fuel, u.Interprets (u.resolve fuel)
  | 0 => fun _ _ _ _ _ _ h => by cases h
  | fuel + 1 => resolveStep_interprets (resolve_interprets u fuel)

theorem start_meaningful (u : Universe) : u.Meaningful u.start :=
  start_induction (.empty u) fun _ id position _ _ _ hs =>
    (Means.intern hs (.param (.param id position)) _ _ rfl).1.meaningful

end Resolution

end Universe
end TypedJson
