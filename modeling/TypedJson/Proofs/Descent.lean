import TypedJson.Proofs.Course
import TypedJson.Proofs.Provenance
/-!
# Types are made of earlier ones

A handle is given out when the parts of its type are in the table already, or it is reserved for
an alias whose arguments are.  So whatever a type shows has a smaller handle
(`Interner.Descends`); only the branches of a named union are resolved after the union has got
its handle.  What resolving keeps, every question keeps (`Universe.Invariant.of_reaches`), and so
this holds of every table that questions lead to (`Universe.descends_of_reaches`).

The order of handles is the only measure that types have which is bounded and known in
advance.  The reservation of an alias is the one place where a handle is older than its
parts; for an object or an intersection nothing of the parts is shown, as it goes by its
name, and for a union the branches are no part of what it shows.
-/
namespace TypedJson

/-- Whatever a type shows comes before it in the table. -/
def Interner.Descends (s : Interner) : Prop := ∀ t, ∀ x ∈ (s.data t).shown, x.index < t.index

namespace Interner.Descends

variable {s s' : Interner}

theorem empty : Interner.empty.Descends := fun _ _ h => by cases h

theorem of_data (h : s.Descends) (hdata : ∀ t, s'.data t = s.data t) : s'.Descends := by
  intro t x hx
  rw [hdata] at hx
  exact h t x hx

theorem push (h : s.Descends) {d : TypeData} (hd : ∀ x ∈ d.shown, s.Has x) :
    (s.push d).2.Descends := by
  intro t x hx
  rw [data_push] at hx
  split at hx
  · rename_i heq
    rw [heq]
    exact hd x hx
  · exact h t x hx

theorem define (h : s.Descends) {t : TypeId} (ht : s.Has t) {d : TypeData}
    (hd : ∀ x ∈ d.shown, x.index < t.index) : (s.define t d).Descends := by
  intro y x hx
  rw [data_define ht] at hx
  split at hx
  · rename_i heq
    rw [← heq]
    exact hd x hx
  · exact h y x hx

end Interner.Descends

namespace Universe

variable {u : Universe} {s s' : Interner} {α β : Type}

/-! ## What resolving keeps

An invariant that is blind to the lists of types need not be followed through listing: what
is listed is resolved, and otherwise only kept. -/

/-- The property holds of the first table, resolving keeps it, and it says nothing about the
lists that are kept. -/
structure Invariant (u : Universe) (P : Interner → Prop) : Prop where
  start : P u.start
  resolve : ∀ (fuel : Nat) s scope e, u.Sound s → Scope.In scope s → P s →
    After s (u.resolve fuel scope e) fun _ s' => P s'
  instantiate : ∀ (fuel : Nat) s id d, u.declaration? id = some d → u.Sound s → P s →
    After s (u.instantiate (u.resolve fuel) id []) fun _ s' => P s'
  keep : ∀ s (k : Listing) t l, P s → P (s.keep k t l)

namespace Invariant

variable {P : Interner → Prop}

/-- From a table that has the property to one that has it. -/
theorem course (h : u.Invariant P) : u.Course fun s s' => P s → P s' where
  refl _ hP := hP
  trans h₁ h₂ hP := h₂ (h₁ hP)
  resolve fuel s scope hs hscope e t s' hrun hP := h.resolve fuel s scope e hs hscope hP t s' hrun
  instantiate fuel s id d hd hs t s' hrun hP := h.instantiate fuel s id d hd hs hP t s' hrun
  keep k l _ _ hP := h.keep _ k _ l hP

/-- **What resolving keeps holds of every table that questions lead to.** -/
theorem of_reaches (h : u.Invariant P) (hreaches : u.Reaches u.start s) : P s :=
  h.course.of_reaches .refl hreaches h.start

end Invariant

/-! ## Computations -/

/-- Whatever it answers, the computation leaves every type after those that it shows. -/
def Orders (s : Interner) (m : Session α) : Prop := After s m fun _ s' => s'.Descends

namespace Orders

theorem pure (h : s.Descends) (a : α) : Orders s (Pure.pure a) := After.pure h

theorem bind {m : Session α} {f : α → Session β} {P : α → Interner → Prop}
    (hyields : u.Yields s m P) (hm : Orders s m)
    (hf : ∀ a s', u.Grown s s' → P a s' → s'.Descends → Orders s' (f a)) : Orders s (m >>= f) :=
  After.bind (After.and hyields fun a s' _ hrun => hm a s' hrun)
    fun a s' ⟨⟨hgrown, ha⟩, h'⟩ => hf a s' hgrown ha h'

theorem mapM {f : α → Session β} {P : β → Interner → Prop} : ∀ (as : List α) {s : Interner},
    u.Sound s → s.Descends → (∀ a ∈ as, ∀ s', u.Grown s s' → s'.Descends →
      u.Yields s' (f a) P ∧ Orders s' (f a)) → Orders s (as.mapM f)
  | [], _, _, h, _ => by
    rw [List.mapM_nil]
    exact pure h []
  | a :: as, s, hs, h, hf => by
    obtain ⟨hyields, ha⟩ := hf a List.mem_cons_self s (.refl hs) h
    rw [List.mapM_cons]
    refine bind hyields ha fun b s₁ h₁ _ hdesc => ?_
    have hrest : Orders s₁ (as.mapM f) := mapM as h₁.sound hdesc fun x hx s' h' =>
      hf x (List.mem_cons_of_mem a hx) s' (h₁.trans h')
    exact After.bind hrest fun bs s₂ h₂ => pure h₂ _

theorem query_bind (f : Interner → α) {g : α → Session β} (h : Orders s (g (f s))) :
    Orders s (Session.query f >>= g) := by
  intro b s' hrun
  rw [Session.query_bind] at hrun
  exact h b s' hrun

theorem intern (h : s.Descends) {f : Form} (hf : ∀ x ∈ (TypeData.form f).shown, s.Has x) :
    Orders s (Session.intern f) := by
  intro t s' hrun
  rcases intern_cases hrun with ⟨-, rfl⟩ | ⟨-, -, rfl⟩
  · exact h
  · exact h.push hf

theorem newObject (h : s.Descends) {origin : Option Instance} {shape : Shape}
    (hshown : ∀ x ∈ (TypeData.object origin shape).shown, s.Has x) :
    Orders s (newObject origin shape) := by
  intro t s' hrun
  rw [newObject_eq] at hrun
  cases hrun
  exact h.push hshown

theorem reserveInstance (hs : u.Sound s) (h : s.Descends) (inst : Instance) (parts : Session α)
    (data : α → TypeData) {P : α → Interner → Prop}
    (hyields : ∀ s', u.Grown s s' → u.Yields s' parts P)
    (hparts : ∀ s', u.Grown s s' → s'.Descends → Orders s' parts)
    (hdata : ∀ a, ∀ x ∈ (data a).shown, s.Has x) :
    Orders s (do
      let t ← reserveInstance inst
      let a ← parts
      Session.update (·.define t (data a))
      Pure.pure t) := by
  intro t s₂ hrun
  obtain ⟨a, s₃, hrun₃, rfl, rfl⟩ := reserveInstance_cases hrun
  have hnew := reserve_yields hs _ _ (rfl : Session.reserve s = some (s.push .reserved))
  obtain ⟨hgrown, ht, -, -⟩ := hnew
  have hgrown₁ := hgrown.record inst ht
  have hdesc₁ : ((s.push .reserved).2.record inst (s.push .reserved).1).Descends :=
    (h.push (d := .reserved) fun x hx => by cases hx).of_data fun _ => rfl
  have hgrown₃ := (hyields _ hgrown₁ a s₃ hrun₃).1
  exact (hparts _ hgrown₁ hdesc₁ a s₃ hrun₃).define (hgrown₃.has ht) (hdata a)

end Orders

/-! ## Resolution

The triple as before; of the answer it is known from soundness that it is a handle of the
table, so whatever is made from it comes after it. -/

section Resolution

variable {self : Resolver}

/-- The resolver leaves every type after those that it shows. -/
def OrdersTypes (u : Universe) (self : Resolver) : Prop :=
  ∀ s scope e, u.Sound s → Scope.In scope s → s.Descends → Orders s (self scope e)

theorem OrdersTypes.mapM (hself : u.OrdersTypes self) (hyields : u.Resolves self) (hs : u.Sound s)
    (h : s.Descends) {scope : Scope} (hscope : Scope.In scope s) (es : List TypeExpr) :
    Orders s (es.mapM (self scope)) :=
  Orders.mapM (u := u) (P := fun t s => s.Has t) es hs h fun e _ s' h' hdesc =>
    have hscope' : Scope.In scope s' := fun p hp => h'.has (hscope p hp)
    ⟨hyields s' scope e h'.sound hscope', hself s' scope e h'.sound hscope' hdesc⟩

theorem argumentOr_orders (h : s.Descends) (i : Intrinsic) (given : Option TypeId) :
    Orders s (argumentOr i given) := by
  cases given with
  | some t => exact .pure h t
  | none => exact .intern h fun x hx => by cases hx

theorem recordType_orders (h : s.Descends) {key value : TypeId} (hk : s.Has key)
    (hv : s.Has value) : Orders s (recordType key value) := by
  intro t s' hrun
  rcases recordType_cases hrun with ⟨-, rfl⟩ | ⟨-, -, rfl⟩
  · exact h
  · have hshown : ∀ x ∈ (TypeData.object (some ⟨.builtin .record, [key, value]⟩)
        (.record key value)).shown, s.Has x :=
      List.forall_mem_cons.2 ⟨hk, List.forall_mem_singleton.2 hv⟩
    exact (h.push hshown).of_data fun _ => rfl

theorem builtinType_orders (hs : u.Sound s) (h : s.Descends) (b : Builtin) {args : List TypeId}
    (hargs : ∀ t ∈ args, s.Has t) : Orders s (builtinType b args) := by
  have hyields : ∀ {s'} (i : Intrinsic) (n : Nat), u.Grown s s' →
      u.YieldsType s' (argumentOr i args[n]?) := fun i n h' =>
    argumentOr_yields h'.sound i _ fun t ht => h'.has (hargs t (List.mem_of_getElem? ht))
  cases b with
  | array =>
    refine .bind (hyields .unknown 0 (.refl hs)) (argumentOr_orders h _ _) fun t s₁ _ ht h₁ => ?_
    exact .intern h₁ fun x hx => by rwa [List.mem_singleton.1 hx]
  | date | pattern => exact .intern h fun x hx => by cases hx
  | record =>
    refine .bind (hyields .string 0 (.refl hs)) (argumentOr_orders h _ _)
      fun key s₁ hgrown₁ hk h₁ => ?_
    refine .bind (hyields .unknown 1 hgrown₁) (argumentOr_orders h₁ _ _)
      fun value s₂ hgrown₂ hv h₂ => ?_
    exact recordType_orders h₂ (hgrown₂.has hk) hv

theorem expandTransparent_orders (hself : u.OrdersTypes self) (hs : u.Sound s) (h : s.Descends)
    {scope : Scope} (hscope : Scope.In scope s) (name : String) (inst : Instance) (e : TypeExpr) :
    Orders s (expandTransparent self name inst scope e) := by
  intro t s₂ hrun
  rcases expandTransparent_cases hrun with ⟨-, hrun⟩ | ⟨-, s₃, hrun₃, rfl⟩
  · exact Orders.intern h (fun x hx => by cases hx) t s₂ hrun
  · have hsound := ((Grown.refl hs).expanding (inst :: s.expanding)).sound
    exact (hself _ scope e hsound hscope (h.of_data fun _ => rfl) t s₃ hrun₃).of_data fun _ => rfl

theorem expandAlias_orders (hself : u.OrdersTypes self) (hyields : u.Resolves self)
    (hs : u.Sound s) (h : s.Descends) (name : String) (params : List String) (unit : Nat)
    (body : TypeExpr) {inst : Instance} (hargs : ∀ t ∈ inst.args, s.Has t) :
    Orders s (expandAlias self name params unit body inst) := by
  have hscope : ∀ {s'}, u.Grown s s' → Scope.In ⟨unit, params.zip inst.args⟩ s' := fun h' =>
    scope_zip_in fun t ht => h'.has (hargs t ht)
  have htransparent := expandTransparent_orders hself hs h (hscope (.refl hs)) name inst
  -- the parts of the alias are resolved while its handle stands open
  have hparts : ∀ (es : List TypeExpr) (data : List TypeId → TypeData),
      (∀ ts, (data ts).shown = inst.args) → Orders s (do
        let t ← reserveInstance inst
        let ts ← es.mapM (self ⟨unit, params.zip inst.args⟩)
        Session.update (·.define t (data ts))
        pure t) := fun es data hdata =>
    .reserveInstance hs h inst _ data (fun s' h' => hyields.mapM h'.sound (hscope h') es)
      (fun s' h' hdesc => hself.mapM hyields h'.sound hdesc (hscope h') es)
      fun ts x hx => hargs x (by rwa [hdata] at hx)
  unfold expandAlias
  refine .query_bind _ ?_
  split
  · exact .pure h _
  · cases body with
    | union branches => exact hparts branches (fun ts => .namedUnion inst ts) fun _ => rfl
    | object members indexes =>
      exact .reserveInstance (P := fun _ _ => True) hs h inst (pure ())
        (fun _ => .object (some inst) (.literal members indexes ⟨unit, params.zip inst.args⟩))
        (fun s' h' => .pure h'.sound trivial) (fun s' _ hdesc => .pure hdesc ()) fun _ => hargs
    | intersection parts =>
      exact hparts parts (fun ts => .object (some inst) (.intersection ts)) fun _ => rfl
    | name n => exact htransparent _
    | generic n es => exact htransparent _
    | array e => exact htransparent _
    | literal value => exact htransparent _

theorem instantiate_orders (hself : u.OrdersTypes self) (hyields : u.Resolves self)
    (hs : u.Sound s) (h : s.Descends) {id : DeclarationId} {d : Declaration}
    (hd : u.declaration? id = some d) {args : List TypeId} (hargs : ∀ t ∈ args, s.Has t) :
    Orders s (u.instantiate self id args) := by
  have hparam : ∀ position ∈ (List.range d.typeParams.length).drop
      (args.take d.typeParams.length).length, ∀ s', u.Grown s s' →
        u.YieldsType s' (Session.intern (.param (.param id position))) := by
    intro position hmem s' h'
    have hlt := List.mem_range.1 (List.mem_of_mem_drop hmem)
    exact intern_yields h'.sound (fun x hx => by cases hx) ⟨id, position, d, rfl, hd, hlt⟩
  unfold instantiate
  rw [hd]
  refine .bind (YieldsType.mapM hs _ hparam) ?_ fun missing s₁ h₁ hmissing hdesc => ?_
  · exact .mapM (u := u) _ hs h fun position hmem s' h' hdesc =>
      ⟨hparam position hmem s' h', .intern hdesc fun x hx => by cases hx⟩
  -- the arguments were there before, and so are the parameters that were filled in
  have hall : ∀ t ∈ args.take d.typeParams.length ++ missing, s₁.Has t := by
    intro t ht
    rcases List.mem_append.1 ht with ht | ht
    · exact h₁.has (hargs t (List.mem_of_mem_take ht))
    · exact hmissing t ht
  cases d.body with
  | interface bases members indexes => exact .intern hdesc hall
  | enum members => exact .intern hdesc hall
  | typeAlias body => exact expandAlias_orders hself hyields h₁.sound hdesc _ _ _ body hall

/-! Whatever is interned is about handles that are there already, and a new handle is behind
them.  So a name is resolved in order if its arguments are. -/

theorem resolveName_orders (hself : u.OrdersTypes self) (hyields : u.Resolves self)
    (hs : u.Sound s) (h : s.Descends) {scope : Scope} (hscope : Scope.In scope s) (name : String)
    (args : List TypeExpr) : Orders s (u.resolveName self scope name args) := by
  have hleaf : ∀ {s'} (f : Form), (TypeData.form f).shown = [] → s'.Descends →
      Orders s' (Session.intern f) := fun f hf h' =>
    .intern h' fun x hx => by rw [hf] at hx; cases hx
  unfold resolveName
  split
  · exact .pure h _
  · split
    · exact hleaf _ rfl h
    · by_cases htrue : name = "true"
      · rw [if_pos htrue]
        exact hleaf _ rfl h
      rw [if_neg htrue]
      by_cases hfalse : name = "false"
      · rw [if_pos hfalse]
        exact hleaf _ rfl h
      rw [if_neg hfalse]
      refine .bind (hyields.mapM hs hscope args) (hself.mapM hyields hs h hscope args)
        fun ts s₁ h₁ hts hdesc => ?_
      cases hfind : u.find? name scope.unit with
      | some id =>
        obtain ⟨d, hmem, -⟩ := mem_declarations_of_find? hfind
        exact instantiate_orders hself hyields h₁.sound hdesc (mem_declarations_iff.1 hmem) hts
      | none =>
        cases Builtin.ofName? name with
        | some b => exact builtinType_orders h₁.sound hdesc b hts
        | none => exact hleaf _ rfl hdesc

theorem resolveStep_orders (hself : u.OrdersTypes self) (hyields : u.Resolves self) :
    u.OrdersTypes (u.resolveStep self) := by
  intro s scope e hs hscope h
  cases e with
  | name n => exact resolveName_orders hself hyields hs h hscope n []
  | generic n args => exact resolveName_orders hself hyields hs h hscope n args
  | array e =>
    refine .bind (hyields s scope e hs hscope) (hself s scope e hs hscope h)
      fun t s₁ _ ht hdesc => ?_
    exact .intern hdesc fun x hx => by rwa [List.mem_singleton.1 hx]
  | union branches =>
    exact .bind (hyields.mapM hs hscope branches) (hself.mapM hyields hs h hscope branches)
      fun ts s₁ _ hts hdesc => .intern hdesc hts
  | intersection parts =>
    exact .bind (hyields.mapM hs hscope parts) (hself.mapM hyields hs h hscope parts)
      fun ts s₁ _ hts hdesc => .newObject hdesc hts
  | literal value => exact .intern h fun x hx => by cases hx
  | object members indexes => exact .newObject h fun x hx => by cases hx

theorem resolve_orders (u : Universe) : ∀ fuel, u.OrdersTypes (u.resolve fuel)
  | 0 => fun _ _ _ _ _ _ _ _ h => by cases h
  | fuel + 1 => resolveStep_orders (resolve_orders u fuel) (resolve_resolves u fuel)

end Resolution

/-! ## Questions -/

theorem descends_invariant (u : Universe) : u.Invariant Interner.Descends where
  start := by
    refine start_induction .empty fun s id position _ _ _ h => ?_
    exact Orders.intern h (f := .param (.param id position)) (fun x hx => by cases hx) _ _ rfl
  resolve fuel s scope e hs hscope h := resolve_orders u fuel s scope e hs hscope h
  instantiate fuel s id d hd hs h := instantiate_orders (resolve_orders u fuel)
    (resolve_resolves u fuel) hs h hd fun t ht => by cases ht
  keep s k t l h := h.of_data Interner.data_keep

/-- **Whatever is asked, types are made of earlier ones.** -/
theorem descends_of_reaches (h : u.Reaches u.start s) : s.Descends :=
  (descends_invariant u).of_reaches h

end Universe
end TypedJson
