import TypedJson.Proofs.Edits
/-!
# Where the resolver calls itself

The resolver calls itself for the parts of an expression, and each of these calls finds the table
as the changes before it have left it.  So a step of the resolver does not depend on what the
resolver would do at any other table (`resolveStep_congr`).

Two resolvers that agree at all tables which changes lead to are interchangeable in a step.
That is what it means for a call to find such a table: the statement needs no record of the
calls.
-/
namespace TypedJson
namespace Universe

variable {u : Universe} {s s' : Interner} {α β : Type}

theorem bind_congr_at {m m' : Session α} {f f' : α → Session β} (hm : m' s = m s)
    (hf : ∀ a s', m s = some (a, s') → f' a s' = f a s') : (m' >>= f') s = (m >>= f) s := by
  show (m' s).bind (fun p => f' p.1 p.2) = (m s).bind fun p => f p.1 p.2
  rw [hm]
  cases hrun : m s with
  | none => rfl
  | some p => exact hf p.1 p.2 hrun

/-- The resolvers do the same at every table that changes of this one lead to. -/
def Agree (u : Universe) (s : Interner) (self self' : Resolver) : Prop :=
  ∀ s' scope e, u.Edited s s' → Scope.In scope s' → self' scope e s' = self scope e s'

section Resolution

variable {self self' : Resolver}

theorem Agree.later (h : u.Agree s self self') (hedited : u.Edited s s') :
    u.Agree s' self self' := fun s'' scope e h' => h s'' scope e (hedited.trans h')

theorem Agree.here (h : u.Agree s self self') {scope : Scope} (hscope : Scope.In scope s)
    (e : TypeExpr) : self' scope e s = self scope e s := h s scope e (.refl s) hscope

theorem Agree.mapM (hself : u.EditsTypes self) {scope : Scope} :
    ∀ (es : List TypeExpr) {s}, u.Sound s → u.Agree s self self' → Scope.In scope s →
      es.mapM (self' scope) s = es.mapM (self scope) s
  | [], _, _, _, _ => rfl
  | e :: es, s, hs, h, hscope => by
    rw [List.mapM_cons, List.mapM_cons]
    refine bind_congr_at (h.here hscope e) fun t s₁ hrun => ?_
    obtain ⟨h₁, -⟩ := hself s scope e hs hscope t s₁ hrun
    refine bind_congr_at ?_ fun _ _ _ => rfl
    exact Agree.mapM hself es (h₁.sound hs) (h.later h₁) fun p hp => h₁.has (hscope p hp)

theorem expandTransparent_congr (h : u.Agree s self self') {scope : Scope}
    (hscope : Scope.In scope s) (name : String) {inst : Instance}
    (htransparent : u.IsTransparent inst) (hargs : ∀ a ∈ inst.args, s.Has a) (e : TypeExpr) :
    expandTransparent self' name inst scope e s = expandTransparent self name inst scope e s := by
  unfold expandTransparent
  rw [Session.query_bind, Session.query_bind]
  split
  · rfl
  · refine bind_congr_at rfl fun _ s₁ hbegin => ?_
    cases hbegin
    have h₁ : u.Edited s { s with expanding := inst :: s.expanding } :=
      .of_edit (.expand htransparent hargs)
    exact bind_congr_at ((h.later h₁).here (fun p hp => h₁.has (hscope p hp)) e) fun _ _ _ => rfl

theorem expandAlias_congr (hself : u.EditsTypes self) (hs : u.Sound s) (h : u.Agree s self self')
    {id : DeclarationId} {d : Declaration} {body : TypeExpr} (hd : u.declaration? id = some d)
    (hbody : d.body = .typeAlias body) {args : List TypeId} (hargs : ∀ t ∈ args, s.Has t)
    (hcount : args.length = d.typeParams.length) :
    expandAlias self' d.name d.typeParams id.unit body ⟨.declared id, args⟩ s =
      expandAlias self d.name d.typeParams id.unit body ⟨.declared id, args⟩ s := by
  have hinst : u.IsBody ⟨.declared id, args⟩ body (d.scope id args) := ⟨id, d, rfl, hd, hbody, rfl⟩
  have htransparent : body.isStructure = false →
      expandTransparent self' d.name ⟨.declared id, args⟩ (d.scope id args) body s =
        expandTransparent self d.name ⟨.declared id, args⟩ (d.scope id args) body s := fun hopen =>
    expandTransparent_congr h (scope_zip_in hargs) d.name ⟨body, _, hinst, hopen⟩ hargs body
  unfold expandAlias
  rw [Session.query_bind, Session.query_bind]
  cases hfind : s.instance? ⟨.declared id, args⟩ with
  | some t => rfl
  | none =>
    -- the parts are resolved where the handle of the alias has just been reserved
    have hreserve : body.isStructure = true →
        ∀ (es : List TypeExpr) (data : List TypeId → TypeData), (do
          let t ← reserveInstance ⟨.declared id, args⟩
          let ts ← es.mapM (self' (d.scope id args))
          Session.update (·.define t (data ts))
          pure t) s = (do
          let t ← reserveInstance ⟨.declared id, args⟩
          let ts ← es.mapM (self (d.scope id args))
          Session.update (·.define t (data ts))
          pure t) s := by
      intro hstructure es data
      refine bind_congr_at rfl fun t s₁ hrun => ?_
      cases hrun
      have h₁ : u.Edited s
          ((s.push .reserved).2.record ⟨.declared id, args⟩ (s.push .reserved).1) :=
        .of_edit (.reserve hfind ⟨body, _, hinst, hstructure⟩ hargs (takesAll_declared hd hcount))
      refine bind_congr_at ?_ fun _ _ _ => rfl
      exact Agree.mapM hself es (h₁.sound hs) (h.later h₁)
        (scope_zip_in fun t ht => h₁.has (hargs t ht))
    cases body with
    | union branches => exact hreserve rfl branches fun ts => .namedUnion ⟨.declared id, args⟩ ts
    | object members indexes => rfl
    | intersection parts =>
      exact hreserve rfl parts fun ts => .object (some ⟨.declared id, args⟩) (.intersection ts)
    | name n => exact htransparent rfl
    | generic n es => exact htransparent rfl
    | array e => exact htransparent rfl
    | literal value => exact htransparent rfl

theorem instantiate_congr (hself : u.EditsTypes self) (hs : u.Sound s) (h : u.Agree s self self')
    {id : DeclarationId} {d : Declaration} (hd : u.declaration? id = some d) {given : List TypeId}
    (hgiven : ∀ t ∈ given, s.Has t) :
    u.instantiate self' id given s = u.instantiate self id given s := by
  unfold instantiate
  rw [hd]
  refine bind_congr_at rfl fun missing s₁ hrun => ?_
  obtain ⟨h₁, hcompletes, hargs⟩ := arguments_edits hs hd hgiven missing s₁ hrun
  cases hbody : d.body with
  | interface bases members indexes => rfl
  | enum members => rfl
  | typeAlias body =>
    exact expandAlias_congr hself (h₁.sound hs) (h.later h₁) hd hbody hargs hcompletes.length_eq

theorem resolveName_congr (hself : u.EditsTypes self) (hs : u.Sound s) (h : u.Agree s self self')
    {scope : Scope} (hscope : Scope.In scope s) (name : String) (args : List TypeExpr) :
    u.resolveName self' scope name args s = u.resolveName self scope name args s := by
  unfold resolveName
  cases hparam : if args.isEmpty then scope.params.find? (·.1 == name) else none with
  | some p => rfl
  | none =>
    cases hintrinsic : Intrinsic.ofName? name with
    | some i => rfl
    | none =>
      by_cases htrue : name = "true"
      · subst htrue
        rfl
      by_cases hfalse : name = "false"
      · subst hfalse
        rfl
      dsimp only
      rw [if_neg htrue, if_neg hfalse, if_neg htrue, if_neg hfalse]
      refine bind_congr_at (Agree.mapM hself args hs h hscope) fun ts s₁ hrun => ?_
      obtain ⟨h₁, hts⟩ := hself.mapM hs hscope args ts s₁ hrun
      cases hfind : u.find? name scope.unit with
      | some id =>
        obtain ⟨d, hmem, -⟩ := mem_declarations_of_find? hfind
        exact instantiate_congr hself (h₁.sound hs) (h.later h₁) (mem_declarations_iff.1 hmem) hts
      | none => rfl

/-- **The resolver calls itself only at tables that changes of this one lead to.** -/
theorem resolveStep_congr (hself : u.EditsTypes self) (hs : u.Sound s) (h : u.Agree s self self')
    {scope : Scope} (hscope : Scope.In scope s) (e : TypeExpr) :
    u.resolveStep self' scope e s = u.resolveStep self scope e s := by
  cases e with
  | name n => exact resolveName_congr hself hs h hscope n []
  | generic n args => exact resolveName_congr hself hs h hscope n args
  | array e => exact bind_congr_at (h.here hscope e) fun _ _ _ => rfl
  | union branches =>
    exact bind_congr_at (Agree.mapM hself branches hs h hscope) fun _ _ _ => rfl
  | intersection parts =>
    exact bind_congr_at (Agree.mapM hself parts hs h hscope) fun _ _ _ => rfl
  | literal value => rfl
  | object members indexes => rfl

end Resolution
end Universe
end TypedJson
