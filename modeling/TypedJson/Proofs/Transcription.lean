import TypedJson.Proofs.Provenance
/-!
# Resolution keeps to the declarations

Whatever is resolved, the type that comes out of it shows the inline objects that its
expression shows, and the table goes on keeping to the declarations (`Universe.Writes`).  So
does every table that questions lead to (`Universe.written_of_reaches`).

`Writes` is the triple for this invariant, and the lemmas follow the resolver function by
function as in `Resolution`.  The condition on the answer relates it to an expression:
whatever shows the expression shows the inline objects of the type.
-/
namespace TypedJson
namespace Universe

/-- The computation keeps to the declarations, shows what was there as before, and answers as
stated. -/
def Writes (u : Universe) (s : Interner) (m : Session α) (Q : α → Interner → Prop) : Prop :=
  After s m fun a s' => (u.Written s' ∧ s.KeepsTexts s') ∧ Q a s'

namespace Writes

variable {u : Universe} {s : Interner} {α β : Type}

theorem pure (hs : u.Written s) {a : α} {Q : α → Interner → Prop} (h : Q a s) :
    u.Writes s (Pure.pure a) Q := After.pure ⟨⟨hs, .refl s⟩, h⟩

theorem bind {m : Session α} {f : α → Session β} {P : α → Interner → Prop}
    {Q : β → Interner → Prop} (hm : u.Writes s m P)
    (hf : ∀ a s', u.Written s' → s.KeepsTexts s' → P a s' → u.Writes s' (f a) Q) :
    u.Writes s (m >>= f) Q :=
  After.bind hm fun a s' ⟨⟨hs', hkeeps⟩, ha⟩ => (hf a s' hs' hkeeps ha).mono
    fun _ _ ⟨⟨hs'', hkeeps'⟩, hb⟩ => ⟨⟨hs'', hkeeps.trans hkeeps'⟩, hb⟩

theorem query_bind {f : Interner → α} {g : α → Session β} {Q : β → Interner → Prop}
    (h : u.Writes s (g (f s)) Q) : u.Writes s (Session.query f >>= g) Q := h

theorem mono {m : Session α} {P Q : α → Interner → Prop} (h : u.Writes s m P)
    (hPQ : ∀ a s', P a s' → Q a s') : u.Writes s m Q :=
  After.mono h fun a s' ⟨hs', ha⟩ => ⟨hs', hPQ a s' ha⟩

theorem mapM (hs : u.Written s) {P : α → β → Interner → Prop}
    (up : ∀ {a b s s'}, u.Written s' → s.KeepsTexts s' → P a b s → P a b s')
    {f : α → Session β} (as : List α)
    (hf : ∀ a ∈ as, ∀ s', u.Written s' → u.Writes s' (f a) (P a)) :
    u.Writes s (as.mapM f) fun bs s' => List.Forall₂ (fun a b => P a b s') as bs :=
  After.mapM (R := fun s s' => u.Written s' ∧ s.KeepsTexts s') (P := P)
    (fun h₁ h₂ => ⟨h₂.1, h₁.2.trans h₂.2⟩) (fun h => up h.1 h.2) as ⟨hs, .refl s⟩
    (fun s' h => ⟨h.1, .refl s'⟩) fun a ha s' h' => hf a ha s' h'.1

theorem mapM_any (hs : u.Written s) {f : α → Session β} (as : List α)
    (hf : ∀ a s', u.Written s' → u.Writes s' (f a) fun _ _ => True) :
    u.Writes s (as.mapM f) fun _ _ => True :=
  (mapM (P := fun _ _ _ => True) hs (fun _ _ _ => trivial) as fun a _ s' hs' => hf a s' hs').mono
    fun _ _ _ => trivial

end Writes

variable {u : Universe} {s : Interner} {t : TypeId} {p : Spot}

/-! ## Single types -/

theorem push_writes (hs : u.Written s) {d : TypeData} (hshown : ∀ x ∈ d.shown, s.Has x)
    (hclosed : ∀ origin members indexes scope,
      d = .object origin (.literal members indexes scope) → scope.params = []) :
    u.Writes s (fun s => some (s.push d)) fun t s' => s'.Has t ∧ s'.data t = d := by
  intro t s' hrun
  cases hrun
  exact ⟨⟨hs.push hshown hclosed, Written.keepsTexts_push s d⟩, Interner.has_push_new s d,
    Interner.data_push_new s d⟩

theorem intern_writes (hs : u.Written s) {f : Form} (hf : ∀ x ∈ (TypeData.form f).shown, s.Has x) :
    u.Writes s (Session.intern f) fun t s' => s'.Has t ∧ s'.data t = .form f := by
  intro t s' hrun
  cases hfind : s.find? f with
  | some found =>
    simp only [Session.intern, Interner.intern, hfind] at hrun
    cases hrun
    exact ⟨⟨hs, .refl s⟩, Interner.data_of_find? hfind⟩
  | none =>
    simp only [Session.intern, Interner.intern, hfind] at hrun
    exact push_writes hs hf (fun _ _ _ _ h => by cases h) t s' hrun

theorem intern_writesAs (hs : u.Written s) {f : Form}
    (hf : ∀ x ∈ (TypeData.form f).shown, u.WrittenAs s p x) :
    u.Writes s (Session.intern f) fun t s' => u.WrittenAs s' p t := by
  refine After.mono (intern_writes hs fun x hx => (hf x hx).1)
    fun t s' ⟨⟨hs', hkeeps⟩, ht, hdata⟩ => ⟨⟨hs', hkeeps⟩, .of_shown ht ?_ fun x hx => ?_⟩
  · rw [hdata]
    rfl
  · rw [hdata] at hx
    exact (hf x hx).kept hs'.earlier hkeeps

theorem leaf_writesAs (hs : u.Written s) {f : Form} (hf : (TypeData.form f).shown = []) :
    u.Writes s (Session.intern f) fun t s' => u.WrittenAs s' p t :=
  intern_writesAs hs fun x hx => by rw [hf] at hx; cases hx

theorem newObject_writes (hs : u.Written s) {origin : Option Instance} {shape : Shape}
    (hshown : ∀ x ∈ (TypeData.object origin shape).shown, s.Has x)
    (hclosed : ∀ members indexes scope, shape = .literal members indexes scope →
      scope.params = []) :
    u.Writes s (newObject origin shape) fun t s' => s'.Has t ∧ s'.data t = .object origin shape := by
  have heq : newObject origin shape = fun s => some (s.push (.object origin shape)) :=
    funext (newObject_eq origin shape)
  rw [heq]
  refine push_writes hs hshown fun origin' members indexes scope h => ?_
  cases h
  exact hclosed members indexes scope rfl

theorem argumentOr_writes (hs : u.Written s) (i : Intrinsic) (given : Option TypeId)
    (h : ∀ t, given = some t → u.WrittenAs s p t) :
    u.Writes s (argumentOr i given) fun t s' => u.WrittenAs s' p t := by
  cases given with
  | some t => exact .pure hs (h t rfl)
  | none => exact leaf_writesAs hs rfl

theorem recordType_writes (hs : u.Written s) {key value : TypeId} (hk : u.WrittenAs s p key)
    (hv : u.WrittenAs s p value) :
    u.Writes s (recordType key value) fun t s' => u.WrittenAs s' p t := by
  have hboth : ∀ x ∈ [key, value], u.WrittenAs s p x :=
    List.forall_mem_cons.2 ⟨hk, List.forall_mem_singleton.2 hv⟩
  unfold recordType
  refine .query_bind ?_
  cases hfound : s.instance? ⟨.builtin .record, [key, value]⟩ with
  | some t =>
    obtain ⟨ht, hshown, hinline⟩ := (hs.instances _ t hfound).2 rfl
    refine .pure hs (.of_shown ht hinline fun x hx => ?_)
    rw [hshown] at hx
    exact hboth x hx
  | none =>
    have hobject : u.Writes s
        (newObject (some ⟨.builtin .record, [key, value]⟩) (.record key value)) fun t s' =>
          s'.Has t ∧ s'.data t = .object (some ⟨.builtin .record, [key, value]⟩) (.record key value) :=
      newObject_writes hs (fun x hx => (hboth x hx).1) fun _ _ _ h => by cases h
    refine hobject.bind fun t s₁ h₁ hkeeps ⟨ht, hdata⟩ => ?_
    have hshown : (s₁.data t).shown = [key, value] := by
      rw [hdata]
      rfl
    have hinline : (s₁.data t).inline? = none := by
      rw [hdata]
      rfl
    have hwritten : u.WrittenAs s₁ p t := by
      refine .of_shown ht hinline fun x hx => ?_
      rw [hshown] at hx
      exact (hboth x hx).kept h₁.earlier hkeeps
    intro t' s₂ hrun
    cases hrun
    exact ⟨⟨h₁.record ⟨fun _ _ h => (by cases h), fun _ => ⟨ht, hshown, hinline⟩⟩,
      Written.keepsTexts_record s₁ _ t⟩, hwritten⟩

theorem builtinType_writes (hs : u.Written s) (b : Builtin) {args : List TypeId}
    (h : ∀ x ∈ args.take b.shownArguments, u.WrittenAs s p x) :
    u.Writes s (builtinType b args) fun t s' => u.WrittenAs s' p t := by
  have harg : ∀ {i n : Nat} {x : TypeId}, n < i → args[n]? = some x → x ∈ args.take i := by
    intro i n x hlt hx
    rw [← List.getElem?_take_of_lt hlt] at hx
    exact List.mem_of_getElem? hx
  cases b with
  | array =>
    refine (argumentOr_writes hs .unknown args[0]? fun x hx => h x (harg Nat.one_pos hx)).bind
      fun x s₁ h₁ _ hx => intern_writesAs h₁ fun y hy => ?_
    rw [List.mem_singleton.1 hy]
    exact hx
  | date => exact leaf_writesAs hs rfl
  | pattern => exact leaf_writesAs hs rfl
  | record =>
    refine (argumentOr_writes hs .string args[0]? fun x hx => h x (harg Nat.two_pos hx)).bind
      fun key s₁ h₁ hkeeps hkey => ?_
    have hvalue : ∀ x, args[1]? = some x → u.WrittenAs s₁ p x := fun x hx =>
      (h x (harg Nat.one_lt_two hx)).kept h₁.earlier hkeeps
    exact (argumentOr_writes h₁ .unknown args[1]? hvalue).bind fun value s₂ h₂ hkeeps' hvalue =>
      recordType_writes h₂ (hkey.kept h₂.earlier hkeeps') hvalue

/-! ## Declarations

An alias that is known by its name shows nothing and stands for any expression.  A
transparent one shows what its body shows, which is why the body is a step of `Shows`. -/

/-- The resolver answers with a type that shows what the expression shows. -/
def Transcribes (u : Universe) (self : Resolver) : Prop :=
  ∀ s scope e, u.Written s → scope.params = [] →
    u.Writes s (self scope e) fun t s' => u.WrittenAs s' ⟨scope.unit, e⟩ t

theorem Transcribes.mapM {self : Resolver} (hself : u.Transcribes self) (hs : u.Written s)
    {scope : Scope} (hscope : scope.params = []) (es : List TypeExpr) :
    u.Writes s (es.mapM (self scope)) fun ts s' =>
      List.Forall₂ (fun e t => u.WrittenAs s' ⟨scope.unit, e⟩ t) es ts :=
  Writes.mapM (P := fun e t s => u.WrittenAs s ⟨scope.unit, e⟩ t) hs
    (fun hs' hkeeps h => h.kept hs'.earlier hkeeps) es fun e _ s' hs' => hself s' scope e hs' hscope

/-- The type of an alias shows what every expression shows that the alias stands in, and nothing
if it is known by its name. -/
def StandsFor (u : Universe) (s : Interner) (id : DeclarationId) (t : TypeId) : Prop :=
  ∀ p, (∀ d body, u.declaration? id = some d → d.body = .typeAlias body →
    body.isStructure = false → Relation.ReflTransGen u.Shows p ⟨id.unit, body⟩) → u.WrittenAs s p t

theorem standsFor_of_nothing (ht : s.Has t) (hshown : (s.data t).shown = [])
    (hinline : (s.data t).inline? = none) (id : DeclarationId) : u.StandsFor s id t := by
  refine fun p _ => .of_shown ht hinline fun x hx => ?_
  rw [hshown] at hx
  cases hx

theorem StandsFor.keptAs {id : DeclarationId} (h : u.StandsFor s id t) :
    u.KeptAs s ⟨.declared id, []⟩ t := by
  refine ⟨fun id' p hsymbol hshows => ?_, fun hsymbol => by cases hsymbol⟩
  cases hsymbol
  exact h p hshows

/-- The handle of a type known by its name shows nothing, from the moment it is reserved. -/
theorem reserveInstance_writes {α : Type} (hs : u.Written s) (id : DeclarationId)
    (parts : Session α) (data : α → TypeData)
    (hparts : ∀ s', u.Written s' → u.Writes s' parts fun _ _ => True)
    (hshown : ∀ a, (data a).shown = [] ∧ (data a).inline? = none)
    (hclosed : ∀ a origin members indexes scope,
      data a = .object origin (.literal members indexes scope) → scope.params = []) :
    u.Writes s (do
      let t ← reserveInstance ⟨.declared id, []⟩
      let a ← parts
      Session.update (·.define t (data a))
      pure t) fun t s' => u.StandsFor s' id t := by
  have hreserve : u.Writes s (reserveInstance ⟨.declared id, []⟩) fun t s' =>
      s'.Has t ∧ (s'.data t).shown = [] ∧ (s'.data t).inline? = none := by
    refine (push_writes (d := .reserved) hs (fun x hx => by cases hx)
      fun _ _ _ _ h => by cases h).bind fun t s₁ h₁ hkeeps ⟨ht, hdata⟩ => ?_
    have hshown : (s₁.data t).shown = [] ∧ (s₁.data t).inline? = none := by
      rw [hdata]
      exact ⟨rfl, rfl⟩
    intro t' s₂ hrun
    cases hrun
    exact ⟨⟨h₁.record (standsFor_of_nothing ht hshown.1 hshown.2 id).keptAs,
      Written.keepsTexts_record s₁ _ t⟩, ht, hshown⟩
  refine hreserve.bind fun t s₁ h₁ _ ⟨ht, hnothing⟩ => ?_
  refine (hparts s₁ h₁).bind fun a s₂ h₂ hkeeps _ => ?_
  intro t' s₃ hrun
  cases hrun
  have ht₂ := hkeeps.has ht
  have hshown₂ : (data a).shown = (s₂.data t).shown := by
    rw [hkeeps.shown t ht, hnothing.1, (hshown a).1]
  have hinline₂ : (data a).inline? = (s₂.data t).inline? := by
    rw [hkeeps.inline t ht, hnothing.2, (hshown a).2]
  have hdata : (s₂.define t (data a)).data t = data a := by
    rw [Interner.data_define ht₂, if_pos rfl]
  have hhas : (s₂.define t (data a)).Has t := (Interner.has_modifySlot s₂ t _).2 ht₂
  have hstands : u.StandsFor (s₂.define t (data a)) id t := by
    refine standsFor_of_nothing hhas ?_ ?_ id
    · rw [hdata, (hshown a).1]
    · rw [hdata, (hshown a).2]
  exact ⟨⟨h₂.define ht₂ hshown₂ hinline₂ (hclosed a),
    Written.keepsTexts_define ht₂ hshown₂ hinline₂⟩, hstands⟩

/-- An alias without a handle of its own shows what its body shows. -/
theorem expandTransparent_writes {self : Resolver} (hself : u.Transcribes self) (hs : u.Written s)
    {id : DeclarationId} {d : Declaration} {body : TypeExpr} (hd : u.declaration? id = some d)
    (hbody : d.body = .typeAlias body) (hopen : body.isStructure = false) (name : String) :
    u.Writes s (expandTransparent self name ⟨.declared id, []⟩ ⟨id.unit, []⟩ body)
      fun t s' => u.StandsFor s' id t := by
  unfold expandTransparent
  refine .query_bind ?_
  by_cases hagain : s.expanding.contains ⟨.declared id, []⟩ = true
  · rw [if_pos hagain]
    refine After.mono (intern_writes hs fun x hx => by cases hx) fun t s' ⟨hs', ht, hdata⟩ =>
      ⟨hs', standsFor_of_nothing ht ?_ ?_ id⟩
    · rw [hdata]
      rfl
    · rw [hdata]
      rfl
  rw [if_neg hagain]
  have hexpand : u.Writes s (Session.update fun s =>
      { s with expanding := ⟨.declared id, []⟩ :: s.expanding }) fun _ _ => True := by
    rintro _ _ hrun
    cases hrun
    exact ⟨⟨hs.of_slots_eq rfl fun _ _ h => .inl h, ⟨Nat.le_refl _, fun _ _ => rfl, fun _ _ => rfl⟩⟩,
      trivial⟩
  refine hexpand.bind fun _ s₁ h₁ _ _ => ?_
  refine (hself s₁ ⟨id.unit, []⟩ body h₁ rfl).bind fun t s₂ h₂ _ ht => ?_
  have hstands : u.StandsFor s₂ id t := fun p hshows => ht.steps (hshows d body hd hbody hopen)
  have hdrop : u.Written { s₂ with expanding := s₂.expanding.drop 1 } :=
    h₂.of_slots_eq rfl fun _ _ h => .inl h
  intro t' s₃ hrun
  cases hrun
  exact ⟨⟨hdrop.record hstands.keptAs, ⟨Nat.le_refl _, fun _ _ => rfl, fun _ _ => rfl⟩⟩, hstands⟩

theorem expandAlias_writes {self : Resolver} (hself : u.Transcribes self) (hs : u.Written s)
    {id : DeclarationId} {d : Declaration} {body : TypeExpr} (hd : u.declaration? id = some d)
    (hbody : d.body = .typeAlias body) (name : String) :
    u.Writes s (expandAlias self name [] id.unit body ⟨.declared id, []⟩)
      fun t s' => u.StandsFor s' id t := by
  have hall : ∀ (es : List TypeExpr) s', u.Written s' →
      u.Writes s' (es.mapM (self ⟨id.unit, []⟩)) fun _ _ => True := fun es s' hs' =>
    (hself.mapM hs' (show (⟨id.unit, []⟩ : Scope).params = [] from rfl) es).mono fun _ _ _ => trivial
  unfold expandAlias
  refine .query_bind ?_
  cases hfound : s.instance? ⟨.declared id, []⟩ with
  | some t => exact .pure hs fun p hshows => (hs.instances _ t hfound).1 id p rfl hshows
  | none =>
    have htransparent := expandTransparent_writes hself hs hd hbody
    cases body with
    | union branches =>
      exact reserveInstance_writes hs id _ (fun ts => .namedUnion _ ts) (hall branches)
        (fun ts => ⟨rfl, rfl⟩) fun _ _ _ _ _ h => by cases h
    | object members indexes =>
      refine reserveInstance_writes hs id (pure ())
        (fun _ => .object _ (.literal members indexes ⟨id.unit, []⟩))
        (fun s' hs' => .pure hs' trivial) (fun _ => ⟨rfl, rfl⟩) fun _ _ _ _ _ h => ?_
      cases h
      rfl
    | intersection parts =>
      exact reserveInstance_writes hs id _ (fun ts => .object _ (.intersection ts)) (hall parts)
        (fun ts => ⟨rfl, rfl⟩) fun _ _ _ _ _ h => by cases h
    | name n => exact htransparent rfl name
    | generic n es => exact htransparent rfl name
    | array e => exact htransparent rfl name
    | literal value => exact htransparent rfl name

theorem instantiate_writes (hu : u.Monomorphic) {self : Resolver} (hself : u.Transcribes self)
    (hs : u.Written s) {id : DeclarationId} {d : Declaration} (hd : u.declaration? id = some d)
    (args : List TypeId) :
    u.Writes s (u.instantiate self id args) fun t s' => u.StandsFor s' id t := by
  by_cases hkind : DeclarationBody.kind d.body = .typeAlias
  · obtain ⟨body, hbody⟩ := kind_eq_typeAlias hkind
    rw [instantiate_alias hu self hd hbody]
    exact expandAlias_writes hself hs hd hbody d.name
  · rw [instantiate_reference hu self hd hkind]
    refine After.mono (intern_writes hs fun x hx => by cases hx) fun t s' ⟨hs', ht, hdata⟩ =>
      ⟨hs', standsFor_of_nothing ht ?_ ?_ id⟩
    · rw [hdata]
      rfl
    · rw [hdata]
      rfl

/-! ## Expressions -/

/-- The expression is the name, perhaps with arguments. -/
inductive IsNameOf (name : String) : TypeExpr → List TypeExpr → Prop
  | plain : IsNameOf name (.name name) []
  | generic (args : List TypeExpr) : IsNameOf name (.generic name args) args

theorem IsNameOf.shows_alias {name : String} {e : TypeExpr} {args : List TypeExpr}
    (h : IsNameOf name e args) (hreserved : ¬ IsReserved name) {unit : Nat} {id : DeclarationId}
    (hfind : u.find? name unit = some id) {d : Declaration} {body : TypeExpr}
    (hd : u.declaration? id = some d) (hbody : d.body = .typeAlias body)
    (hopen : body.isStructure = false) : u.Shows ⟨unit, e⟩ ⟨id.unit, body⟩ := by
  cases h with
  | plain => exact .expanded hreserved hfind hd hbody hopen
  | generic args => exact .expandedGeneric hreserved hfind hd hbody hopen

theorem IsNameOf.shows_argument {name : String} {e : TypeExpr} {args : List TypeExpr}
    (h : IsNameOf name e args) {unit : Nat} (hfind : u.find? name unit = none) {b : Builtin}
    (hbuiltin : Builtin.ofName? name = some b) {arg : TypeExpr}
    (harg : arg ∈ args.take b.shownArguments) : u.Shows ⟨unit, e⟩ ⟨unit, arg⟩ := by
  cases h with
  | plain => rw [List.take_nil] at harg; cases harg
  | generic args => exact .argument hfind hbuiltin harg

theorem resolveName_writes (hu : u.Monomorphic) {self : Resolver} (hself : u.Transcribes self)
    (hs : u.Written s) {scope : Scope} (hscope : scope.params = []) {name : String} {e : TypeExpr}
    {args : List TypeExpr} (hname : IsNameOf name e args) :
    u.Writes s (u.resolveName self scope name args)
      fun t s' => u.WrittenAs s' ⟨scope.unit, e⟩ t := by
  have hparam : (if args.isEmpty then scope.params.find? (·.1 == name) else none) = none := by
    rw [hscope, List.find?_nil, ite_self]
  unfold resolveName
  rw [hparam]
  dsimp only
  cases hintrinsic : Intrinsic.ofName? name with
  | some i => exact leaf_writesAs hs rfl
  | none =>
    dsimp only
    by_cases htrue : name = "true"
    · rw [if_pos htrue]
      exact leaf_writesAs hs rfl
    rw [if_neg htrue]
    by_cases hfalse : name = "false"
    · rw [if_pos hfalse]
      exact leaf_writesAs hs rfl
    rw [if_neg hfalse]
    have hreserved : ¬ IsReserved name := by
      rintro (h | h | h)
      · exact h hintrinsic
      · exact htrue h
      · exact hfalse h
    refine (hself.mapM hs hscope args).bind fun ts s₁ h₁ _ hts => ?_
    cases hfind : u.find? name scope.unit with
    | some id =>
      obtain ⟨d, hmem, -⟩ := mem_declarations_of_find? hfind
      refine (instantiate_writes hu hself h₁ (mem_declarations_iff.1 hmem) ts).mono
        fun t s' hstands => hstands _ fun d' body hd hbody hopen => ?_
      exact .single (hname.shows_alias hreserved hfind hd hbody hopen)
    | none =>
      cases hbuiltin : Builtin.ofName? name with
      | some b =>
        refine builtinType_writes h₁ b fun x hx => ?_
        obtain ⟨arg, harg, hwritten⟩ := forall₂_mem_right (List.forall₂_take b.shownArguments hts) hx
        exact hwritten.step (hname.shows_argument hfind hbuiltin harg)
      | none => exact leaf_writesAs h₁ rfl

theorem resolveStep_transcribes (hu : u.Monomorphic) {self : Resolver}
    (hself : u.Transcribes self) : u.Transcribes (u.resolveStep self) := by
  intro s scope e hs hscope
  cases e with
  | name n => exact resolveName_writes hu hself hs hscope .plain
  | generic n args => exact resolveName_writes hu hself hs hscope (.generic args)
  | array e =>
    refine (hself s scope e hs hscope).bind fun t s₁ h₁ _ ht => intern_writesAs h₁ fun x hx => ?_
    rw [List.mem_singleton.1 hx]
    exact ht.step .element
  | union branches =>
    refine (hself.mapM hs hscope branches).bind fun ts s₁ h₁ _ hts => intern_writesAs h₁ fun x hx => ?_
    obtain ⟨e, he, hx⟩ := forall₂_mem_right hts hx
    exact hx.step (.branch he)
  | intersection parts =>
    refine (hself.mapM hs hscope parts).bind fun ts s₁ h₁ _ hts => ?_
    have hparts : ∀ x ∈ ts, u.WrittenAs s₁ ⟨scope.unit, .intersection parts⟩ x := by
      intro x hx
      obtain ⟨e, he, hx⟩ := forall₂_mem_right hts hx
      exact hx.step (.part he)
    refine After.mono (newObject_writes h₁ (fun x hx => (hparts x hx).1) fun _ _ _ h => by cases h)
      fun t s' ⟨⟨hs', hkeeps⟩, ht, hdata⟩ => ⟨⟨hs', hkeeps⟩, .of_shown ht ?_ fun x hx => ?_⟩
    · rw [hdata]
      rfl
    · rw [hdata] at hx
      exact (hparts x hx).kept hs'.earlier hkeeps
  | literal value => exact leaf_writesAs hs rfl
  | object members indexes =>
    refine After.mono (newObject_writes hs (fun x hx => by cases hx) fun _ _ _ h => ?_)
      fun t s' ⟨hs', ht, hdata⟩ => ⟨hs', .of_inline ht ?_⟩
    · cases h
      exact hscope
    · rw [hdata]
      rfl

/-- **A type shows the inline objects that its expression shows.** -/
theorem resolve_transcribes (hu : u.Monomorphic) : ∀ fuel, u.Transcribes (u.resolve fuel)
  | 0 => fun _ _ _ _ _ _ _ h => by cases h
  | fuel + 1 => resolveStep_transcribes hu (resolve_transcribes hu fuel)

/-! ## Members and index signatures

The members of an inline object come from its own texts.  Those of other types need not be
followed, as no text goes on with them. -/

/-- The types of the members show what one of the expressions shows that stand for them. -/
def MembersWritten (u : Universe) (s : Interner) (q : Spot) (ms : List TypeMember) : Prop :=
  ∀ m ∈ ms, ∀ x, m.type = some x → ∃ q', q.HasMember q' ∧ u.WrittenAs s q' x

theorem resolveMembers_writes {self : Resolver} (hself : u.Transcribes self) (hs : u.Written s)
    {scope : Scope} (hscope : scope.params = []) (members : List Member) (indexes : List Index) :
    u.Writes s (resolveMembers self scope members)
      fun ms s' => u.MembersWritten s' ⟨scope.unit, .object members indexes⟩ ms := by
  unfold resolveMembers
  refine (Writes.mapM (P := fun _ m s => ∀ x, m.type = some x →
    ∃ q', Spot.HasMember ⟨scope.unit, .object members indexes⟩ q' ∧ u.WrittenAs s q' x) hs
    ?_ members fun m hm s' hs' => ?_).mono fun ms s' hms m' hm' => ?_
  · intro a m s s' hs' hkeeps h x hx
    obtain ⟨q', hmember, hwritten⟩ := h x hx
    exact ⟨q', hmember, hwritten.kept hs'.earlier hkeeps⟩
  · have htype : u.Writes s' (memberType self scope m) fun found s' => ∀ x, found = some x →
        ∃ q', Spot.HasMember ⟨scope.unit, .object members indexes⟩ q' ∧ u.WrittenAs s' q' x := by
      unfold memberType
      split
      · rename_i e hmethod htype
        refine After.map (After.mono (hself s' scope e hs' hscope) fun t s'' ⟨hs'', ht⟩ => ⟨hs'', ?_⟩)
        intro x hx
        cases hx
        exact ⟨_, .mk hm hmethod htype, ht⟩
      · exact .pure hs' fun x hx => by cases hx
    exact htype.bind fun found s₁ h₁ _ hfound => .pure h₁ hfound
  · obtain ⟨m, -, h⟩ := forall₂_mem_right hms hm'
    exact h

theorem resolveIndexes_writes {self : Resolver} (hself : u.Transcribes self) (hs : u.Written s)
    {scope : Scope} (hscope : scope.params = []) (indexes : List Index) :
    u.Writes s (resolveIndexes self scope indexes) fun _ _ => True := by
  unfold resolveIndexes
  refine .mapM_any hs indexes fun x s' hs' => ?_
  refine (hself s' scope x.key hs' hscope).bind fun key s₁ h₁ _ _ => ?_
  exact (hself s₁ scope x.value h₁ hscope).bind fun value s₂ h₂ _ _ => .pure h₂ trivial

theorem interface?_params (hu : u.Monomorphic) {data : TypeData} {scope : Scope}
    {bases : List TypeExpr} {members : List Member} {indexes : List Index}
    (h : u.interface? data = some (scope, bases, members, indexes)) : scope.params = [] := by
  obtain ⟨id, d, args, -, hd, -, rfl⟩ := exists_interface h
  rw [typeParams_eq_nil hu hd]
  rfl

theorem bases_writes {α : Type} {self : Resolver} (hself : u.Transcribes self) (hs : u.Written s)
    {scope : Scope} (hscope : scope.params = []) {ask : TypeId → Session α}
    (hask : ∀ t s', u.Written s' → u.Writes s' (ask t) fun _ _ => True) (bases : List TypeExpr) :
    u.Writes s (bases.mapM fun base => do ask (← self scope base)) fun _ _ => True :=
  .mapM_any hs bases fun base s' hs' =>
    (hself s' scope base hs' hscope).bind fun t s₁ h₁ _ _ => hask t s₁ h₁

theorem interface?_of_inline? {d : TypeData} {q : Spot} (h : d.inline? = some q) :
    u.interface? d = none := by
  unfold TypeData.inline? at h
  split at h
  · rfl
  · cases h

theorem computeMembers_writes (hu : u.Monomorphic) {self : Resolver} (hself : u.Transcribes self)
    (hs : u.Written s) {membersOf : TypeId → Session (List TypeMember)}
    (hof : ∀ t s', u.Written s' → u.Writes s' (membersOf t) fun _ _ => True) (t : TypeId) :
    u.Writes s (u.computeMembers self membersOf t)
      fun ms s' => ∀ q, (s.data t).inline? = some q → u.MembersWritten s' q ms := by
  unfold computeMembers
  refine .query_bind ?_
  cases hinterface : u.interface? (s.data t) with
  | some found =>
    obtain ⟨scope, bases, members, indexes⟩ := found
    have hscope := interface?_params hu hinterface
    refine (resolveMembers_writes hself hs hscope members []).bind fun own s₁ h₁ _ _ => ?_
    refine (bases_writes hself h₁ hscope hof bases).bind fun inherited s₂ h₂ _ _ => ?_
    refine .pure h₂ fun q hq => ?_
    rw [interface?_of_inline? hq] at hinterface
    cases hinterface
  | none =>
    dsimp only
    cases hdata : s.data t with
    | object origin shape =>
      cases shape with
      | literal members indexes scope =>
        have hscope := hs.closed t origin members indexes scope hdata
        refine (resolveMembers_writes hself hs hscope members indexes).mono fun ms s' hms q hq => ?_
        cases origin with
        | none =>
          cases hq
          exact hms
        | some inst => cases hq
      | intersection parts =>
        refine (Writes.mapM_any hs parts hof).bind fun lists s₁ h₁ _ _ => .pure h₁ fun q hq => ?_
        cases origin <;> cases hq
      | record key value =>
        refine .query_bind (.pure hs fun q hq => ?_)
        cases origin <;> cases hq
    | form | namedUnion | reserved => exact .pure hs fun q hq => by cases hq

theorem MembersWritten.kept {q : Spot} {ms : List TypeMember} {s' : Interner}
    (h : u.MembersWritten s q ms) (hs' : u.Written s') (hkeeps : s.KeepsTexts s') :
    u.MembersWritten s' q ms := by
  intro m hm x hx
  obtain ⟨q', hmember, hwritten⟩ := h m hm x hx
  exact ⟨q', hmember, hwritten.kept hs'.earlier hkeeps⟩

/-- **The members of an inline object show what they are written as.** -/
theorem members_writes (hu : u.Monomorphic) : ∀ (fuel : Nat) (t : TypeId) (s : Interner),
    u.Written s → u.Writes s (u.members fuel t)
      fun ms s' => ∀ q, (s.data t).inline? = some q → u.MembersWritten s' q ms
  | 0, _, _, _ => fun _ _ h => by cases h
  | fuel + 1, t, s, hs => by
    by_cases ht : s.Has t
    case neg =>
      rintro ms s' hrun
      rw [members_of_not_has ht] at hrun
      cases hrun
      exact ⟨⟨hs, .refl s⟩, fun q hq m hm => by cases hm⟩
    rw [members]
    refine .query_bind ?_
    cases hkept : s.members? t with
    | some ms => exact .pure hs fun q hq => hs.members t q ms hq hkept
    | none =>
      have hfirst : u.Written (s.setMembers t []) := hs.setMembers fun _ _ m hm => by cases hm
      have hempty := Written.keepsTexts_modifySlot (Interner.data_setMembers s t [])
      have hof : ∀ t s', u.Written s' → u.Writes s' (u.members fuel t) fun _ _ => True :=
        fun t s' hs' => (members_writes hu fuel t s' hs').mono fun _ _ _ => trivial
      rintro ms s₂ hrun
      obtain ⟨⟨⟩, s₁, hrun₁, hrun⟩ := bind_eq_some.1 hrun
      cases hrun₁
      obtain ⟨ms', s₁, hrun₁, hrun⟩ := bind_eq_some.1 hrun
      cases hrun
      obtain ⟨⟨h₁, hkeeps⟩, hms⟩ :=
        computeMembers_writes hu (resolve_transcribes hu fuel) hfirst hof t ms s₁ hrun₁
      rw [Interner.data_setMembers] at hms
      have hlast := Written.keepsTexts_modifySlot (Interner.data_setMembers s₁ t ms)
      have h₂ : u.Written (s₁.setMembers t ms) := h₁.setMembers fun q hq => by
        rw [(hempty.trans hkeeps).inline t ht] at hq
        exact hms q hq
      exact ⟨⟨h₂, (hempty.trans hkeeps).trans hlast⟩, fun q hq => (hms q hq).kept h₂ hlast⟩

theorem computeIndexes_writes (hu : u.Monomorphic) {self : Resolver} (hself : u.Transcribes self)
    (hs : u.Written s) {indexesOf : TypeId → Session (List TypeIndex)}
    (hof : ∀ t s', u.Written s' → u.Writes s' (indexesOf t) fun _ _ => True) (t : TypeId) :
    u.Writes s (u.computeIndexes self indexesOf t) fun _ _ => True := by
  unfold computeIndexes
  refine .query_bind ?_
  cases hinterface : u.interface? (s.data t) with
  | some found =>
    obtain ⟨scope, bases, members, indexes⟩ := found
    have hscope := interface?_params hu hinterface
    refine (resolveIndexes_writes hself hs hscope indexes).bind fun own s₁ h₁ _ _ => ?_
    exact (bases_writes hself h₁ hscope hof bases).bind fun inherited s₂ h₂ _ _ => .pure h₂ trivial
  | none =>
    dsimp only
    cases hdata : s.data t with
    | object origin shape =>
      cases shape with
      | literal members indexes scope =>
        exact resolveIndexes_writes hself hs (hs.closed t origin members indexes scope hdata) indexes
      | intersection parts =>
        exact (Writes.mapM_any hs parts hof).bind fun lists s₁ h₁ _ _ => .pure h₁ trivial
      | record key value =>
        refine .query_bind ?_
        cases literalKeys? s key with
        | some names => exact .pure hs trivial
        | none => exact .pure hs trivial
    | form | namedUnion | reserved => exact .pure hs trivial

theorem indexes_writes (hu : u.Monomorphic) : ∀ (fuel : Nat) (t : TypeId) (s : Interner),
    u.Written s → u.Writes s (u.indexes fuel t) fun _ _ => True
  | 0, _, _, _ => fun _ _ h => by cases h
  | fuel + 1, t, s, hs => by
    rw [indexes]
    refine .query_bind ?_
    cases s.indexes? t with
    | some is => exact .pure hs trivial
    | none =>
      have hwrite : ∀ (is : List TypeIndex) {s' : Interner}, u.Written s' →
          u.Writes s' (Session.update (·.setIndexes t is)) fun _ _ => True := by
        rintro is s' hs' _ _ hrun
        cases hrun
        exact ⟨⟨hs'.setIndexes is, Written.keepsTexts_modifySlot (Interner.data_setIndexes s' t is)⟩,
          trivial⟩
      refine (hwrite [] hs).bind fun _ s₁ h₁ _ _ => ?_
      refine (computeIndexes_writes hu (resolve_transcribes hu fuel) h₁ (indexes_writes hu fuel) t).bind
        fun is s₂ h₂ _ _ => ?_
      exact (hwrite is h₂).bind fun _ s₃ h₃ _ _ => .pure h₃ trivial

/-! ## Questions

Only looking changes the table, so the invariant passes from looks to all questions. -/

theorem written_of_looks (hu : u.Monomorphic) {s s' : Interner} (hs : u.Written s)
    (h : u.Looks s s') : u.Written s' ∧ s.KeepsTexts s' := by
  cases h with
  | @instantiate fuel id d t hd run =>
    exact (instantiate_writes hu (resolve_transcribes hu fuel) hs hd [] t s' run).1
  | @members fuel t ms run => exact (members_writes hu fuel t s hs ms s' run).1
  | @indexes fuel t is run => exact (indexes_writes hu fuel t s hs is s' run).1

/-- **Every table that questions lead to keeps to the declarations.** -/
theorem written_of_reaches (hu : u.Monomorphic) (h : u.Reaches u.start s) : u.Written s := by
  refine reaches_induction (fun s s' hs hlooks => (written_of_looks hu hs hlooks).1) ?_ h
  refine start_induction (.empty u) fun s id position d hd hposition _ => ?_
  rw [typeParams_eq_nil hu hd] at hposition
  cases hposition

end Universe
end TypedJson
