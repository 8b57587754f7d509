import TypedJson.Proofs.Lookup
/-!
# Resolution leaves nothing unresolved without a reason

A type is left unresolved in two places: where a name stands for nothing, and where a
transparent alias is met again while it is being expanded.  So the table is grounded
(`Universe.Grounded`) if each of its unresolved types has one of these reasons, and if the
texts that it keeps for later are parts of declarations.  Resolution keeps it so, as long as
the aliases under way lead to whatever is looked up (`resolve_grounds`): an alias that is met
again then leads back to itself.

What is under way is part of the table (`expanding`), and every computation here leaves it
as it found it.  So the invariant of the recursion has two parts: the table is grounded, and
the aliases under way lead to every name that the present text looks up.  The second part is
what turns a name that is met again into a circle, and it is handed down from an alias to
its body by `guarded_body`.
-/
namespace TypedJson
namespace Universe

variable {u : Universe}

/-- The name is left unresolved for a reason. -/
def Degrades (u : Universe) (n : String) : Prop := u.Unknown n ∨ u.Circular n

/-- There is a reason for the type if it is unresolved, and the texts that it keeps are parts
of declarations. -/
def Explained (u : Universe) : TypeData → Prop
  | .form (.unresolved n) => u.Degrades n
  | .form (.reference ⟨.declared id, args⟩) =>
    ∀ d, u.declaration? id = some d → args.length = d.typeParams.length
  | .object _ (.literal members indexes scope) => u.Within scope (.object members indexes)
  | _ => True

/-- No type is left unresolved without a reason, and no alias with a handle of its own is. -/
structure Grounded (u : Universe) (s : Interner) : Prop where
  data : ∀ t, u.Explained (s.data t)
  named : ∀ inst t id d, (inst, t) ∈ s.instances → inst.symbol = .declared id →
    u.declaration? id = some d → ¬ d.IsTransparent →
    s.Has t ∧ ∀ n, s.data t ≠ .form (.unresolved n)

namespace Grounded

variable {s : Interner}

theorem empty (u : Universe) : u.Grounded .empty where
  data := fun _ => trivial
  named := fun _ _ _ _ h => by cases h

theorem push (h : u.Grounded s) {d : TypeData} (hd : u.Explained d) : u.Grounded (s.push d).2 where
  data := by
    intro t
    rw [Interner.data_push]
    split
    · exact hd
    · exact h.data t
  named := by
    intro inst t id d' hinst hid hd' hnamed
    obtain ⟨ht, hdata⟩ := h.named inst t id d' hinst hid hd' hnamed
    refine ⟨(Interner.Grows.push s d).has ht, ?_⟩
    rw [(Interner.Grows.push s d).data t ht]
    exact hdata

theorem define (h : u.Grounded s) {t : TypeId} (ht : s.Has t) {d : TypeData}
    (hd : u.Explained d) (hnot : ∀ n, d ≠ .form (.unresolved n)) : u.Grounded (s.define t d) where
  data := by
    intro x
    rw [Interner.data_define ht]
    split
    · exact hd
    · exact h.data x
  named := by
    intro inst x id d' hinst hid hd' hnamed
    obtain ⟨hx, hdata⟩ := h.named inst x id d' hinst hid hd' hnamed
    refine ⟨(Interner.has_modifySlot s t _).2 hx, ?_⟩
    rw [Interner.data_define ht]
    split
    · exact hnot
    · exact hdata

theorem of_data_eq (h : u.Grounded s) {s' : Interner} (hdata : ∀ t, s'.data t = s.data t)
    (hhas : ∀ t, s.Has t → s'.Has t)
    (hinst : ∀ inst t id d, (inst, t) ∈ s'.instances → inst.symbol = .declared id →
      u.declaration? id = some d → ¬ d.IsTransparent → (inst, t) ∈ s.instances) :
    u.Grounded s' where
  data := fun t => by rw [hdata]; exact h.data t
  named := by
    intro inst t id d hmem hid hd hnamed
    obtain ⟨ht, hne⟩ := h.named inst t id d (hinst inst t id d hmem hid hd hnamed) hid hd hnamed
    exact ⟨hhas t ht, by rw [hdata]; exact hne⟩

theorem expanding (h : u.Grounded s) (is : List Instance) : u.Grounded { s with expanding := is } :=
  h.of_data_eq (fun _ => rfl) (fun _ ht => ht) fun _ _ _ _ hmem _ _ _ => hmem

theorem setMembers (h : u.Grounded s) (t : TypeId) (ms : List TypeMember) :
    u.Grounded (s.setMembers t ms) :=
  h.of_data_eq (Interner.data_setMembers s t ms) (fun _ ht => (Interner.has_modifySlot s t _).2 ht)
    fun _ _ _ _ hmem _ _ _ => hmem

theorem setIndexes (h : u.Grounded s) (t : TypeId) (is : List TypeIndex) :
    u.Grounded (s.setIndexes t is) :=
  h.of_data_eq (Interner.data_setIndexes s t is) (fun _ ht => (Interner.has_modifySlot s t _).2 ht)
    fun _ _ _ _ hmem _ _ _ => hmem

theorem record (h : u.Grounded s) {inst : Instance} (t : TypeId)
    (hinst : ∀ id d, inst.symbol = .declared id → u.declaration? id = some d → d.IsTransparent) :
    u.Grounded (s.record inst t) := by
  refine h.of_data_eq (fun _ => rfl) (fun _ ht => ht) fun inst' t' id d hmem hid hd hnamed => ?_
  rcases List.mem_cons.1 hmem with heq | hmem
  · cases heq
    exact absurd (hinst id d hid hd) hnamed
  · exact hmem

/-- The handle of an alias is noted while it is still open. -/
theorem reserve (h : u.Grounded s) (inst : Instance) :
    u.Grounded ((s.push .reserved).2.record inst (s.push .reserved).1) where
  data := (h.push (d := .reserved) trivial).data
  named := by
    intro inst' t id d hmem hid hd hnamed
    rcases List.mem_cons.1 hmem with heq | hmem
    · cases heq
      refine ⟨?_, fun n hn => ?_⟩
      · exact Interner.has_push_new s .reserved
      · have hopen : (s.push .reserved).2.data ⟨s.slots.size⟩ = .reserved :=
          Interner.data_push_new s .reserved
        have hn : (s.push .reserved).2.data ⟨s.slots.size⟩ = .form (.unresolved n) := hn
        rw [hopen] at hn
        cases hn
    · exact (h.push (d := .reserved) trivial).named inst' t id d hmem hid hd hnamed

end Grounded

/-! ## Computations

`Keeps` is a triple like `Yields`, for the other invariant.  It says nothing of the answer;
where that is needed, `bind_of` takes it from a triple that does. -/

/-- The computation keeps the table grounded, keeps its handles, and ends every expansion that
it begins. -/
def Keeps (u : Universe) (s : Interner) (m : Session α) : Prop :=
  After s m fun _ s' => u.Grounded s' ∧ s'.expanding = s.expanding ∧ ∀ t, s.Has t → s'.Has t

namespace Keeps

variable {α β : Type} {s : Interner}

theorem pure (hs : u.Grounded s) (a : α) : u.Keeps s (Pure.pure a) :=
  After.pure ⟨hs, rfl, fun _ ht => ht⟩

theorem bind_of {m : Session α} {f : α → Session β} {P : α → Interner → Prop} (hm : u.Keeps s m)
    (hP : After s m P) (hf : ∀ a s', u.Grounded s' → s'.expanding = s.expanding → P a s' →
      u.Keeps s' (f a)) : u.Keeps s (m >>= f) := by
  intro b s₂ hrun
  obtain ⟨a, s₁, hrun₁, hrun₂⟩ := bind_eq_some.1 hrun
  obtain ⟨h₁, he₁, hhas₁⟩ := hm a s₁ hrun₁
  obtain ⟨h₂, he₂, hhas₂⟩ := hf a s₁ h₁ he₁ (hP a s₁ hrun₁) b s₂ hrun₂
  exact ⟨h₂, he₂.trans he₁, fun t ht => hhas₂ t (hhas₁ t ht)⟩

theorem bind {m : Session α} {f : α → Session β} (hm : u.Keeps s m)
    (hf : ∀ a s', u.Grounded s' → s'.expanding = s.expanding → u.Keeps s' (f a)) :
    u.Keeps s (m >>= f) :=
  bind_of (P := fun _ _ => True) hm (fun _ _ _ => trivial) fun a s' h he _ => hf a s' h he

theorem map {m : Session α} (f : α → β) (hm : u.Keeps s m) : u.Keeps s (f <$> m) := After.map hm

theorem mapM {f : α → Session β} : ∀ (as : List α) {s : Interner} (_ : u.Grounded s)
    (_ : ∀ a ∈ as, ∀ s', u.Grounded s' → s'.expanding = s.expanding → u.Keeps s' (f a)),
    u.Keeps s (as.mapM f)
  | [], _, hs, _ => by
    rw [List.mapM_nil]
    exact pure hs []
  | a :: as, s, hs, hf => by
    rw [List.mapM_cons]
    refine bind (hf a List.mem_cons_self s hs rfl) fun b s₁ h₁ he₁ => ?_
    refine bind (mapM as h₁ fun x hx s' h' he' => ?_) fun bs s₂ h₂ _ => pure h₂ _
    exact hf x (List.mem_cons_of_mem a hx) s' h' (he'.trans he₁)

theorem query_bind (f : Interner → α) {g : α → Session β} (h : u.Keeps s (g (f s))) :
    u.Keeps s (Session.query f >>= g) := by
  intro b s' hrun
  rw [Session.query_bind] at hrun
  exact h b s' hrun

theorem intern (hs : u.Grounded s) {f : Form} (hf : u.Explained (.form f)) :
    u.Keeps s (Session.intern f) := by
  intro t s' hrun
  rcases intern_cases hrun with ⟨-, rfl⟩ | ⟨-, -, rfl⟩
  · exact ⟨hs, rfl, fun _ ht => ht⟩
  · exact ⟨hs.push hf, rfl, fun _ ht => (Interner.Grows.push s _).has ht⟩

theorem newObject (hs : u.Grounded s) {origin : Option Instance} {shape : Shape}
    (h : u.Explained (.object origin shape)) : u.Keeps s (newObject origin shape) := by
  intro t s' hrun
  rw [newObject_eq] at hrun
  cases hrun
  exact ⟨hs.push h, rfl, fun x hx => (Interner.Grows.push s _).has hx⟩

/-- The handle of an alias is reserved, its parts are resolved, and it is filled in. -/
theorem reserveInstance (hs : u.Grounded s) (inst : Instance) {parts : Session α}
    (data : α → TypeData)
    (hparts : ∀ s', u.Grounded s' → s'.expanding = s.expanding → u.Keeps s' parts)
    (hdata : ∀ a, u.Explained (data a)) (hnot : ∀ a n, data a ≠ .form (.unresolved n)) :
    u.Keeps s (do
      let t ← reserveInstance inst
      let a ← parts
      Session.update (·.define t (data a))
      Pure.pure t) := by
  intro t s₂ hrun
  obtain ⟨a, s₃, hrun₃, rfl, rfl⟩ := reserveInstance_cases hrun
  obtain ⟨h₃, he₃, hhas₃⟩ := hparts _ (hs.reserve inst) rfl a s₃ hrun₃
  have hopen : (s.push .reserved).2.Has ⟨s.slots.size⟩ := Interner.has_push_new s .reserved
  refine ⟨h₃.define (hhas₃ _ hopen) (hdata a) (hnot a), he₃, fun x hx => ?_⟩
  exact (Interner.has_modifySlot _ _ _).2 (hhas₃ x ((Interner.Grows.push s _).has hx))

end Keeps

/-! ## Resolution

One lemma for each function of the resolver.  Only two of them leave something unresolved:
`resolveName`, for a name that is not found, and `expandTransparent`, for an alias that is
under way.  All others hand the reasons on. -/

section Resolution

variable {s : Interner}

/-- In a grounded table the resolver may be asked for a part of a declaration if the aliases
under way lead to what it looks up. -/
def Grounds (u : Universe) (self : Resolver) : Prop :=
  ∀ s scope e, u.Grounded s → u.Within scope e → u.Guarded s.expanding scope e →
    u.Keeps s (self scope e)

/-- The parts of an expression are resolved in turn. -/
theorem Grounds.mapM {self : Resolver} (hself : u.Grounds self) (hs : u.Grounded s) {scope : Scope}
    {es : List TypeExpr} (hwithin : ∀ e ∈ es, u.Within scope e)
    (hguarded : ∀ e ∈ es, u.Guarded s.expanding scope e) : u.Keeps s (es.mapM (self scope)) :=
  Keeps.mapM es hs fun e he s' h' he' =>
    hself s' scope e h' (hwithin e he) (by rw [he']; exact hguarded e he)

theorem argumentOr_keeps (hs : u.Grounded s) (i : Intrinsic) (given : Option TypeId) :
    u.Keeps s (argumentOr i given) := by
  cases given with
  | some t => exact .pure hs t
  | none => exact .intern hs trivial

theorem recordType_keeps (hs : u.Grounded s) (key value : TypeId) :
    u.Keeps s (recordType key value) := by
  intro t s' hrun
  rcases recordType_cases hrun with ⟨-, rfl⟩ | ⟨-, rfl, rfl⟩
  · exact ⟨hs, rfl, fun _ ht => ht⟩
  · have hkeeps : u.Keeps s
        (newObject (some ⟨.builtin .record, [key, value]⟩) (.record key value)) :=
      .newObject hs trivial
    obtain ⟨h₁, hexpanding, hhas⟩ := hkeeps _ _ (newObject_eq _ _ s)
    exact ⟨h₁.record _ (fun _ _ h => by cases h), hexpanding, hhas⟩

theorem builtinType_keeps (hs : u.Grounded s) (b : Builtin) (args : List TypeId) :
    u.Keeps s (builtinType b args) := by
  cases b with
  | array => exact .bind (argumentOr_keeps hs _ _) fun t s₁ h₁ _ => .intern h₁ trivial
  | date | pattern => exact .intern hs trivial
  | record =>
    refine .bind (argumentOr_keeps hs _ _) fun key s₁ h₁ _ => ?_
    exact .bind (argumentOr_keeps h₁ _ _) fun value s₂ h₂ _ => recordType_keeps h₂ key value

/-- **A transparent alias is left unresolved only if it leads back to itself.** -/
theorem expandTransparent_keeps {self : Resolver} (hself : u.Grounds self) (hs : u.Grounded s)
    {id : DeclarationId} {d : Declaration} {body : TypeExpr} (hd : u.declaration? id = some d)
    (hbody : d.body = .typeAlias body) (htransparent : body.isStructure = false)
    {args : List TypeId} (hargs : args.length = d.typeParams.length)
    (hlead : u.LeadTo s.expanding id) :
    u.Keeps s (expandTransparent self d.name ⟨.declared id, args⟩
      ⟨id.unit, d.typeParams.zip args⟩ body) := by
  intro t s₂ hrun
  rcases expandTransparent_cases hrun with ⟨hagain, hrun⟩ | ⟨-, s₃, hrun₃, rfl⟩
  · -- the alias is under way, so it leads to itself
    obtain ⟨c, hc, hpath⟩ := hlead _ hagain
    cases hc
    have hexplained : u.Explained (.form (.unresolved d.name)) :=
      .inr ⟨id, d, hd, rfl, ⟨body, hbody, htransparent⟩, hpath⟩
    exact Keeps.intern hs hexplained t s₂ hrun
  · have hwithin := within_text hd hargs (e := body) (by simp [Declaration.texts, hbody])
    have hguarded := guarded_body hd hbody hargs (fun id' hm => hlead.cons hm args)
    obtain ⟨h₃, he₃, hhas₃⟩ := hself _ _ body (hs.expanding _) hwithin hguarded t s₃ hrun₃
    refine ⟨(h₃.expanding _).record t ?_, ?_, hhas₃⟩
    · rintro id' d' ⟨⟩ hd'
      rw [hd] at hd'
      cases hd'
      exact ⟨body, hbody, htransparent⟩
    · show s₃.expanding.drop 1 = s.expanding
      rw [he₃]
      rfl

/-! The two conditions on an expression are handed on to its parts: that it lies within the
texts the table is grounded in, and that what it looks up at once leads to whatever is under
way.  The members of an inline object are looked up later, when nothing is under way. -/

theorem expandAlias_keeps {self : Resolver} (hself : u.Grounds self) (hs : u.Grounded s)
    {id : DeclarationId} {d : Declaration} {body : TypeExpr} (hd : u.declaration? id = some d)
    (hbody : d.body = .typeAlias body) {args : List TypeId}
    (hargs : args.length = d.typeParams.length) (hlead : u.LeadTo s.expanding id) :
    u.Keeps s (expandAlias self d.name d.typeParams id.unit body ⟨.declared id, args⟩) := by
  have hwithin : u.Within ⟨id.unit, d.typeParams.zip args⟩ body :=
    within_text hd hargs (by simp [Declaration.texts, hbody])
  have hguarded : u.Guarded s.expanding ⟨id.unit, d.typeParams.zip args⟩ body :=
    guarded_body hd hbody hargs fun id' hm => hlead.step hm
  have hparts : ∀ (es : List TypeExpr),
      (∀ later params n, ∀ e ∈ es, e.LooksUp later params n → body.LooksUp later params n) →
      ∀ s', u.Grounded s' → s'.expanding = s.expanding →
        u.Keeps s' (es.mapM (self ⟨id.unit, d.typeParams.zip args⟩)) := by
    intro es hes s' h' he'
    refine hself.mapM h' (fun e he => hwithin.part fun params n => hes _ params n e he) fun e he => ?_
    rw [he']
    exact hguarded.part fun params n => hes _ params n e he
  unfold expandAlias
  refine .query_bind _ ?_
  split
  · exact .pure hs _
  · cases body with
    | union branches =>
      exact .reserveInstance hs _ _ (hparts branches fun _ _ _ e he hn => .branch he hn)
        (fun _ => trivial) fun _ _ h => by cases h
    | object members indexes =>
      exact .reserveInstance hs _
        (fun _ => .object (some ⟨.declared id, args⟩) (.literal members indexes _))
        (fun s' h' _ => .pure h' ()) (fun _ => hwithin) fun _ _ h => by cases h
    | intersection parts =>
      exact .reserveInstance hs _ _ (hparts parts fun _ _ _ e he hn => .part he hn)
        (fun _ => trivial) fun _ _ h => by cases h
    | name n => exact expandTransparent_keeps hself hs hd hbody rfl hargs hlead
    | generic n es => exact expandTransparent_keeps hself hs hd hbody rfl hargs hlead
    | array e => exact expandTransparent_keeps hself hs hd hbody rfl hargs hlead
    | literal value => exact expandTransparent_keeps hself hs hd hbody rfl hargs hlead

theorem missing_keeps (hs : u.Grounded s) (id : DeclarationId) (positions : List Nat) :
    u.Keeps s (positions.mapM fun position => Session.intern (.param (.param id position))) :=
  .mapM positions hs fun _ _ _ h' _ => .intern h' trivial

theorem instantiate_keeps {self : Resolver} (hself : u.Grounds self) (hs : u.Grounded s)
    {id : DeclarationId} {d : Declaration} (hd : u.declaration? id = some d) (args : List TypeId)
    (hlead : u.LeadTo s.expanding id) : u.Keeps s (u.instantiate self id args) := by
  unfold instantiate
  rw [hd]
  refine .bind_of (P := fun missing _ => missing.length =
    d.typeParams.length - (args.take d.typeParams.length).length) (missing_keeps hs id _) ?_ ?_
  · intro missing s₁ hrun
    rw [length_of_mapM hrun, List.length_drop, List.length_range]
  · intro missing s₁ h₁ he₁ hlength
    have hargs : (args.take d.typeParams.length ++ missing).length = d.typeParams.length := by
      rw [List.length_append, hlength, List.length_take]
      omega
    -- the number of arguments is what explains a reference
    have hreference : u.Explained
        (.form (.reference ⟨.declared id, args.take d.typeParams.length ++ missing⟩)) := by
      intro d' hd'
      rw [hd] at hd'
      cases hd'
      exact hargs
    cases hbody : d.body with
    | interface bases members indexes => exact .intern h₁ hreference
    | enum members => exact .intern h₁ hreference
    | typeAlias body =>
      exact expandAlias_keeps hself h₁ hd hbody hargs (by rw [he₁]; exact hlead)

theorem resolveName_keeps {self : Resolver} (hself : u.Grounds self) (hs : u.Grounded s)
    {scope : Scope} {name : String} {args : List TypeExpr}
    (hwithin : u.Within scope (.generic name args))
    (hguarded : u.Guarded s.expanding scope (.generic name args)) :
    u.Keeps s (u.resolveName self scope name args) := by
  unfold resolveName
  split
  · exact .pure hs _
  · rename_i hparam
    have hfree : args = [] → name ∉ scope.params.map (·.1) := by
      rintro rfl hmem
      obtain ⟨p, hp, rfl⟩ := List.mem_map.1 hmem
      have hnone := List.find?_eq_none.1 hparam p hp
      simp at hnone
    have hlookup (later : Bool) :
        (TypeExpr.generic name args).LooksUp later (scope.params.map (·.1)) name := .generic hfree
    split
    · exact .intern hs trivial
    · rename_i hintrinsic
      by_cases htrue : name = "true"
      · rw [if_pos htrue]
        exact .intern hs trivial
      rw [if_neg htrue]
      by_cases hfalse : name = "false"
      · rw [if_pos hfalse]
        exact .intern hs trivial
      rw [if_neg hfalse]
      have hreserved : ¬ IsReserved name := by
        rintro (h | h | h)
        · exact h hintrinsic
        · exact htrue h
        · exact hfalse h
      refine .bind (hself.mapM hs ?_ ?_) fun ts s₁ h₁ he₁ => ?_
      · exact fun e he => hwithin.part fun _ _ hn => .argument hreserved he hn
      · exact fun e he => hguarded.part fun _ _ hn => .argument hreserved he hn
      cases hfind : u.find? name scope.unit with
      | some id =>
        obtain ⟨d, hmem, -⟩ := mem_declarations_of_find? hfind
        refine instantiate_keeps hself h₁ (mem_declarations_iff.1 hmem) ts ?_
        rw [he₁]
        exact hguarded name id (hlookup false) hreserved hfind
      | none =>
        cases hbuiltin : Builtin.ofName? name with
        | some b => exact builtinType_keeps h₁ b ts
        | none =>
          -- nothing is found: the name is unknown where the expression stands
          obtain ⟨id, d, hd, -, hparams, hup⟩ := hwithin
          have hn : d.LooksUp name := hup name (by rw [← hparams]; exact hlookup true)
          exact .intern h₁ (.inl ⟨⟨id, d, hd, hn⟩, hreserved, not_declared_of_find? hfind, hbuiltin⟩)

theorem resolveStep_grounds {self : Resolver} (hself : u.Grounds self) :
    u.Grounds (u.resolveStep self) := by
  intro s scope e hs hwithin hguarded
  cases e with
  | name n =>
    have hname : ∀ later params m, (TypeExpr.generic n []).LooksUp later params m →
        (TypeExpr.name n).LooksUp later params m := by
      intro later params m hm
      cases hm with
      | generic h => exact .name (h rfl)
      | argument _ he _ => cases he
    exact resolveName_keeps hself hs (hwithin.part (hname _)) (hguarded.part (hname _))
  | generic n args => exact resolveName_keeps hself hs hwithin hguarded
  | array e =>
    refine .bind (hself s scope e hs ?_ ?_) fun t s₁ h₁ _ => .intern h₁ trivial
    · exact hwithin.part fun _ _ hn => .element hn
    · exact hguarded.part fun _ _ hn => .element hn
  | union branches =>
    refine .bind (hself.mapM hs ?_ ?_) fun ts s₁ h₁ _ => .intern h₁ trivial
    · exact fun e he => hwithin.part fun _ _ hn => .branch he hn
    · exact fun e he => hguarded.part fun _ _ hn => .branch he hn
  | intersection parts =>
    refine .bind (hself.mapM hs ?_ ?_) fun ts s₁ h₁ _ => .newObject h₁ trivial
    · exact fun e he => hwithin.part fun _ _ hn => .part he hn
    · exact fun e he => hguarded.part fun _ _ hn => .part he hn
  | literal value => exact .intern hs trivial
  | object members indexes => exact .newObject hs hwithin

/-- **Resolution leaves nothing unresolved without a reason.** -/
theorem resolve_grounds (u : Universe) : ∀ fuel, u.Grounds (u.resolve fuel)
  | 0 => fun _ _ _ _ _ _ _ _ h => by cases h
  | fuel + 1 => resolveStep_grounds (resolve_grounds u fuel)

end Resolution

end Universe
end TypedJson
