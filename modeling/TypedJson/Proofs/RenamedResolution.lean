import TypedJson.Proofs.RenamedTables
/-!
# Resolution after a renaming

Resolving a type expression after a renaming does to the renamed table what it did before
(`Renaming.resolve_alike`).  An alias that runs into itself is left behind under the name it
was asked by, and such aliases are told apart by their names only: `Renaming.KeepsCircles` says
that the renaming keeps them as distinct as they were.

For operations that only touch the table the renaming commutes with the run (`Commutes`).
For the resolver that is too much to ask: a name is mapped to itself only where it does not
mean the renamed declaration, and an alias under way decides what is circular.  `Keeping`
adds what is needed, a grounded table and the aliases under way, and is carried through the
recursion.
-/
namespace TypedJson
namespace Universe
namespace Renaming

variable {u : Universe} {r : u.Renaming}

/-! ## Operations on the table

One lemma for each operation; those that look something up use that the renaming is
injective on forms. -/

section Operations

variable {α : Type}

/-- After the renaming the computation does the same to every table. -/
abbrev Commutes (r : u.Renaming) (m m' : Session α) : Prop :=
  Mirrors (fun s s' => s' = r.table s) Eq m m'

theorem query_commutes {f f' : Interner → α} (h : ∀ s, f' (r.table s) = f s) :
    r.Commutes (Session.query f) (Session.query f') := by
  rintro s _ rfl a s₁ hrun
  cases hrun
  exact ⟨_, _, rfl, rfl, (h s).symm⟩

theorem update_commutes {f f' : Interner → Interner} (h : ∀ s, f' (r.table s) = r.table (f s)) :
    r.Commutes (Session.update f) (Session.update f') := by
  rintro s _ rfl a s₁ hrun
  cases hrun
  exact ⟨_, _, rfl, h s, rfl⟩

theorem intern_commutes (f : Form) : r.Commutes (Session.intern f) (Session.intern (r.form f)) := by
  rintro s _ rfl t s₁ hrun
  have hrun : s.intern f = (t, s₁) := Option.some.inj hrun
  refine ⟨t, r.table s₁, ?_, rfl, rfl⟩
  show some ((r.table s).intern (r.form f)) = _
  rw [intern_table, hrun]

theorem reserve_commutes : r.Commutes Session.reserve Session.reserve := by
  rintro s _ rfl t s₁ hrun
  have hrun : s.push .reserved = (t, s₁) := Option.some.inj hrun
  refine ⟨t, r.table s₁, ?_, rfl, rfl⟩
  show some ((r.table s).push (r.data .reserved)) = _
  rw [push_table, hrun]

theorem instance?_commutes (inst : Instance) :
    r.Commutes (Session.query (·.instance? inst)) (Session.query (·.instance? inst)) :=
  query_commutes fun _ => rfl

theorem record_commutes (inst : Instance) (t : TypeId) :
    r.Commutes (Session.update (·.record inst t)) (Session.update (·.record inst t)) :=
  update_commutes fun _ => rfl

theorem newObject_commutes (origin : Option Instance) (shape : Shape) :
    r.Commutes (newObject origin shape) (newObject origin (r.shape shape)) := by
  refine reserve_commutes.bind ?_
  rintro t _ rfl
  refine (update_commutes fun s => r.define_table s t (.object origin shape)).bind ?_
  exact fun _ _ _ => .pure rfl

theorem argumentOr_commutes (i : Intrinsic) (given : Option TypeId) :
    r.Commutes (argumentOr i given) (argumentOr i given) := by
  cases given with
  | some t => exact .pure rfl
  | none => exact intern_commutes _

theorem recordType_commutes (key value : TypeId) :
    r.Commutes (recordType key value) (recordType key value) := by
  refine (instance?_commutes _).bind ?_
  rintro found _ rfl
  cases found with
  | some t => exact .pure rfl
  | none =>
    refine (newObject_commutes _ (.record key value)).bind ?_
    rintro t _ rfl
    exact (record_commutes _ t).bind fun _ _ _ => .pure rfl

theorem builtinType_commutes (b : Builtin) (args : List TypeId) :
    r.Commutes (builtinType b args) (builtinType b args) := by
  cases b with
  | array =>
    refine (argumentOr_commutes _ _).bind ?_
    rintro t _ rfl
    exact intern_commutes (.array t)
  | date | pattern => exact intern_commutes (.reference _)
  | record =>
    refine (argumentOr_commutes _ _).bind ?_
    rintro key _ rfl
    refine (argumentOr_commutes _ _).bind ?_
    rintro value _ rfl
    exact recordType_commutes key value

theorem missing_commutes (id : DeclarationId) (positions : List Nat) :
    r.Commutes (positions.mapM fun position => Session.intern (.param (.param id position)))
      (positions.mapM fun position => Session.intern (.param (.param id position))) :=
  .mapM_same fun position _ => intern_commutes (.param (.param id position))

theorem reserveInstance_commutes (inst : Instance) :
    r.Commutes (reserveInstance inst) (reserveInstance inst) := by
  refine reserve_commutes.bind ?_
  rintro t _ rfl
  exact (record_commutes inst t).bind fun _ _ _ => .pure rfl

end Operations

/-! ## Resolution

A form is looked up under its own data, so it must not become that of another form.  That is
the point at which circular aliases of one name would be confused. -/

variable (r) in
/-- No other circular alias has the name of the declaration if that is one. -/
def KeepsCircles : Prop :=
  u.CircularAt r.id → ∀ i d, u.declaration? i = some d → d.name = r.old → u.CircularAt i → i = r.id

theorem KeepsCircles.of_not_transparent (h : ¬ r.declaration.IsTransparent) : r.KeepsCircles := by
  rintro ⟨d, hd, htransparent, -⟩
  rw [r.declared] at hd
  cases hd
  exact absurd htransparent h

/-- A grounded table with these aliases under way, and the table after the renaming. -/
structure Beside (r : u.Renaming) (expanding : List Instance) (s s' : Interner) : Prop where
  grounded : u.Grounded s
  expanding : s.expanding = expanding
  table : s' = r.table s

section Resolution

variable {α : Type} {E : List Instance}

/-- The computation keeps tables grounded, and after the renaming it does the same to them. -/
abbrev Keeping (r : u.Renaming) (E : List Instance) (m m' : Session α) : Prop :=
  Mirrors (r.Beside E) Eq m m'

theorem Keeping.of_run {m m' : Session α} (hkeeps : ∀ s, u.Grounded s → s.expanding = E → u.Keeps s m)
    (hrun : ∀ s, u.Grounded s → s.expanding = E →
      After s m fun a s₁ => m' (r.table s) = some (a, r.table s₁)) : r.Keeping E m m' := by
  rintro s _ ⟨hs, he, rfl⟩ a s₁ h
  obtain ⟨hs₁, he₁, -⟩ := hkeeps s hs he a s₁ h
  exact ⟨a, _, hrun s hs he a s₁ h, ⟨hs₁, he₁.trans he, rfl⟩, rfl⟩

theorem Commutes.run {m m' : Session α} (h : r.Commutes m m') (s : Interner) :
    After s m fun a s₁ => m' (r.table s) = some (a, r.table s₁) := by
  intro a s₁ hrun
  obtain ⟨_, _, hrun', rfl, rfl⟩ := h s _ rfl a s₁ hrun
  exact hrun'

theorem Commutes.keeping {m m' : Session α} (h : r.Commutes m m')
    (hkeeps : ∀ s, u.Grounded s → s.expanding = E → u.Keeps s m) : r.Keeping E m m' :=
  .of_run hkeeps fun s _ _ => h.run s

theorem Keeping.run {m m' : Session α} (h : r.Keeping E m m') {s : Interner} (hs : u.Grounded s)
    (he : s.expanding = E) : After s m fun a s₁ => m' (r.table s) = some (a, r.table s₁) := by
  intro a s₁ hrun
  obtain ⟨_, _, hrun', ⟨-, -, rfl⟩, rfl⟩ := h s _ ⟨hs, he, rfl⟩ a s₁ hrun
  exact hrun'

theorem intern_keeping {f : Form} (hf : u.Explained (.form f)) :
    r.Keeping E (Session.intern f) (Session.intern (r.form f)) :=
  (intern_commutes f).keeping fun _ hs _ => .intern hs hf

/-- Parts of declarations are resolved alike if the aliases under way lead to what they look up. -/
def ResolvesAlike (r : u.Renaming) (self self' : Resolver) : Prop :=
  ∀ E scope e, u.Within scope e → u.Guarded E scope e →
    r.Keeping E (self scope e) (self' scope (r.text scope.unit e))

variable {self self' : Resolver}

theorem ResolvesAlike.mapM (hself : r.ResolvesAlike self self') {scope : Scope} {es : List TypeExpr}
    (hwithin : ∀ e ∈ es, u.Within scope e) (hguarded : ∀ e ∈ es, u.Guarded E scope e) :
    r.Keeping E (es.mapM (self scope)) ((es.map (r.text scope.unit)).mapM (self' scope)) :=
  .mapM_map fun e he => hself E scope e (hwithin e he) (hguarded e he)

theorem reserveInstance_run (inst : Instance) {parts parts' : Session α} (data data' : α → TypeData)
    (hdata : ∀ a, data' a = r.data (data a)) (hparts : r.Keeping E parts parts') {s : Interner}
    (hs : u.Grounded s) (he : s.expanding = E) :
    After s (do
      let t ← reserveInstance inst
      let a ← parts
      Session.update (·.define t (data a))
      pure t) fun t s₁ => (do
      let t ← reserveInstance inst
      let a ← parts'
      Session.update (·.define t (data' a))
      pure t : Session TypeId) (r.table s) = some (t, r.table s₁) := by
  intro t s₃ hrun
  obtain ⟨t', s₁, hreserve, hrun⟩ := bind_eq_some.1 hrun
  have hreserve' := (reserveInstance_commutes (r := r) inst).run s t' s₁ hreserve
  cases hreserve
  obtain ⟨a, s₂, hrun₂, hrun⟩ := bind_eq_some.1 hrun
  have hrun₂' := hparts.run (hs.reserve inst) he a s₂ hrun₂
  cases hrun
  refine bind_eq_some.2 ⟨_, _, hreserve', bind_eq_some.2 ⟨a, _, hrun₂', ?_⟩⟩
  rw [← define_table, ← hdata a]
  rfl

/-! ### Aliases -/

theorem unresolved_of_circular (r : u.Renaming) (hcircles : r.KeepsCircles) {id : DeclarationId} {d : Declaration}
    (hd : u.declaration? id = some d) (hcircular : u.CircularAt id) :
    r.unresolved d.name = (r.declarationAt id d).name := by
  unfold unresolved declarationAt
  by_cases hid : id = r.id
  · subst hid
    rw [r.declared] at hd
    cases hd
    rw [if_pos hcircular]
    simp [old]
  · simp only [if_neg hid]
    split
    · rename_i hcircularAt
      exact Equiv.swap_apply_of_ne_of_ne (fun hname => hid (hcircles hcircularAt id d hd hname hcircular))
        (r.fresh id d hd).1
    · rfl

theorem expandTransparent_run (hcircles : r.KeepsCircles) (hself : r.ResolvesAlike self self')
    {id : DeclarationId} {d : Declaration} {body : TypeExpr} (hd : u.declaration? id = some d)
    (hbody : d.body = .typeAlias body) (htransparent : body.isStructure = false) {args : List TypeId}
    (hargs : args.length = d.typeParams.length) (hlead : u.LeadTo E id) {s : Interner}
    (hs : u.Grounded s) (he : s.expanding = E) :
    After s (expandTransparent self d.name ⟨.declared id, args⟩ ⟨id.unit, d.typeParams.zip args⟩ body)
      fun t s₁ => expandTransparent self' (r.declarationAt id d).name ⟨.declared id, args⟩
        ⟨id.unit, d.typeParams.zip args⟩ (r.text id.unit body) (r.table s) = some (t, r.table s₁) := by
  intro t s₃ hrun
  unfold expandTransparent at hrun ⊢
  rw [Session.query_bind] at hrun ⊢
  rw [show (r.table s).expanding = s.expanding from rfl]
  by_cases hagain : s.expanding.contains ⟨.declared id, args⟩ = true
  · rw [if_pos hagain] at hrun ⊢
    -- the alias is under way, so it leads to itself
    obtain ⟨c, hc, hpath⟩ := hlead _ (by simpa [he] using hagain)
    cases hc
    rw [← r.unresolved_of_circular hcircles hd ⟨d, hd, ⟨body, hbody, htransparent⟩, hpath⟩]
    exact (intern_commutes (.unresolved d.name)).run s t s₃ hrun
  · rw [if_neg hagain] at hrun ⊢
    obtain ⟨_, s₁, hpush, hrun⟩ := bind_eq_some.1 hrun
    cases hpush
    obtain ⟨t', s₂, hrun₂, hrun⟩ := bind_eq_some.1 hrun
    have hwithin := within_text hd hargs (e := body) (by simp [Declaration.texts, hbody])
    have hguarded := guarded_body hd hbody hargs (fun id' hm => hlead.cons hm args)
    have hrun₂' := (hself _ _ body hwithin hguarded).run (hs.expanding (⟨.declared id, args⟩ :: s.expanding))
      (by rw [he]) t' s₂ hrun₂
    cases hrun
    exact bind_eq_some.2 ⟨(), _, rfl, bind_eq_some.2 ⟨t, _, hrun₂', rfl⟩⟩

theorem expandAlias_keeping (hcircles : r.KeepsCircles) (hgrounds : u.Grounds self)
    (hself : r.ResolvesAlike self self') {id : DeclarationId} {d : Declaration} {body : TypeExpr}
    (hd : u.declaration? id = some d) (hbody : d.body = .typeAlias body) {args : List TypeId}
    (hargs : args.length = d.typeParams.length) (hlead : u.LeadTo E id) :
    r.Keeping E (expandAlias self d.name d.typeParams id.unit body ⟨.declared id, args⟩)
      (expandAlias self' (r.declarationAt id d).name d.typeParams id.unit (r.text id.unit body)
        ⟨.declared id, args⟩) := by
  refine .of_run (fun s hs he => expandAlias_keeps hgrounds hs hd hbody hargs (by rw [he]; exact hlead))
    fun s hs he t s₁ hrun => ?_
  have hwithin : u.Within ⟨id.unit, d.typeParams.zip args⟩ body :=
    within_text hd hargs (by simp [Declaration.texts, hbody])
  have hguarded : u.Guarded E ⟨id.unit, d.typeParams.zip args⟩ body :=
    guarded_body hd hbody hargs fun id' hm => hlead.step hm
  have hparts : ∀ es : List TypeExpr,
      (∀ later params n, ∀ e ∈ es, e.LooksUp later params n → body.LooksUp later params n) →
      r.Keeping E (es.mapM (self ⟨id.unit, d.typeParams.zip args⟩))
        ((es.map (r.text id.unit)).mapM (self' ⟨id.unit, d.typeParams.zip args⟩)) := fun es hes =>
    hself.mapM (fun e he => hwithin.part fun params n => hes _ params n e he)
      fun e he => hguarded.part fun params n => hes _ params n e he
  unfold expandAlias at hrun ⊢
  rw [Session.query_bind] at hrun ⊢
  rw [show (r.table s).instance? ⟨.declared id, args⟩ = s.instance? ⟨.declared id, args⟩ from rfl]
  cases hfound : s.instance? ⟨.declared id, args⟩ with
  | some t' =>
    rw [hfound] at hrun
    cases hrun
    rfl
  | none =>
    rw [hfound] at hrun
    cases body with
    | union branches =>
      rw [text, TypeExpr.mapNames_union]
      exact reserveInstance_run _ (.namedUnion ⟨.declared id, args⟩) (.namedUnion ⟨.declared id, args⟩)
        (fun _ => rfl) (hparts branches fun _ _ _ e he hn => .branch he hn) hs he t s₁ hrun
    | object members indexes =>
      rw [text, TypeExpr.mapNames_object]
      have hunit : r.Keeping E (pure ()) (pure ()) := .pure rfl
      exact reserveInstance_run _
        (fun _ => .object (some ⟨.declared id, args⟩) (.literal members indexes _))
        (fun _ => .object _ (.literal (r.members id.unit members) (r.indexes id.unit indexes) _))
        (fun _ => rfl) hunit hs he t s₁ hrun
    | intersection parts =>
      rw [text, TypeExpr.mapNames_intersection]
      exact reserveInstance_run _ (fun ts => .object (some ⟨.declared id, args⟩) (.intersection ts))
        (fun ts => .object (some ⟨.declared id, args⟩) (.intersection ts))
        (fun _ => rfl) (hparts parts fun _ _ _ e he hn => .part he hn) hs he t s₁ hrun
    | name n => exact expandTransparent_run hcircles hself hd hbody rfl hargs hlead hs he t s₁ hrun
    | generic n es =>
      have hopen := expandTransparent_run hcircles hself hd hbody rfl hargs hlead hs he t s₁ hrun
      rw [text, TypeExpr.mapNames_generic] at hopen ⊢
      exact hopen
    | array e => exact expandTransparent_run hcircles hself hd hbody rfl hargs hlead hs he t s₁ hrun
    | literal value => exact expandTransparent_run hcircles hself hd hbody rfl hargs hlead hs he t s₁ hrun

theorem instantiate_keeping (hcircles : r.KeepsCircles) (hgrounds : u.Grounds self)
    (hself : r.ResolvesAlike self self') {id : DeclarationId} {d : Declaration}
    (hd : u.declaration? id = some d) (args : List TypeId) (hlead : u.LeadTo E id) :
    r.Keeping E (u.instantiate self id args) (r.target.instantiate self' id args) := by
  unfold instantiate
  rw [declaration?_target, hd, Option.map_some]
  have hmissing := ((missing_commutes (r := r) id
    ((List.range d.typeParams.length).drop (args.take d.typeParams.length).length)).keeping (E := E)
      fun s hs _ => missing_keeps hs id _).and fun s missing s₁ hrun => length_of_mapM hrun
  refine hmissing.bind ?_
  rintro missing _ ⟨rfl, hlength⟩
  have hargs : (args.take d.typeParams.length ++ missing).length = d.typeParams.length := by
    rw [List.length_append, hlength, List.length_drop, List.length_range, List.length_take]
    omega
  have hreference : u.Explained
      (.form (.reference ⟨.declared id, args.take d.typeParams.length ++ missing⟩)) := by
    intro d' hd'
    rw [hd] at hd'
    cases hd'
    exact hargs
  simp only [declarationAt]
  cases hbody : d.body with
  | interface bases members indexes => exact intern_keeping hreference
  | enum members => exact intern_keeping hreference
  | typeAlias body => exact expandAlias_keeping hcircles hgrounds hself hd hbody hargs hlead

/-! ### Names -/

theorem name_eq_or (r : u.Renaming) (unit : Nat) (n : String) :
    r.name unit n = n ∨ n = r.old ∧ r.name unit n = r.new ∧ u.find? n unit = some r.id := by
  unfold name
  by_cases h : n = r.old ∧ u.find? n unit = some r.id
  · rw [if_pos h]
    exact .inr ⟨h.1, rfl, h.2⟩
  · rw [if_neg h]
    exact .inl rfl

theorem apply_name (r : u.Renaming) {β : Type} {P : String → β} (unit : Nat) (n : String) (hP : P r.new = P r.old) :
    P (r.name unit n) = P n := by
  rcases r.name_eq_or unit n with h | ⟨rfl, h, -⟩
  · rw [h]
  · rw [h, hP]

theorem ofName?_of_unreserved {n : String} (h : ¬ IsReserved n) : Intrinsic.ofName? n = none := by
  by_contra hne
  exact h (.inl hne)

theorem ofName?_name (r : u.Renaming) (unit : Nat) (n : String) :
    Intrinsic.ofName? (r.name unit n) = Intrinsic.ofName? n :=
  r.apply_name unit n ((ofName?_of_unreserved r.unreserved.2).trans
    (ofName?_of_unreserved r.unreserved.1).symm)

theorem name_eq_iff (r : u.Renaming) {word : String} (hword : IsReserved word) (unit : Nat) (n : String) :
    r.name unit n = word ↔ n = word := by
  have hne : ∀ m, ¬ IsReserved m → m ≠ word := by
    rintro _ hm rfl
    exact hm hword
  exact (r.apply_name unit n (P := fun m => m = word) (by
    simp [hne _ r.unreserved.1, hne _ r.unreserved.2, old])).to_iff

theorem bound_name (r : u.Renaming) {params : List (String × TypeId)} {d : Declaration} {id : DeclarationId}
    (hd : u.declaration? id = some d) (hparams : params.map (·.1) = d.typeParams) (unit : Nat)
    (n : String) : params.find? (·.1 == r.name unit n) = params.find? (·.1 == n) := by
  have hnone : ∀ m, m ∉ d.typeParams → params.find? (·.1 == m) = none := by
    intro m hm
    refine List.find?_eq_none.2 fun p hp heq => hm ?_
    rw [← hparams, ← beq_iff_eq.1 heq]
    exact List.mem_map_of_mem hp
  obtain ⟨hold, hnew⟩ := r.noParams id d hd
  exact r.apply_name unit n (P := fun m => params.find? (·.1 == m))
    ((hnone _ hnew).trans (hnone _ hold).symm)

theorem ne_new_of_within (r : u.Renaming) {scope : Scope} {n : String} {args : List TypeExpr}
    (h : u.Within scope (.generic n args)) : n ≠ r.new := by
  rintro rfl
  obtain ⟨id, d, hd, -, -, hup⟩ := h
  exact (r.fresh id d hd).2 (hup r.new (.generic fun _ => (r.noParams id d hd).2))

/-! A name that finds the declaration is replaced by the new one, which finds it too.  A name
that finds nothing is left alone, and it must not find the declaration afterwards; that is
why the new name is looked up nowhere in the unit. -/

theorem unknown_keeping {n : String} (hold : n ≠ r.old) (hnew : n ≠ r.new) (hn : u.Degrades n) :
    r.Keeping E (Session.intern (.unresolved n)) (Session.intern (.unresolved n)) := by
  have hsame : r.unresolved n = n := by
    unfold unresolved
    split
    · exact Equiv.swap_apply_of_ne_of_ne hold hnew
    · rfl
  have hform : r.form (.unresolved n) = .unresolved n := congrArg Form.unresolved hsame
  have hintern := intern_keeping (r := r) (E := E) (f := .unresolved n) hn
  rw [hform] at hintern
  exact hintern

theorem resolveName_keeping (hcircles : r.KeepsCircles) (hgrounds : u.Grounds self)
    (hself : r.ResolvesAlike self self') {scope : Scope} {n : String} {args : List TypeExpr}
    (hwithin : u.Within scope (.generic n args)) (hguarded : u.Guarded E scope (.generic n args)) :
    r.Keeping E (u.resolveName self scope n args) (r.target.resolveName self' scope
      (r.name scope.unit n) (args.map (r.text scope.unit))) := by
  have hne := r.ne_new_of_within hwithin
  have hpart := hwithin
  obtain ⟨id, d, hd, -, hparams, hup⟩ := hpart
  have hbound := r.bound_name hd hparams scope.unit n
  unfold resolveName
  rw [List.isEmpty_map, hbound, r.ofName?_name]
  split
  · exact .pure rfl
  rename_i hparam
  cases hintrinsic : Intrinsic.ofName? n with
  | some i => exact intern_keeping trivial
  | none =>
    by_cases htrue : n = "true"
    · rw [if_pos htrue, if_pos ((r.name_eq_iff (.inr (.inl rfl)) _ _).2 htrue)]
      exact intern_keeping trivial
    rw [if_neg htrue, if_neg (mt (r.name_eq_iff (.inr (.inl rfl)) _ _).1 htrue)]
    by_cases hfalse : n = "false"
    · rw [if_pos hfalse, if_pos ((r.name_eq_iff (.inr (.inr rfl)) _ _).2 hfalse)]
      exact intern_keeping trivial
    rw [if_neg hfalse, if_neg (mt (r.name_eq_iff (.inr (.inr rfl)) _ _).1 hfalse)]
    have hreserved : ¬ IsReserved n := by
      rintro (h | h | h)
      · exact h hintrinsic
      · exact htrue h
      · exact hfalse h
    have hfree : args = [] → n ∉ scope.params.map (·.1) := by
      rintro rfl hmem
      obtain ⟨p, hp, rfl⟩ := List.mem_map.1 hmem
      simpa using List.find?_eq_none.1 hparam p hp
    have hargs : r.Keeping E (args.mapM (self scope))
        ((args.map (r.text scope.unit)).mapM (self' scope)) := hself.mapM
      (fun e he => hwithin.part fun _ _ hn => .argument hreserved he hn)
      fun e he => hguarded.part fun _ _ hn => .argument hreserved he hn
    refine hargs.bind ?_
    rintro ts _ rfl
    rw [r.find?_name hne]
    cases hfind : u.find? n scope.unit with
    | some id' =>
      obtain ⟨d', hmem, -⟩ := mem_declarations_of_find? hfind
      exact instantiate_keeping hcircles hgrounds hself (mem_declarations_iff.1 hmem) ts
        (hguarded n id' (.generic hfree) hreserved hfind)
    | none =>
      -- nothing is found, so the name is none of those that are exchanged
      have hdeclared := not_declared_of_find? hfind
      have hold : n ≠ r.old := fun h => hdeclared r.id r.declaration r.declared h.symm
      have hname : r.name scope.unit n = n := if_neg fun h => hold h.1
      rw [hname]
      cases hbuiltin : Builtin.ofName? n with
      | some b => exact (builtinType_commutes b ts).keeping fun s hs _ => builtinType_keeps hs b ts
      | none =>
        have hlooked : d.LooksUp n := hup n (by
          rw [← hparams]
          exact .generic hfree)
        exact unknown_keeping hold hne (.inl ⟨⟨id, d, hd, hlooked⟩, hreserved, hdeclared, hbuiltin⟩)

/-! ### Expressions -/

theorem resolveStep_alike (hcircles : r.KeepsCircles) (hgrounds : u.Grounds self)
    (hself : r.ResolvesAlike self self') :
    r.ResolvesAlike (u.resolveStep self) (r.target.resolveStep self') := by
  intro E scope e hwithin hguarded
  cases e with
  | name n =>
    have hname : ∀ later params m, (TypeExpr.generic n []).LooksUp later params m →
        (TypeExpr.name n).LooksUp later params m := by
      intro later params m hm
      cases hm with
      | generic h => exact .name (h rfl)
      | argument _ he _ => cases he
    exact resolveName_keeping hcircles hgrounds hself (hwithin.part (hname _)) (hguarded.part (hname _))
  | generic n args =>
    rw [text, TypeExpr.mapNames_generic]
    exact resolveName_keeping hcircles hgrounds hself hwithin hguarded
  | array e =>
    refine (hself E scope e (hwithin.part fun _ _ hn => .element hn)
      (hguarded.part fun _ _ hn => .element hn)).bind ?_
    rintro t _ rfl
    exact intern_keeping (f := .array t) trivial
  | union branches =>
    rw [text, TypeExpr.mapNames_union]
    refine (hself.mapM (fun e he => hwithin.part fun _ _ hn => .branch he hn)
      fun e he => hguarded.part fun _ _ hn => .branch he hn).bind ?_
    rintro ts _ rfl
    exact intern_keeping (f := .union ts) trivial
  | intersection parts =>
    rw [text, TypeExpr.mapNames_intersection]
    refine (hself.mapM (fun e he => hwithin.part fun _ _ hn => .part he hn)
      fun e he => hguarded.part fun _ _ hn => .part he hn).bind ?_
    rintro ts _ rfl
    exact (newObject_commutes none (.intersection ts)).keeping fun s hs _ => .newObject hs trivial
  | literal value => exact intern_keeping (f := .literal value) trivial
  | object members indexes =>
    rw [text, TypeExpr.mapNames_object]
    exact (newObject_commutes none (.literal members indexes scope)).keeping
      fun s hs _ => .newObject hs hwithin

/-- **What is resolved before the renaming is resolved alike after it.** -/
theorem resolve_alike (hcircles : r.KeepsCircles) : ∀ fuel,
    r.ResolvesAlike (u.resolve fuel) (r.target.resolve fuel)
  | 0 => fun _ _ _ _ _ _ _ _ _ _ h => by cases h
  | fuel + 1 => resolveStep_alike hcircles (resolve_grounds u fuel) (resolve_alike hcircles fuel)

end Resolution

end Renaming
end Universe
end TypedJson
