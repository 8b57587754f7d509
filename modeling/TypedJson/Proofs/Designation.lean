import TypedJson.Proofs.NamedTable
import TypedJson.Proofs.Interpretation
/-!
# Resolution answers with types that are called as the expressions are

Resolving an expression keeps the table to its names, and the type that it answers with is called
what the expression is called at its site (`resolve_designates`).  What is new in the table is
written at parts of that site or belongs to an instance that was not begun before, so no site is
resolved twice.

The argument on sites goes down with the recursion.  An expression is resolved at a site that
is free, and adds types at parts of that site only; the parts of an expression are at sites
that do not contain one another, so each finds its own free.  What is made for an alias is
written at the site of the alias, which was not begun before, and so is away from the site
in question.
-/
namespace TypedJson
namespace Universe

variable {u : Universe} {V V' : NamedTable} {P : Site → Prop}

/-- The computation keeps the table to its names, adds to it at the stated sites only, and answers
as stated. -/
def Calls (u : Universe) (P : Site → Prop) (V : NamedTable) (m : Session α)
    (Q : α → NamedTable → Prop) : Prop :=
  After V.table m fun a s' => ∃ V' : NamedTable, V'.table = s' ∧ u.Continued P V V' ∧ Q a V'

namespace Calls

variable {α β : Type}

theorem pure (hV : u.Naming V) {a : α} {Q : α → NamedTable → Prop} (h : Q a V) :
    u.Calls P V (Pure.pure a) Q := After.pure ⟨V, rfl, .refl hV, h⟩

theorem mono {P' : Site → Prop} {m : Session α} {Q Q' : α → NamedTable → Prop}
    (h : u.Calls P V m Q) (hP : ∀ q, P q → P' q)
    (hQ : ∀ a V', u.Continued P V V' → Q a V' → Q' a V') : u.Calls P' V m Q' :=
  After.mono h fun a _ ⟨V', hs, h', ha⟩ => ⟨V', hs, h'.mono hP, hQ a V' h' ha⟩

theorem bind (hV : u.Naming V) {m : Session α} {f : α → Session β} {R : α → NamedTable → Prop}
    {Q : β → NamedTable → Prop} (hm : u.Calls P V m R)
    (hf : ∀ a V', u.Continued P V V' → R a V' → u.Calls P V' (f a) Q) : u.Calls P V (m >>= f) Q := by
  intro b s₂ hrun
  obtain ⟨a, s₁, hrun₁, hrun₂⟩ := bind_eq_some.1 hrun
  obtain ⟨V₁, rfl, h₁, ha⟩ := hm a s₁ hrun₁
  obtain ⟨V₂, rfl, h₂, hb⟩ := hf a V₁ h₁ ha b s₂ hrun₂
  exact ⟨V₂, rfl, h₁.trans hV h₂, hb⟩

theorem query_bind (f : Interner → α) {g : α → Session β} {Q : β → NamedTable → Prop}
    (h : u.Calls P V (g (f V.table)) Q) : u.Calls P V (Session.query f >>= g) Q := by
  intro b s' hrun
  rw [Session.query_bind] at hrun
  exact h b s' hrun

theorem intern (hV : u.Naming V) {f : Form} (hparts : ∀ x ∈ (TypeData.form f).parts, V.Has x) :
    u.Calls P V (Session.intern f) fun t V' => V'.Has t ∧ V'.name t = f.nameBy V.name := by
  intro t s' hrun
  rcases intern_cases hrun with ⟨hfind, rfl⟩ | ⟨hfind, rfl, rfl⟩
  · obtain ⟨ht, hdata⟩ := Interner.data_of_find? hfind
    have hstands := hV.stands t ht
    rw [hdata] at hstands
    exact ⟨V, rfl, .refl hV, ht, hstands⟩
  · refine ⟨V.push (.form f) (f.nameBy V.name), rfl, hV.push hparts rfl (fun t ht hname => ?_) ?_ ?_,
      NamedTable.has_push.2 (.inr rfl), NamedTable.name_push_fresh⟩
    · -- a type that is called the same is the same form
      have hstands := hV.stands t ht
      rw [hname] at hstands
      obtain ⟨g, hdata, heq⟩ := hstands.exists_form
      have hg : ∀ x ∈ (TypeData.form g).parts, V.Has x := by
        rw [← hdata]
        exact hV.parts t ht
      obtain rfl := Form.eq_of_nameBy_eq hV.injective hparts hg heq
      exact Interner.find?_eq_none_iff.1 hfind t hdata
    · intro symbol args h
      cases f with
      | _ => cases h
    · intro p h
      cases f with
      | _ => cases h

theorem newObject (hV : u.Naming V) (shape : Shape) {N : TypeName} {p : Site}
    (hparts : ∀ x ∈ (TypeData.object none shape).parts, V.Has x)
    (hstands : u.Stands V.Recorded V.name (.object none shape) N) (hp : N.site? = some p)
    (howned : V.Owned p) (hunused : ∀ t, V.Has t → (V.name t).site? ≠ some p) :
    u.Calls (· = p) V (newObject none shape) fun t V' => V'.Has t ∧ V'.name t = N := by
  intro t s' hrun
  rw [newObject_eq] at hrun
  cases hrun
  refine ⟨V.push (.object none shape) N, rfl, hV.push hparts hstands (fun t ht hname => ?_) ?_ ?_,
    NamedTable.has_push.2 (.inr rfl), NamedTable.name_push_fresh⟩
  · exact hunused t ht (by rw [hname, hp])
  · rintro symbol args rfl
    cases hp
  · intro q hq
    cases hp.symm.trans hq
    exact ⟨howned, rfl⟩

end Calls

/-- The type is called what the phrase is called. -/
structure Called (u : Universe) (phrase : NamePhrase) (t : TypeId) (V : NamedTable) : Prop where
  has : V.Has t
  names : u.Names V.Recorded phrase (V.name t)

theorem Called.later {phrase : NamePhrase} {t : TypeId} (ht : u.Called phrase t V)
    (hV : u.Naming V) (h : V.Later V') : u.Called phrase t V' := by
  refine ⟨h.has t ht.has, ?_⟩
  rw [h.name t ht.has]
  exact ht.names.mono (hV.keeps_recorded h)

/-! ## Builtins

A builtin makes a form, or for a record an object that is noted under its arguments.  Neither
is called after a site. -/

theorem argumentOr_calls (hV : u.Naming V) (i : Intrinsic) {given : Option TypeId}
    (hgiven : ∀ t, given = some t → V.Has t) : u.Calls P V (argumentOr i given)
      fun t V' => V'.Has t ∧ V'.name t = (given.map V.name).getD (.intrinsic i) := by
  cases given with
  | some t => exact .pure hV ⟨hgiven t rfl, rfl⟩
  | none => exact .intern hV fun x hx => by cases hx

theorem not_isOpen_builtin (b : Builtin) (args : List TypeId) : ¬ u.IsOpen ⟨.builtin b, args⟩ := by
  rintro ⟨_, _, ⟨_, _, hid, -⟩, -⟩
  cases hid

theorem Naming.not_begun (hV : u.Naming V) {inst : Instance}
    (hnone : V.table.instance? inst = none) (hopen : ¬ u.IsOpen inst) :
    ¬ NamedTable.Begun V.table inst := by
  rintro (⟨t, hmem⟩ | hmem)
  · exact Interner.not_mem_of_instance? hnone t hmem
  · exact hopen (hV.expanding inst hmem)

theorem recordType_calls (hV : u.Naming V) {key value : TypeId} (hkey : V.Has key)
    (hvalue : V.Has value) : u.Calls P V (recordType key value) fun t V' =>
      V'.Has t ∧ V'.name t = .named (.builtin .record) [V.name key, V.name value] := by
  have hargs : ∀ x ∈ [key, value], V.Has x := by
    intro x hx
    rcases List.mem_cons.1 hx with rfl | hx
    · exact hkey
    · rw [List.mem_singleton.1 hx]
      exact hvalue
  intro t s' hrun
  rcases recordType_cases hrun with ⟨hfind, rfl⟩ | ⟨hnone, rfl, rfl⟩
  · obtain ⟨ht, hnames⟩ := hV.noted _ t (Interner.mem_of_instance? hfind)
    exact ⟨V, rfl, .refl hV, ht, hnames.unique (.record (S := V.Recorded))⟩
  · refine ⟨V.pushNamed _ ⟨.builtin .record, [key, value]⟩, rfl, hV.pushNamed hargs ?_ ⟨rfl, rfl⟩
      (hV.not_begun hnone (not_isOpen_builtin _ _)) .record,
      NamedTable.has_pushNamed.2 (.inr rfl), NamedTable.name_pushNamed_fresh⟩
    intro x hx
    rcases List.mem_append.1 hx with hx | hx
    · exact hargs x hx
    · exact hargs x hx

theorem getElem?_map_getD (V : NamedTable) (args : List TypeId) (i : Nat) (N : TypeName) :
    ((V.names args)[i]?).getD N = (args[i]?.map V.name).getD N := by
  rw [List.getElem?_map]

theorem builtinType_calls (hV : u.Naming V) (b : Builtin) {args : List TypeId}
    (hargs : ∀ t ∈ args, V.Has t) : u.Calls P V (builtinType b args) fun t V' =>
      V'.Has t ∧ V'.name t = builtinName b (V.names args) := by
  have hgiven : ∀ {V' : NamedTable}, V.Later V' → ∀ i t, args[i]? = some t → V'.Has t :=
    fun h i t ht => h.has t (hargs t (List.mem_of_getElem? ht))
  have hmap : ∀ {V' : NamedTable}, V.Later V' → ∀ i : Nat, args[i]?.map V'.name = args[i]?.map V.name :=
    fun {V'} h i => by
      rw [← List.getElem?_map, ← List.getElem?_map]
      exact congrArg (·[i]?) (h.names hargs)
  cases b with
  | array =>
    refine .bind hV (argumentOr_calls hV .unknown (hgiven (.refl V) 0)) fun x V₁ h₁ ⟨hx, hname⟩ => ?_
    refine (Calls.intern h₁.naming fun y hy => ?_).mono (fun _ h => h) fun t V' _ ⟨ht, hnamed⟩ => ?_
    · rw [List.mem_singleton.1 hy]
      exact hx
    · refine ⟨ht, hnamed.trans ?_⟩
      show TypeName.array (V₁.name x) = .array _
      rw [hname, getElem?_map_getD]
  | date | pattern => exact .intern hV fun x hx => by cases hx
  | record =>
    refine .bind hV (argumentOr_calls hV .string (hgiven (.refl V) 0)) fun key V₁ h₁ ⟨hkey, hkeyName⟩ => ?_
    refine .bind h₁.naming (argumentOr_calls h₁.naming .unknown (hgiven h₁.later 1))
      fun value V₂ h₂ ⟨hvalue, hvalueName⟩ => ?_
    refine (recordType_calls h₂.naming (h₂.later.has key hkey) hvalue).mono (fun _ h => h)
      fun t V' _ ⟨ht, hnamed⟩ => ⟨ht, hnamed.trans ?_⟩
    rw [h₂.later.name key hkey, hkeyName, hvalueName, hmap h₁.later 1]
    show TypeName.named _ _ = TypeName.named _ _
    rw [getElem?_map_getD, getElem?_map_getD]

/-! ## Aliases

When an alias is begun its site becomes owned, and it is free, since nothing is written at a
site that is not owned.  So the text of the alias can be resolved there, as if it stood at
the top. -/

/-- What is needed to resolve an expression at a site: it is looked up from types of the table,
the aliases under way lead to what it looks up, and nothing was resolved at the site. -/
structure Resolvable (u : Universe) (V : NamedTable) (p : Site) (scope : Scope) (e : TypeExpr) :
    Prop where
  naming : u.Naming V
  has : Scope.In scope V.table
  guarded : u.Guarded V.table.expanding scope e
  owned : V.Owned p
  free : V.Free p

/-- The resolver answers with types that are called as the expressions are. -/
def Designates (u : Universe) (self : Resolver) : Prop :=
  ∀ V p scope e, u.Resolvable V p scope e → u.Calls (·.Within p) V (self scope e)
    fun t V' => u.Called (.expr p (V.scope scope) e) t V'

theorem Naming.free_of_not_owned (hV : u.Naming V) {p : Site} (h : ¬ V.Owned p) : V.Free p :=
  fun t q ht hq hwithin => h ((hV.sites t q ht hq).of_eq hwithin.listing.symm hwithin.owner.symm)

/-- What is needed to resolve expressions in turn at the parts of a site from the given one on. -/
structure PartsResolvable (u : Universe) (V : NamedTable) (p : Site) (k : Nat) (scope : Scope)
    (es : List TypeExpr) : Prop where
  naming : u.Naming V
  has : Scope.In scope V.table
  guarded : ∀ e ∈ es, u.Guarded V.table.expanding scope e
  owned : V.Owned p
  free : ∀ i, k ≤ i → V.Free (p.child i)

namespace PartsResolvable

variable {p : Site} {k : Nat} {scope : Scope} {e : TypeExpr} {es : List TypeExpr}

theorem head (h : u.PartsResolvable V p k scope (e :: es)) :
    u.Resolvable V (p.child k) scope e :=
  ⟨h.naming, h.has, h.guarded e List.mem_cons_self, h.owned.child k, h.free k (Nat.le_refl k)⟩

theorem tail (h : u.PartsResolvable V p k scope (e :: es))
    (h' : u.Continued (·.Within (p.child k)) V V') : u.PartsResolvable V' p (k + 1) scope es where
  naming := h'.naming
  has := h'.later.scope_in h.has
  guarded := by
    rw [h'.expanding]
    exact fun e' he' => h.guarded e' (List.mem_cons_of_mem e he')
  owned := h.naming.keeps_owned h'.later h.owned
  free := fun i hi => h'.free (h.owned.child i) (h.free i (by omega)) fun q hq hwithin => by
    have := hq.child_unique hwithin
    omega

end PartsResolvable

theorem Resolvable.parts {p : Site} {scope : Scope} {e : TypeExpr} (h : u.Resolvable V p scope e)
    {l : List TypeExpr}
    (hes : ∀ params n, ∀ e' ∈ l, e'.LooksUp false params n → e.LooksUp false params n) :
    u.PartsResolvable V p 0 scope l :=
  ⟨h.naming, h.has, fun e' he' => h.guarded.part fun params n => hes params n e' he', h.owned,
    fun _ _ t q ht hq hwithin => h.free t q ht hq hwithin.of_child⟩

/-- Parts of an expression are resolved in turn, each at a site of its own. -/
theorem Designates.mapM {self : Resolver} (hself : u.Designates self) {p : Site} {scope : Scope} :
    ∀ (es : List TypeExpr) (k : Nat) {V : NamedTable}, u.PartsResolvable V p k scope es →
      u.Calls (fun q => ∃ i, k ≤ i ∧ q.Within (p.child i)) V (es.mapM (self scope)) fun ts V' =>
        (∀ t ∈ ts, V'.Has t) ∧ Pointwise (fun i e x =>
          u.Names V'.Recorded (.expr (p.child (k + i)) (V.scope scope) e) x) es (V'.names ts)
  | [], k, V, h => by
    rw [List.mapM_nil]
    exact .pure h.naming ⟨fun _ h => (by cases h), .nil⟩
  | e :: es, k, V, h => by
    rw [List.mapM_cons]
    intro ts s₂ hrun
    obtain ⟨t, s₁, hrun₁, hrun⟩ := bind_eq_some.1 hrun
    obtain ⟨V₁, rfl, h₁, ht⟩ := hself V (p.child k) scope e h.head t s₁ hrun₁
    obtain ⟨ts', s', hrun', hrun⟩ := bind_eq_some.1 hrun
    cases pure_eq_some.1 hrun
    obtain ⟨V₂, rfl, h₂, hts, hnames⟩ := mapM hself es (k + 1) (h.tail h₁) ts' _ hrun'
    have hP : u.Continued (fun q => ∃ i, k ≤ i ∧ q.Within (p.child i)) V V₁ :=
      h₁.mono fun q hq => ⟨k, Nat.le_refl k, hq⟩
    have ht₂ := ht.later h₁.naming h₂.later
    refine ⟨V₂, rfl, hP.trans h.naming (h₂.mono ?_), List.forall_mem_cons.2 ⟨ht₂.has, hts⟩,
      .cons ht₂.names (hnames.imp fun i e x _ hx => ?_)⟩
    · rintro q ⟨i, hi, hq⟩
      exact ⟨i, by omega, hq⟩
    · rw [h₁.later.scope h.has] at hx
      rw [← Nat.add_assoc, Nat.add_right_comm]
      exact hx

theorem Resolvable.mapM {self : Resolver} {p : Site} {scope : Scope} {e : TypeExpr}
    (h : u.Resolvable V p scope e) (hself : u.Designates self) (es : List TypeExpr)
    (hes : ∀ params n, ∀ e' ∈ es, e'.LooksUp false params n → e.LooksUp false params n) :
    u.Calls (·.Within p) V (es.mapM (self scope)) fun ts V' => (∀ t ∈ ts, V'.Has t) ∧
      u.NamesAll V'.Recorded p (V.scope scope) es (V'.names ts) ∧
      ∀ t, V'.Has t → (V'.name t).site? ≠ some p := by
  refine (hself.mapM es 0 (h.parts hes)).mono ?_
    fun ts V' h' ⟨hts, hnames⟩ => ⟨hts, hnames.imp fun i e' x _ hx => ?_, fun t ht hp => ?_⟩
  · rintro q ⟨i, -, hq⟩
    exact hq.of_child
  · rw [Nat.zero_add] at hx
    exact hx
  · by_cases hold : V.Has t
    · rw [h'.later.name t hold] at hp
      exact h.free t p hold hp (.refl p)
    · rcases h'.sites t p ht hold hp with ⟨i, -, hwithin⟩ | hnot
      · exact p.not_within_child i hwithin
      · exact hnot h.owned

theorem nameBy_scope (d : Declaration) (id : DeclarationId) (args : List TypeId)
    (name : TypeId → TypeName) :
    (d.scope id args).nameBy name = d.nameScope id (args.map name) := by
  show NameScope.mk id.unit ((d.typeParams.zip args).map fun p => (p.1, name p.2)) = _
  rw [Declaration.nameScope, List.zip_map_right]
  rfl

/-- The site of the text of an instance. -/
def home (N : TypeName) : Site := ⟨none, N, []⟩

/-- In the second table an instance is begun, and nothing is resolved for it yet. -/
structure Begins (u : Universe) (V V' : NamedTable) (inst : Instance) : Prop where
  before : u.Naming V
  has : ∀ x ∈ inst.args, V.Has x
  new : ¬ NamedTable.Begun V.table inst
  naming : u.Naming V'
  later : V.Later V'
  begun : NamedTable.Begun V'.table inst
  unwritten : ∀ t, V'.Has t → ¬ V.Has t → (V'.name t).site? = none

namespace Begins

variable {V'' : NamedTable} {inst : Instance}

theorem not_owned (h : u.Begins V V' inst) : ¬ V.Owned (home (inst.nameBy V.name)) :=
  h.before.not_owned h.has h.new []

theorem resolvable (h : u.Begins V V' inst) {scope : Scope} (hscope : Scope.In scope V'.table)
    {body : TypeExpr} (hguarded : u.Guarded V'.table.expanding scope body) :
    u.Resolvable V' (home (inst.nameBy V.name)) scope body where
  naming := h.naming
  has := hscope
  guarded := hguarded
  owned := ⟨inst, (Instance.nameBy_congr fun x hx => h.later.name x (h.has x hx)).symm, h.begun⟩
  free := (h.before.free_of_not_owned h.not_owned).later h.later h.unwritten

theorem sites (h : u.Begins V V' inst)
    (h' : u.Continued (·.Within (home (inst.nameBy V.name))) V' V'') {t : TypeId} {q : Site}
    (ht : V''.Has t) (hnot : ¬ V.Has t) (hq : (V''.name t).site? = some q) : ¬ V.Owned q := by
  intro howned
  by_cases hold : V'.Has t
  · rw [h'.later.name t hold] at hq
    cases (h.unwritten t hold hnot).symm.trans hq
  · rcases h'.sites t q ht hold hq with hwithin | hnotOwned
    · exact h.not_owned (howned.of_eq hwithin.listing.symm hwithin.owner.symm)
    · exact hnotOwned (h.before.keeps_owned h.later howned)

end Begins

/-- An application of an alias to types of the table, where the aliases under way lead to it. -/
structure Expandable (u : Universe) (V : NamedTable) (id : DeclarationId) (d : Declaration)
    (body : TypeExpr) (args : List TypeId) : Prop where
  naming : u.Naming V
  declared : u.declaration? id = some d
  text : d.body = .typeAlias body
  has : ∀ x ∈ args, V.Has x
  length : args.length = d.typeParams.length
  lead : u.LeadTo V.table.expanding id

namespace Expandable

variable {id : DeclarationId} {d : Declaration} {body : TypeExpr} {args : List TypeId}

theorem scope_in (h : u.Expandable V id d body args) (h' : V.Later V') :
    Scope.In (d.scope id args) V'.table :=
  fun p hp => h'.has p.2 (h.has p.2 (List.of_mem_zip hp).2)

theorem scope_eq (h : u.Expandable V id d body args) (h' : V.Later V') :
    V'.scope (d.scope id args) = d.nameScope id (V.names args) := by
  rw [← h'.names h.has]
  exact nameBy_scope d id args _

theorem reserve (h : u.Expandable V id d body args) (hnamed : body.isStructure = true)
    (hnone : V.table.instance? ⟨.declared id, args⟩ = none) :
    u.Begins V (V.pushNamed .reserved ⟨.declared id, args⟩) ⟨.declared id, args⟩ := by
  have hnotOpen : ¬ u.IsOpen ⟨.declared id, args⟩ := by
    rintro ⟨body', scope', hbody', hopen⟩
    rw [(IsBody.unique ⟨id, d, rfl, h.declared, h.text, rfl⟩ hbody').1, hnamed] at hopen
    cases hopen
  have hnew := h.naming.not_begun hnone hnotOpen
  have hlater := V.later_pushNamed .reserved ⟨.declared id, args⟩
  have hpush : u.Continued (fun _ => True) V (V.pushNamed .reserved ⟨.declared id, args⟩) :=
    h.naming.pushNamed h.has (fun x hx => by cases hx) ⟨_, _, rfl⟩ hnew
      (.nominal h.declared h.text hnamed ⟨args, V.fresh, List.mem_cons_self, hlater.names h.has⟩)
  refine ⟨h.naming, h.has, hnew, hpush.naming, hlater, .inl ⟨V.fresh, List.mem_cons_self⟩,
    fun t ht hnot => ?_⟩
  obtain rfl := (NamedTable.has_pushNamed.1 ht).resolve_left hnot
  rw [NamedTable.name_pushNamed_fresh]
  rfl

theorem reserved_resolvable (h : u.Expandable V id d body args) (hnamed : body.isStructure = true)
    (hnone : V.table.instance? ⟨.declared id, args⟩ = none) :
    u.Resolvable (V.pushNamed .reserved ⟨.declared id, args⟩)
      (home (.named (.declared id) (V.names args))) (d.scope id args) body :=
  (h.reserve hnamed hnone).resolvable (h.scope_in (V.later_pushNamed _ _))
    (guarded_body h.declared h.text h.length fun _ hm => h.lead.step hm)

theorem begin (h : u.Expandable V id d body args) (hopen : body.isStructure = false)
    (hnone : V.table.instance? ⟨.declared id, args⟩ = none)
    (hidle : ⟨.declared id, args⟩ ∉ V.table.expanding) :
    u.Begins V (V.beginExpansion ⟨.declared id, args⟩) ⟨.declared id, args⟩ := by
  obtain ⟨hV₁, h₁⟩ := h.naming.beginExpansion (i := ⟨.declared id, args⟩) h.has
    ⟨body, d.scope id args, ⟨id, d, rfl, h.declared, h.text, rfl⟩, hopen⟩
  refine ⟨h.naming, h.has, ?_, hV₁, h₁, .inr List.mem_cons_self, fun x hx hnot => absurd hx hnot⟩
  rintro (⟨t, hmem⟩ | hmem)
  · exact Interner.not_mem_of_instance? hnone t hmem
  · exact hidle hmem

theorem begun_resolvable (h : u.Expandable V id d body args) (hopen : body.isStructure = false)
    (hnone : V.table.instance? ⟨.declared id, args⟩ = none)
    (hidle : ⟨.declared id, args⟩ ∉ V.table.expanding) :
    u.Resolvable (V.beginExpansion ⟨.declared id, args⟩)
      (home (.named (.declared id) (V.names args))) (d.scope id args) body :=
  (h.begin hopen hnone hidle).resolvable (h.scope_in (h.begin hopen hnone hidle).later)
    (guarded_body h.declared h.text h.length fun _ hm => h.lead.cons hm args)

theorem idle (h : u.Expandable V id d body args) (hcircular : ∀ n, ¬ u.Circular n)
    (hopen : body.isStructure = false) : ⟨.declared id, args⟩ ∉ V.table.expanding := by
  intro hmem
  obtain ⟨c, hc, hpath⟩ := h.lead _ hmem
  cases hc
  exact hcircular d.name ⟨id, d, h.declared, rfl, ⟨body, h.text, hopen⟩, hpath⟩

end Expandable

section Resolution

variable {self : Resolver} {id : DeclarationId} {d : Declaration} {args : List TypeId}

/-- The parts of the text of an alias are resolved after its handle is noted, and they give the
handle its meaning. -/
theorem reserveInstance_calls {α : Type} {body : TypeExpr} (h : u.Expandable V id d body args)
    (hnamed : body.isStructure = true) (hnone : V.table.instance? ⟨.declared id, args⟩ = none)
    (parts : Session α) (data : α → TypeData) {R : α → NamedTable → Prop}
    (hparts : u.Calls (·.Within (home (.named (.declared id) (V.names args))))
      (V.pushNamed .reserved ⟨.declared id, args⟩) parts R)
    (hdata : ∀ a V', V.Later V' → R a V' → (∀ x ∈ (data a).parts, V'.Has x) ∧
      u.Stands V'.Recorded V'.name (data a) (.named (.declared id) (V.names args))) :
    u.Calls P V (do
      let t ← reserveInstance ⟨.declared id, args⟩
      let a ← parts
      Session.update (·.define t (data a))
      Pure.pure t) fun t V' => u.Called (.inst (.declared id) (V.names args)) t V' := by
  have h₁ := h.reserve hnamed hnone
  intro t s₃ hrun
  obtain ⟨a, s₂, hrun₂, rfl, rfl⟩ := reserveInstance_cases hrun
  obtain ⟨V₂, rfl, h₂, ha⟩ := hparts a s₂ hrun₂
  obtain ⟨hhas, hstands⟩ := hdata a V₂ (h₁.later.trans h₂.later) ha
  have hfresh : (V.pushNamed .reserved ⟨.declared id, args⟩).Has V.fresh :=
    NamedTable.has_pushNamed.2 (.inr rfl)
  have hname : V₂.name V.fresh = .named (.declared id) (V.names args) :=
    (h₂.later.name _ hfresh).trans NamedTable.name_pushNamed_fresh
  obtain ⟨hV₃, h₃⟩ := h₂.naming.define (h₂.later.has _ hfresh) hhas (by rw [hname]; exact hstands)
  have hlater := (h₁.later.trans h₂.later).trans h₃
  refine ⟨⟨V₂.table.define V.fresh (data a), V₂.name⟩, rfl, ⟨hV₃, hlater, h₂.expanding,
    fun x q hx hnot hq => .inr ?_⟩, h₃.has _ (h₂.later.has _ hfresh), ?_⟩
  · exact h₁.sites h₂ ((Interner.has_modifySlot V₂.table V.fresh _).1 hx) hnot hq
  · have hmem := (h₂.later.trans h₃).instances
      (List.mem_cons_self (a := (Instance.mk (.declared id) args, V.fresh)))
    show u.Names _ _ (V₂.name V.fresh)
    rw [hname]
    exact .nominal h.declared h.text hnamed ⟨args, V.fresh, hmem, hlater.names h.has⟩

/-- An alias without a handle of its own is called what its text is called. -/
theorem expandTransparent_calls {body : TypeExpr} (h : u.Expandable V id d body args)
    (hself : u.Designates self) (hcircular : ∀ n, ¬ u.Circular n)
    (hopen : body.isStructure = false) (hnone : V.table.instance? ⟨.declared id, args⟩ = none) :
    u.Calls P V (expandTransparent self d.name ⟨.declared id, args⟩ (d.scope id args) body)
      fun t V' => u.Called (.inst (.declared id) (V.names args)) t V' := by
  have hidle := h.idle hcircular hopen
  have h₁ := h.begin hopen hnone hidle
  intro t s₃ hrun
  obtain ⟨hagain, -⟩ | ⟨-, s₂, hrun₂, rfl⟩ := expandTransparent_cases hrun
  · exact absurd hagain hidle
  obtain ⟨V₂, rfl, h₂, ht⟩ := hself _ _ _ _ (h.begun_resolvable hopen hnone hidle) t s₂ hrun₂
  have hargs : V₂.names args = V.names args := (h₁.later.trans h₂.later).names h.has
  have hnames : u.Names V₂.Recorded (.inst (.declared id) (V₂.names args)) (V₂.name t) := by
    rw [hargs]
    refine .transparent h.declared h.text hopen ?_
    rw [← h.scope_eq h₁.later]
    exact ht.names
  obtain ⟨hV₃, h₃⟩ := h₂.naming.endExpansion (i := ⟨.declared id, args⟩) h₂.expanding ht.has hnames
  refine ⟨V₂.endExpansion ⟨.declared id, args⟩ t, rfl, ⟨hV₃, (h₁.later.trans h₂.later).trans h₃, ?_,
    fun x q hx hnot hq => .inr (h₁.sites h₂ hx hnot hq)⟩, ht.has, ?_⟩
  · show V₂.table.expanding.drop 1 = V.table.expanding
    rw [h₂.expanding]
    rfl
  · rw [hargs] at hnames
    exact hnames.mono (h₂.naming.keeps_recorded h₃)

/-- An alias is called after its arguments or, without a handle of its own, what its text is
called. -/
theorem expandAlias_calls {body : TypeExpr} (h : u.Expandable V id d body args)
    (hself : u.Designates self) (hcircular : ∀ n, ¬ u.Circular n) :
    u.Calls P V (expandAlias self d.name d.typeParams id.unit body ⟨.declared id, args⟩)
      fun t V' => u.Called (.inst (.declared id) (V.names args)) t V' := by
  have horigin : ∀ {V' : NamedTable}, V.Later V' → TypeName.named (.declared id) (V.names args) =
      (Instance.mk (.declared id) args).nameBy V'.name := fun h' => by
    rw [← h'.names h.has]
    rfl
  have hargs : ∀ {V' : NamedTable}, V.Later V' → ∀ {ts : List TypeId}, (∀ t ∈ ts, V'.Has t) →
      ∀ x ∈ args ++ ts, V'.Has x := by
    intro V' h' ts hts x hx
    exact (List.mem_append.1 hx).elim (fun hx => h'.has x (h.has x hx)) (hts x)
  unfold expandAlias
  refine .query_bind _ ?_
  split
  · rename_i t hfind
    obtain ⟨ht, hnames⟩ := h.naming.noted _ t (Interner.mem_of_instance? hfind)
    exact .pure h.naming ⟨ht, hnames⟩
  · rename_i hnone
    cases body with
    | union branches =>
      refine reserveInstance_calls h rfl hnone _ _ ((h.reserved_resolvable rfl hnone).mapM hself
        branches fun _ _ _ he hn => .branch he hn) fun ts V' h' ⟨hts, hnames, _⟩ => ⟨hargs h' hts, ?_⟩
      rw [h.scope_eq (V.later_pushNamed _ _)] at hnames
      exact ⟨horigin h', _, branches, .mk h.declared h.text, hnames⟩
    | object members indexes =>
      refine reserveInstance_calls (R := fun _ _ => True) h rfl hnone (pure ())
        (fun _ => .object (some ⟨.declared id, args⟩) (.literal members indexes (d.scope id args)))
        (.pure (h.reserve rfl hnone).naming trivial) fun _ V' h' _ => ⟨hargs h' fun x hx => ?_, horigin h', ?_⟩
      · obtain ⟨q, hq, rfl⟩ := List.mem_map.1 hx
        exact h.scope_in h' q hq
      · show u.HasBody _ (V'.scope (d.scope id args)) _
        rw [h.scope_eq h']
        exact .mk h.declared h.text
    | intersection parts =>
      refine reserveInstance_calls h rfl hnone _ _ ((h.reserved_resolvable rfl hnone).mapM hself
        parts fun _ _ _ he hn => .part he hn) fun ts V' h' ⟨hts, hnames, _⟩ => ⟨hargs h' hts, ?_⟩
      rw [h.scope_eq (V.later_pushNamed _ _)] at hnames
      exact ⟨horigin h', _, parts, .mk h.declared h.text, hnames⟩
    | name n => exact expandTransparent_calls h hself hcircular rfl hnone
    | generic n es => exact expandTransparent_calls h hself hcircular rfl hnone
    | array e => exact expandTransparent_calls h hself hcircular rfl hnone
    | literal value => exact expandTransparent_calls h hself hcircular rfl hnone

/-! ## Names

A name is bound in scope, a reserved word, or looked up; the three lemmas `resolveName_of_…`
cut the resolver accordingly, so that each case is treated on its own. -/

/-- The type of a declaration with all its arguments. -/
def instanceType (self : Resolver) (id : DeclarationId) (d : Declaration) (args : List TypeId) :
    Session TypeId :=
  match d.body with
  | .interface _ _ _ | .enum _ => Session.intern (.reference ⟨.declared id, args⟩)
  | .typeAlias body => expandAlias self d.name d.typeParams id.unit body ⟨.declared id, args⟩

/-- The type of a name that is looked up, with arguments. -/
def appliedType (u : Universe) (self : Resolver) (unit : Nat) (n : String) (args : List TypeId) :
    Session TypeId :=
  match u.find? n unit with
  | some id => u.instantiate self id args
  | none =>
    match Builtin.ofName? n with
    | some b => builtinType b args
    | none => Session.intern (.unresolved n)

theorem instantiate_eq {id : DeclarationId} {d : Declaration} (hd : u.declaration? id = some d)
    (args : List TypeId) : u.instantiate self id args = (do
      let missing ← ((List.range d.typeParams.length).drop
        (args.take d.typeParams.length).length).mapM fun position =>
          Session.intern (.param (.param id position))
      instanceType self id d (args.take d.typeParams.length ++ missing)) := by
  unfold instantiate
  rw [hd]
  rfl

theorem resolveName_of_bound {scope : Scope} {n : String} {args : List TypeExpr}
    {q : String × TypeId} (h : scope.bound? n args = some q) :
    u.resolveName self scope n args = pure q.2 := by
  unfold resolveName
  have h : (if args.isEmpty then scope.params.find? (·.1 == n) else none) = some q := h
  rw [h]

theorem resolveName_of_word {scope : Scope} {n : String} {args : List TypeExpr} {f : Form}
    (h : scope.bound? n args = none) (hf : wordForm? n = some f) :
    u.resolveName self scope n args = Session.intern f := by
  have h : (if args.isEmpty then scope.params.find? (·.1 == n) else none) = none := h
  unfold resolveName
  rw [h]
  unfold wordForm? at hf
  cases hi : Intrinsic.ofName? n with
  | some i =>
    rw [hi] at hf
    cases hf
    rfl
  | none =>
    rw [hi] at hf
    dsimp only at hf ⊢
    split at hf
    · cases hf
      rw [if_pos ‹_›]
    · split at hf
      · cases hf
        rw [if_neg ‹_›, if_pos ‹_›]
      · cases hf

theorem resolveName_of_lookup {scope : Scope} {n : String} {args : List TypeExpr}
    (h : scope.bound? n args = none) (hf : wordForm? n = none) :
    u.resolveName self scope n args =
      (do u.appliedType self scope.unit n (← args.mapM (self scope))) := by
  have h : (if args.isEmpty then scope.params.find? (·.1 == n) else none) = none := h
  unfold resolveName
  rw [h]
  unfold wordForm? at hf
  cases hi : Intrinsic.ofName? n with
  | some i =>
    rw [hi] at hf
    cases hf
  | none =>
    rw [hi] at hf
    dsimp only at hf ⊢
    split at hf
    · cases hf
    · split at hf
      · cases hf
      · rw [if_neg ‹_›, if_neg ‹_›]
        rfl

theorem not_isReserved {n : String} (h : wordForm? n = none) : ¬ IsReserved n := by
  unfold wordForm? at h
  rintro (hi | rfl | rfl)
  · cases hn : Intrinsic.ofName? n with
    | none => exact hi hn
    | some i =>
      rw [hn] at h
      cases h
  · cases h
  · cases h

theorem not_mem_of_bound? {scope : Scope} {n : String} {args : List TypeExpr}
    (h : scope.bound? n args = none) : args = [] → n ∉ scope.params.map (·.1) := by
  rintro rfl hmem
  obtain ⟨p, hp, rfl⟩ := List.mem_map.1 hmem
  have hnone := List.find?_eq_none.1 h p hp
  simp at hnone

theorem bound?_nameBy (scope : Scope) (n : String) (args : List TypeExpr)
    (name : TypeId → TypeName) : (scope.nameBy name).bound? n args =
      (scope.bound? n args).map fun q => (q.1, name q.2) := by
  unfold NameScope.bound? Scope.bound?
  split
  · exact List.find?_map
  · rfl

theorem wordName?_eq (n : String) (name : TypeId → TypeName) :
    wordName? n = (wordForm? n).map (Form.nameBy name) := by
  unfold wordName? wordForm?
  cases Intrinsic.ofName? n with
  | some i => rfl
  | none =>
    dsimp only
    split
    · rfl
    · split
      · rfl
      · rfl

theorem instanceType_calls (hself : u.Designates self) (hcircular : ∀ n, ¬ u.Circular n)
    (hV : u.Naming V) (hd : u.declaration? id = some d)
    (hargs : ∀ x ∈ args, V.Has x) (hlength : args.length = d.typeParams.length)
    (hlead : u.LeadTo V.table.expanding id) : u.Calls P V (instanceType self id d args) fun t V' =>
      u.Called (.inst (.declared id) (V.names args)) t V' := by
  have hreference (hkind : DeclarationBody.kind d.body ≠ .typeAlias) : u.Calls P V
      (Session.intern (.reference ⟨.declared id, args⟩))
      fun t V' => u.Called (.inst (.declared id) (V.names args)) t V' := by
    refine (Calls.intern (f := .reference ⟨.declared id, args⟩) hV hargs).mono (fun _ h => h)
      fun t V' _ ⟨ht, hname⟩ => ⟨ht, ?_⟩
    rw [hname]
    exact .reference hd hkind
  unfold instanceType
  cases hbody : d.body with
  | interface bases members indexes => exact hreference fun h => by rw [hbody] at h; cases h
  | enum members => exact hreference fun h => by rw [hbody] at h; cases h
  | typeAlias body =>
    exact expandAlias_calls ⟨hV, hd, hbody, hargs, hlength, hlead⟩ hself hcircular

/-- The own parameters of a declaration that stand for missing arguments. -/
theorem missing_calls (id : DeclarationId) : ∀ (positions : List Nat)
    {V : NamedTable}, u.Naming V → u.Calls P V
      (positions.mapM fun position => Session.intern (.param (.param id position)))
      fun ts V' => (∀ t ∈ ts, V'.Has t) ∧
        V'.names ts = positions.map fun position => .param (.param id position)
  | [], V, hV => by
    rw [List.mapM_nil]
    exact .pure hV ⟨fun _ h => (by cases h), rfl⟩
  | position :: positions, V, hV => by
    rw [List.mapM_cons]
    refine .bind hV (.intern hV fun x hx => by cases hx) fun t V₁ h₁ ⟨ht, hname⟩ => ?_
    refine .bind h₁.naming (missing_calls id positions h₁.naming) fun ts V₂ h₂ ⟨hts, hnames⟩ => ?_
    refine .pure h₂.naming ⟨List.forall_mem_cons.2 ⟨h₂.later.has t ht, hts⟩, ?_⟩
    rw [NamedTable.names, List.map_cons, List.map_cons, h₂.later.name t ht, hname]
    exact congrArg (_ :: ·) hnames

theorem names_complete {V V' : NamedTable} (h : V.Later V') {id : DeclarationId} {count : Nat}
    {args missing : List TypeId} (hargs : ∀ t ∈ args, V.Has t) (hnames : V'.names missing =
      ((List.range count).drop (args.take count).length).map fun position =>
        .param (.param id position)) :
    V'.names (args.take count ++ missing) = completeNames id count (V.names args) := by
  rw [NamedTable.names, List.map_append, ← NamedTable.names, ← NamedTable.names, hnames,
    h.names fun t ht => hargs t (List.mem_of_mem_take ht)]
  unfold completeNames
  rw [← List.map_take, List.length_map]

theorem instantiate_calls (hself : u.Designates self) (hcircular : ∀ n, ¬ u.Circular n)
    (hV : u.Naming V) (hd : u.declaration? id = some d) (hargs : ∀ x ∈ args, V.Has x)
    (hlead : u.LeadTo V.table.expanding id) : u.Calls P V (u.instantiate self id args) fun t V' =>
      u.Called (.inst (.declared id) (completeNames id d.typeParams.length (V.names args))) t V' := by
  rw [instantiate_eq hd]
  intro t s₂ hrun
  obtain ⟨missing, s₁, hrun₁, hrun₂⟩ := bind_eq_some.1 hrun
  have hlength := length_of_mapM hrun₁
  rw [List.length_drop, List.length_range] at hlength
  obtain ⟨V₁, rfl, h₁, hmissing, hnames⟩ := missing_calls (P := P) id _ hV missing s₁ hrun₁
  -- missing arguments are filled up with the parameters of the declaration itself
  have hall : ∀ x ∈ args.take d.typeParams.length ++ missing, V₁.Has x := by
    intro x hx
    rcases List.mem_append.1 hx with hx | hx
    · exact h₁.later.has x (hargs x (List.mem_of_mem_take hx))
    · exact hmissing x hx
  have hcount : (args.take d.typeParams.length ++ missing).length = d.typeParams.length := by
    rw [List.length_append, hlength, List.length_take]
    omega
  obtain ⟨V₂, rfl, h₂, ht⟩ := instanceType_calls (P := P) hself hcircular h₁.naming hd hall hcount
    (by rw [h₁.expanding]; exact hlead) t s₂ hrun₂
  rw [names_complete h₁.later hargs hnames] at ht
  exact ⟨V₂, rfl, h₁.trans hV h₂, ht⟩

theorem appliedType_calls (hself : u.Designates self) (hcircular : ∀ n, ¬ u.Circular n)
    (hV : u.Naming V) {unit : Nat} {n : String} (hargs : ∀ x ∈ args, V.Has x)
    (hlead : ∀ id, u.find? n unit = some id → u.LeadTo V.table.expanding id) :
    u.Calls P V (u.appliedType self unit n args) fun t V' =>
      u.Called (.applied unit n (V.names args)) t V' := by
  unfold appliedType
  split
  · rename_i id hfind
    obtain ⟨d, hmem, -⟩ := mem_declarations_of_find? hfind
    have hd := mem_declarations_iff.1 hmem
    exact (instantiate_calls hself hcircular hV hd hargs (hlead id hfind)).mono (fun _ h => h)
      fun t V' _ ht => ⟨ht.has, .declared hfind hd ht.names⟩
  · rename_i hfind
    split
    · rename_i b hb
      refine (builtinType_calls hV b hargs).mono (fun _ h => h) fun t V' _ ⟨ht, hname⟩ => ⟨ht, ?_⟩
      rw [hname]
      exact .builtin hfind hb
    · rename_i hb
      refine (Calls.intern hV fun x hx => by cases hx).mono (fun _ h => h)
        fun t V' _ ⟨ht, hname⟩ => ⟨ht, ?_⟩
      rw [hname]
      exact .unknown hfind hb

/-! A name that is neither bound nor a word is looked up after its arguments are resolved.  What
is under way does not change meanwhile, so the condition that the declaration leads to
everything under way is still there when it is instantiated. -/

theorem resolveName_calls (hself : u.Designates self) (hcircular : ∀ n, ¬ u.Circular n) {p : Site}
    {scope : Scope} {n : String} {args : List TypeExpr}
    (h : u.Resolvable V p scope (.generic n args)) :
    u.Calls (·.Within p) V (u.resolveName self scope n args) fun t V' =>
      u.Called (.expr p (V.scope scope) (.generic n args)) t V' := by
  have hbound := bound?_nameBy scope n args V.name
  cases hparam : scope.bound? n args with
  | some q =>
    rw [resolveName_of_bound hparam]
    rw [hparam] at hbound
    have hq : V.Has q.2 := by
      unfold Scope.bound? at hparam
      split at hparam
      · exact h.has _ (List.mem_of_find?_eq_some hparam)
      · cases hparam
    exact .pure h.naming ⟨hq, .bound (q := (q.1, V.name q.2)) hbound⟩
  | none =>
    rw [hparam] at hbound
    have hword := wordName?_eq n V.name
    cases hform : wordForm? n with
    | some f =>
      rw [resolveName_of_word hparam hform]
      rw [hform] at hword
      have hparts : ∀ x ∈ (TypeData.form f).parts, V.Has x := by
        rw [wordForm?_parts hform]
        exact fun x hx => by cases hx
      refine (Calls.intern h.naming hparts).mono (fun _ h => h) fun t V' _ ⟨ht, hname⟩ => ⟨ht, ?_⟩
      rw [hname]
      exact .word hbound hword
    | none =>
      rw [resolveName_of_lookup hparam hform]
      rw [hform] at hword
      have hreserved := not_isReserved hform
      refine .bind h.naming (h.mapM hself args fun _ _ _ he hn => .argument hreserved he hn) fun ts V₁ h₁ ⟨hts, hnames, _⟩ => ?_
      have hlead : ∀ id, u.find? n scope.unit = some id → u.LeadTo V₁.table.expanding id := by
        intro id hfind
        rw [h₁.expanding]
        exact h.guarded n id (.generic (not_mem_of_bound? hparam)) hreserved hfind
      refine (appliedType_calls hself hcircular h₁.naming hts hlead).mono (fun _ h => h)
        fun t V' h' ht => ⟨ht.has, ?_⟩
      exact .applied hbound hword hnames.1
        (fun i e x he hx => (hnames.2 i e x he hx).mono (h₁.naming.keeps_recorded h'.later)) ht.names

theorem resolveStep_designates (hself : u.Designates self) (hcircular : ∀ n, ¬ u.Circular n) :
    u.Designates (u.resolveStep self) := by
  intro V p scope e h
  have hnew : ∀ {V' : NamedTable}, u.Continued (·.Within p) V V' → V'.Owned p := fun h' =>
    h.naming.keeps_owned h'.later h.owned
  cases e with
  | name n =>
    have hname : ∀ params m, (TypeExpr.generic n []).LooksUp false params m →
        (TypeExpr.name n).LooksUp false params m := by
      intro params m hm
      cases hm with
      | generic h => exact .name (h rfl)
      | argument _ he _ => cases he
    refine (resolveName_calls hself hcircular
      ⟨h.naming, h.has, h.guarded.part hname, h.owned, h.free⟩).mono (fun _ h => h)
      fun t V' _ ht => ⟨ht.has, .name ht.names⟩
  | generic n args => exact resolveName_calls hself hcircular h
  | array e =>
    have hpart : u.Resolvable V (p.child 0) scope e :=
      ⟨h.naming, h.has, h.guarded.part fun _ _ hn => .element hn, h.owned.child 0,
        fun t q ht hq hw => h.free t q ht hq hw.of_child⟩
    refine .bind h.naming ((hself V (p.child 0) scope e hpart).mono (fun _ hq => hq.of_child)
      fun _ _ _ h => h) fun x V₁ h₁ hx => ?_
    refine (Calls.intern (f := .array x) h₁.naming fun y hy => ?_).mono (fun _ h => h)
      fun t V' h' ⟨ht, hname⟩ => ⟨ht, ?_⟩
    · rw [List.mem_singleton.1 hy]
      exact hx.has
    · rw [hname]
      exact .array (hx.names.mono (h₁.naming.keeps_recorded h'.later))
  | union branches =>
    refine .bind h.naming (h.mapM hself branches fun _ _ _ he hn => .branch he hn)
      fun ts V₁ h₁ ⟨hts, hnames, _⟩ => ?_
    refine (Calls.intern (f := .union ts) h₁.naming hts).mono (fun _ h => h)
      fun t V' h' ⟨ht, hname⟩ => ⟨ht, ?_⟩
    rw [hname]
    exact .union hnames.1 fun i e x he hx =>
      (hnames.2 i e x he hx).mono (h₁.naming.keeps_recorded h'.later)
  | intersection parts =>
    refine .bind h.naming (h.mapM hself parts fun _ _ _ he hn => .part he hn)
      fun ts V₁ h₁ ⟨hts, hnames, hunused⟩ => ?_
    -- an intersection has a handle for this site, which nothing was resolved at yet
    refine (Calls.newObject h₁.naming (.intersection ts) (p := p)
      (N := .intersection p.listing p.owner p.path (V₁.names ts)) hts ⟨p, rfl⟩ rfl (hnew h₁)
      hunused).mono ?_ fun t V' h' ⟨ht, hname⟩ => ⟨ht, ?_⟩
    · rintro q rfl
      exact .refl q
    · rw [hname]
      exact .intersection hnames.1 fun i e x he hx =>
        (hnames.2 i e x he hx).mono (h₁.naming.keeps_recorded h'.later)
  | literal value =>
    refine (Calls.intern (f := .literal value) h.naming fun x hx => by cases hx).mono (fun _ h => h)
      fun t V' _ ⟨ht, hname⟩ => ⟨ht, ?_⟩
    rw [hname]
    exact .literal
  | object members indexes =>
    refine (Calls.newObject h.naming (.literal members indexes scope) (p := p)
      (N := .object p.listing p.owner p.path members indexes scope.unit (V.scope scope).params)
      (fun x hx => ?_) ⟨p, rfl⟩ rfl h.owned fun t ht hq => h.free t p ht hq (.refl p)).mono ?_
      fun t V' _ ⟨ht, hname⟩ => ⟨ht, ?_⟩
    · obtain ⟨q, hq, rfl⟩ := List.mem_map.1 hx
      exact h.has q hq
    · rintro q rfl
      exact .refl q
    · rw [hname]
      exact .object

/-- **Resolution answers with a type that is called what the expression is called.** -/
theorem resolve_designates (hcircular : ∀ n, ¬ u.Circular n) : ∀ fuel, u.Designates (u.resolve fuel)
  | 0 => fun _ _ _ _ _ _ _ h => by cases h
  | fuel + 1 => resolveStep_designates (resolve_designates hcircular fuel) hcircular

end Resolution

end Universe
end TypedJson
