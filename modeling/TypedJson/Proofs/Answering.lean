import TypedJson.Proofs.Budget
import TypedJson.Proofs.Fuel
import TypedJson.Proofs.Lasting
import TypedJson.Proofs.Questions
/-!
# Every text is resolved

With as much fuel as there is budget an expression is resolved, and the members and index
signatures of a type are listed.  None of these questions adds to the budget of the table, so
there is a bound on the handles of every table that questions lead to
(`Universe.size_le_of_reaches`).

The proofs are book-keeping with the budget.  A computation is given a cost, and it has a
result if the fuel covers the budget together with the cost; afterwards the budget has grown
by no more than the cost.  Costs add up along `bind` and `mapM`, an expression costs a
multiple of its size, and what a declaration or a list costs is released from the budget
when it is entered for the first time.  So the cost of a question comes out as nothing.
-/
namespace TypedJson
namespace Universe

/-- If the fuel covers the budget and the cost, then the computation has a result and takes no
more than the cost. -/
def Affords (u : Universe) (fuel : Nat) (s : Interner) (m : Session α) (cost : Nat) : Prop :=
  u.budget s + cost ≤ fuel → ∃ a s', m s = some (a, s') ∧ s.Retains s' ∧
    u.budget s' ≤ u.budget s + cost

namespace Affords

variable {u : Universe} {fuel : Nat} {s : Interner} {α β : Type}

theorem pure (a : α) : u.Affords fuel s (Pure.pure a) 0 :=
  fun _ => ⟨a, s, rfl, .refl s, Nat.le_refl _⟩

theorem query_bind {f : Interner → α} {g : α → Session β} {cost : Nat}
    (h : u.Affords fuel s (g (f s)) cost) : u.Affords fuel s (Session.query f >>= g) cost := h

theorem bind {m : Session α} {f : α → Session β} {c k : Nat}
    (hm : u.Affords fuel s m c)
    (hf : ∀ a s', s.Retains s' → u.budget s' ≤ u.budget s + c → u.Affords fuel s' (f a) k) :
    u.Affords fuel s (m >>= f) (c + k) := by
  intro hfuel
  obtain ⟨a, s₁, hrun, hretains, hcost⟩ := hm (by omega)
  obtain ⟨b, s₂, hrun', hretains', hcost'⟩ := hf a s₁ hretains hcost (by omega)
  exact ⟨b, s₂, bind_eq_some.2 ⟨a, s₁, hrun, hrun'⟩, hretains.trans hretains', by omega⟩

theorem weaken {fuel' : Nat} {m : Session α} {cost cost' : Nat} (h : u.Affords fuel s m cost)
    (extra : Nat) (hcost : cost + extra ≤ cost') (hfuel : fuel' ≤ fuel + extra) :
    u.Affords fuel' s m cost' := by
  intro henough
  obtain ⟨a, s', hrun, hretains, hle⟩ := h (by omega)
  exact ⟨a, s', hrun, hretains, by omega⟩

theorem mono {m : Session α} {cost cost' : Nat} (h : u.Affords fuel s m cost)
    (hcost : cost ≤ cost') : u.Affords fuel s m cost' :=
  h.weaken 0 hcost (Nat.le_refl _)

theorem map {m : Session α} {f : α → β} {cost : Nat} (h : u.Affords fuel s m cost) :
    u.Affords fuel s (f <$> m) cost := by
  rw [map_eq_pure_bind]
  exact h.bind fun a s' _ _ => pure (f a)

theorem mapM {f : α → Session β} {c : α → Nat} : ∀ (as : List α) {s : Interner},
    (∀ a ∈ as, ∀ s', s.Retains s' → u.Affords fuel s' (f a) (c a)) →
    u.Affords fuel s (as.mapM f) (as.map c).sum
  | [], _, _ => by
    rw [List.mapM_nil]
    exact pure []
  | a :: as, s, hf => by
    rw [List.mapM_cons, List.map_cons, List.sum_cons]
    refine (hf a List.mem_cons_self s (.refl s)).bind fun b s₁ h₁ _ => ?_
    refine (mapM as fun x hx s' h' => hf x (List.mem_cons_of_mem a hx) s' (h₁.trans h')).bind
      (k := 0) fun bs s₂ _ _ => pure (b :: bs)

theorem mapM_sizeOf [SizeOf α] {f : α → Session β} (as : List α)
    (hf : ∀ a ∈ as, ∀ s', u.Affords fuel s' (f a) (10 * sizeOf a)) :
    u.Affords fuel s (as.mapM f) (10 * sizeOf as - 10) := by
  have hsum := sum_sizeOf_le 10 as
  exact (mapM as fun a ha s' _ => hf a ha s').mono (by omega)

end Affords

variable {u : Universe} {fuel : Nat} {s : Interner}

/-! ## Single types

A form that is new makes one handle.  The cost covers the handle and the lists it lacks,
which for a form without members is little. -/

theorem costs_of_form {f : Form} (h : u.interface? (.form f) = none) :
    u.memberCost (.form f) = 0 ∧ u.indexCost (.form f) = 0 := by
  unfold memberCost indexCost
  rw [h]
  exact ⟨rfl, rfl⟩

theorem push_affords (d : TypeData) : u.Affords fuel s (fun s => some (s.push d))
    (3 + u.memberCost d + u.indexCost d) :=
  fun _ => ⟨_, _, rfl, .push s d, budget_push u s d⟩

theorem intern_affords {f : Form} (h : u.interface? (.form f) = none) :
    u.Affords fuel s (Session.intern f) 3 := by
  intro hfuel
  cases hfind : s.find? f with
  | some t =>
    refine ⟨t, s, ?_, .refl s, Nat.le_add_right _ _⟩
    simp only [Session.intern, Interner.intern, hfind]
  | none =>
    obtain ⟨hmembers, hindexes⟩ := costs_of_form h
    have hpush := budget_push u s (.form f)
    refine ⟨⟨s.slots.size⟩, (s.push (.form f)).2, ?_, .push s (.form f), by omega⟩
    simp only [Session.intern, Interner.intern, hfind]
    rfl

theorem newObject_affords (origin : Option Instance) (shape : Shape) :
    u.Affords fuel s (newObject origin shape)
      (3 + u.memberCost (.object origin shape) + u.indexCost (.object origin shape)) := by
  have heq : newObject origin shape = fun s => some (s.push (.object origin shape)) :=
    funext (newObject_eq origin shape)
  rw [heq]
  exact push_affords _

theorem argumentOr_affords {i : Intrinsic} (given : Option TypeId) :
    u.Affords fuel s (argumentOr i given) 3 := by
  cases given with
  | some t => exact (Affords.pure t).mono (Nat.zero_le 3)
  | none => exact intern_affords rfl

theorem entersNoLess_record (s : Interner) (i : Instance) (t : TypeId) :
    EntersNoLess s (s.record i t) := by
  refine entersNoLess_of (fun j x h => ?_) (fun j h => .inl h) fun x f h => h
  by_cases heq : i = j
  · exact ⟨t, by rw [Interner.instance?_record, if_pos heq]⟩
  · exact ⟨x, by rw [Interner.instance?_record, if_neg heq, h]⟩

theorem recordType_affords (key value : TypeId) : u.Affords fuel s (recordType key value) 3 := by
  unfold recordType
  refine .query_bind ?_
  cases s.instance? ⟨.builtin .record, [key, value]⟩ with
  | some t => exact (Affords.pure t).mono (Nat.zero_le 3)
  | none =>
    refine (newObject_affords _ _).bind (k := 0) fun t s₁ h₁ _ _ => ?_
    exact ⟨t, _, rfl, .record (.refl s₁) _ t,
      budget_le_of_slots_eq (entersNoLess_record s₁ _ t) rfl⟩

theorem builtinType_affords (b : Builtin) (args : List TypeId) :
    u.Affords fuel s (builtinType b args) 9 := by
  cases b with
  | array =>
    have harray : u.Affords fuel s (do Session.intern (.array (← argumentOr .unknown args[0]?)))
        (3 + 3) := (argumentOr_affords _).bind fun t s₁ _ _ => intern_affords rfl
    exact harray.mono (by decide)
  | date => exact (intern_affords rfl).mono (by decide)
  | pattern => exact (intern_affords rfl).mono (by decide)
  | record =>
    refine (argumentOr_affords _).bind (k := 6) fun key s₁ _ _ => ?_
    exact (argumentOr_affords _).bind (k := 3) fun value s₂ _ _ => recordType_affords key value

/-! ## Declarations

An alias is entered when its handle is made, or when its expansion comes under way; either
releases what its body costs.  An alias that is met again while it is under way cannot be
entered a second time, and for that the caller pays (`entryCost`). -/

/-- Every expression is resolved at the cost of its size. -/
def Solvent (u : Universe) (fuel : Nat) (self : Resolver) : Prop :=
  ∀ s scope e, u.Affords fuel s (self scope e) (10 * sizeOf e)

/-- An alias that is met again while it is under way makes a handle. -/
def entryCost (s : Interner) : Nat := if s.expanding = [] then 0 else 3

theorem entryCost_le (s : Interner) : entryCost s ≤ 3 := by
  unfold entryCost
  split <;> omega

/-- **The handle of an alias is paid from what the alias counts for.** -/
theorem reserveInstance_enters {id : DeclarationId} {d : Declaration} {body : TypeExpr}
    (hd : u.declaration? id = some d) (hbody : d.body = .typeAlias body)
    (hnew : ¬ IsEntered s id d.body) :
    ∃ t s', reserveInstance ⟨.declared id, []⟩ s = some (t, s') ∧ s.Retains s' ∧
      (s'.Has t ∧ ¬ s.Has t ∧ s'.data t = .reserved) ∧
      u.budget s' + 20 * sizeOf d.body ≤ u.budget s + 3 := by
  have hentered : IsEntered ((s.push .reserved).2.record ⟨.declared id, []⟩ ⟨s.slots.size⟩) id
      d.body := by
    rw [hbody]
    exact .inl ⟨⟨s.slots.size⟩, by rw [Interner.instance?_record, if_pos rfl]⟩
  have hnew' : ¬ IsEntered (s.push .reserved).2 id d.body := by
    rw [hbody] at hnew ⊢
    exact hnew
  have hpush : u.budget (s.push .reserved).2 ≤ u.budget s + 3 := budget_push u s .reserved
  have henter := budget_enter_of_slots_eq (entersNoLess_record (s.push .reserved).2
    ⟨.declared id, []⟩ ⟨s.slots.size⟩) rfl hd hnew' hentered
  refine ⟨⟨s.slots.size⟩, _, rfl, (Interner.Retains.push s .reserved).record _ _, ⟨?_, ?_, ?_⟩, ?_⟩
  · exact Interner.has_push_new s .reserved
  · exact Nat.lt_irrefl _
  · exact Interner.data_push_new s .reserved
  · exact henter.trans hpush

/-- The handle is reserved, the parts are resolved, and the handle is filled in. -/
theorem reserveInstance_affords {α : Type} {id : DeclarationId} {d : Declaration}
    {body : TypeExpr} (hd : u.declaration? id = some d) (hbody : d.body = .typeAlias body)
    (hnew : ¬ IsEntered s id d.body) (parts : Session α) {cost cost' : Nat} (data : α → TypeData)
    (hparts : ∀ s', u.Affords fuel s' parts cost)
    (hdata : ∀ a, u.memberCost (data a) + u.indexCost (data a) ≤ cost')
    (hcost : 3 + cost + cost' ≤ 20 * sizeOf d.body) :
    u.Affords fuel s (do
      let t ← reserveInstance ⟨.declared id, []⟩
      let a ← parts
      Session.update (·.define t (data a))
      pure t) 0 := by
  intro hfuel
  obtain ⟨t, s₁, hrun, hretains, ⟨hhas, hnot, hopen⟩, henter⟩ := reserveInstance_enters hd hbody hnew
  obtain ⟨a, s₂, hrun', hretains', hcost'⟩ := hparts s₁ (by omega)
  have hopen' : s₂.data t = .reserved := (hretains'.data t hhas).trans hopen
  have hdefine := budget_define (u := u) (hretains'.has hhas) hopen' (data a)
  have hlists := hdata a
  refine ⟨t, s₂.define t (data a), ?_, (hretains.trans hretains').define (hretains'.has hhas) hnot _,
    by omega⟩
  exact bind_eq_some.2 ⟨t, s₁, hrun, bind_eq_some.2 ⟨a, s₂, hrun', rfl⟩⟩

/-- An alias without a handle of its own stands aside while its body is resolved. -/
theorem expandTransparent_affords {self : Resolver} (hself : u.Solvent fuel self)
    {id : DeclarationId} {d : Declaration} {body : TypeExpr} (hd : u.declaration? id = some d)
    (hbody : d.body = .typeAlias body) (hopen : body.isStructure = false)
    (hnone : s.instance? ⟨.declared id, []⟩ = none) (name : String) (scope : Scope) :
    u.Affords fuel s (expandTransparent self name ⟨.declared id, []⟩ scope body)
      (entryCost s) := by
  unfold expandTransparent
  refine .query_bind ?_
  by_cases hagain : s.expanding.contains ⟨.declared id, []⟩ = true
  · rw [if_pos hagain]
    have hcost : entryCost s = 3 := by
      refine if_neg fun hnil => ?_
      rw [hnil] at hagain
      cases hagain
    rw [hcost]
    exact intern_affords rfl
  rw [if_neg hagain]
  intro hfuel
  have hnew : ¬ IsEntered s id d.body := by
    rw [hbody]
    rintro (⟨t, ht⟩ | ⟨-, h⟩)
    · rw [hnone] at ht
      cases ht
    · exact hagain (List.contains_iff_mem.2 h)
  have hentered : IsEntered { s with expanding := ⟨.declared id, []⟩ :: s.expanding } id d.body := by
    rw [hbody]
    exact .inr ⟨hopen, List.mem_cons_self⟩
  have hexpand : EntersNoLess s { s with expanding := ⟨.declared id, []⟩ :: s.expanding } :=
    entersNoLess_of (fun i t h => ⟨t, h⟩) (fun i h => .inl (List.mem_cons_of_mem _ h))
      fun t f h => h
  have henter := budget_enter_of_slots_eq hexpand rfl hd hnew hentered
  have hsize : sizeOf d.body = 1 + sizeOf body := by rw [hbody, DeclarationBody.typeAlias.sizeOf_spec]
  obtain ⟨t, s₂, hrun, hretains, hcost⟩ :=
    hself { s with expanding := ⟨.declared id, []⟩ :: s.expanding } scope body (by omega)
  -- the alias is no longer under way, but by then its handle is known
  have hleave : EntersNoLess s₂
      ({ s₂ with expanding := s₂.expanding.drop 1 }.record ⟨.declared id, []⟩ t) := by
    refine entersNoLess_of (fun i x h => ?_) (fun i h => ?_) fun x f h => h
    · obtain ⟨x', hx'⟩ : ∃ x', (s₂.record ⟨.declared id, []⟩ t).instance? i = some x' := by
        rw [Interner.instance?_record]
        split
        · exact ⟨t, rfl⟩
        · exact ⟨x, h⟩
      exact ⟨x', hx'⟩
    · rw [hretains.expanding] at h
      rcases List.mem_cons.1 h with rfl | h
      · exact .inr ⟨t, by rw [Interner.instance?_record, if_pos rfl]⟩
      · refine .inl ?_
        show i ∈ s₂.expanding.drop 1
        rw [hretains.expanding]
        exact h
  have hbudget := budget_le_of_slots_eq (u := u) hleave rfl
  refine ⟨t, _, bind_eq_some.2 ⟨(), _, rfl, bind_eq_some.2 ⟨t, s₂, hrun, rfl⟩⟩,
    ⟨hretains.size, hretains.data, ?_⟩, ?_⟩
  · show s₂.expanding.drop 1 = s.expanding
    rw [hretains.expanding]
    rfl
  · refine hbudget.trans ?_
    omega

theorem expandAlias_affords {self : Resolver} (hself : u.Solvent fuel self)
    {id : DeclarationId} {d : Declaration} {body : TypeExpr} (hd : u.declaration? id = some d)
    (hbody : d.body = .typeAlias body) (name : String) (params : List String) :
    u.Affords fuel s (expandAlias self name params id.unit body ⟨.declared id, []⟩)
      (entryCost s) := by
  have hsize : sizeOf d.body = 1 + sizeOf body := by rw [hbody, DeclarationBody.typeAlias.sizeOf_spec]
  have hall : ∀ (scope : Scope) (es : List TypeExpr) s',
      u.Affords fuel s' (es.mapM (self scope)) (10 * sizeOf es - 10) := fun scope es s' =>
    .mapM_sizeOf es fun e _ s'' => hself s'' scope e
  unfold expandAlias
  refine .query_bind ?_
  cases hnone : s.instance? ⟨.declared id, []⟩ with
  | some t => exact (Affords.pure t).mono (Nat.zero_le _)
  | none =>
    have htransparent := expandTransparent_affords (s := s) hself hd hbody
    have hnew : body.isStructure = true → ¬ IsEntered s id d.body := by
      intro hstructure
      rw [hbody]
      rintro (⟨t, ht⟩ | ⟨hopen, -⟩)
      · rw [hnone] at ht
        cases ht
      · rw [hstructure] at hopen
        cases hopen
    cases body with
    | union branches =>
      rw [TypeExpr.union.sizeOf_spec] at hsize
      exact (reserveInstance_affords hd hbody (hnew rfl) _ (fun ts => .namedUnion _ ts)
        (hall _ branches) (fun ts => Nat.le_refl 0) (by omega)).mono (Nat.zero_le _)
    | object members indexes =>
      rw [TypeExpr.object.sizeOf_spec] at hsize
      exact (reserveInstance_affords hd hbody (hnew rfl) (pure ())
        (fun _ => .object _ (.literal members indexes _)) (fun s' => .pure ())
        (fun _ => Nat.le_refl (10 * sizeOf members + 10 * sizeOf indexes)) (by omega)).mono
        (Nat.zero_le _)
    | intersection parts =>
      rw [TypeExpr.intersection.sizeOf_spec] at hsize
      exact (reserveInstance_affords hd hbody (hnew rfl) _ (fun ts => .object _ (.intersection ts))
        (hall _ parts) (fun ts => Nat.le_refl 0) (by omega)).mono (Nat.zero_le _)
    | name n => exact htransparent rfl hnone name _
    | generic n es => exact htransparent rfl hnone name _
    | array e => exact htransparent rfl hnone name _
    | literal value => exact htransparent rfl hnone name _

theorem costs_of_reference {id : DeclarationId} {d : Declaration}
    (hd : u.declaration? id = some d) (args : List TypeId) :
    3 + u.memberCost (.form (.reference ⟨.declared id, args⟩)) +
      u.indexCost (.form (.reference ⟨.declared id, args⟩)) ≤ 20 * sizeOf d.body := by
  obtain ⟨name, exported, line, typeParams, body⟩ := d
  unfold memberCost indexCost
  cases body with
  | interface bases members indexes =>
    simp only [interface?, hd, DeclarationBody.interface.sizeOf_spec]
    omega
  | typeAlias body =>
    simp only [interface?, hd, DeclarationBody.typeAlias.sizeOf_spec]
    omega
  | enum members =>
    simp only [interface?, hd, DeclarationBody.enum.sizeOf_spec]
    omega

/-- The handle of an interface pays for the lists that it still lacks. -/
theorem reference_affords {id : DeclarationId} {d : Declaration}
    (hd : u.declaration? id = some d) (hkind : DeclarationBody.kind d.body ≠ .typeAlias) :
    u.Affords fuel s (Session.intern (.reference ⟨.declared id, []⟩)) 0 := by
  intro hfuel
  cases hfind : s.find? (.reference ⟨.declared id, []⟩) with
  | some t =>
    refine ⟨t, s, ?_, .refl s, Nat.le_refl _⟩
    simp only [Session.intern, Interner.intern, hfind]
  | none =>
    have hslots := sum_slots_push u s (.form (.reference ⟨.declared id, []⟩))
    have hnew : ¬ IsEntered s id d.body := by
      intro hentered
      cases hbody : d.body with
      | typeAlias => exact hkind (by rw [hbody]; rfl)
      | interface | enum =>
        rw [hbody] at hentered
        obtain ⟨t, ht⟩ := hentered
        exact Interner.find?_eq_none_iff.1 hfind t ht
    have hdata : (s.push (.form (.reference ⟨.declared id, []⟩))).2.data ⟨s.slots.size⟩ =
        .form (.reference ⟨.declared id, []⟩) := Interner.data_push_new s _
    have hentered : IsEntered (s.push (.form (.reference ⟨.declared id, []⟩))).2 id d.body := by
      cases hbody : d.body with
      | typeAlias => exact absurd (by rw [hbody]; rfl) hkind
      | interface | enum => exact ⟨_, hdata⟩
    have henter := sum_declarations_enter (entersNoLess_push s _) hd hnew hentered
    have hcost := costs_of_reference hd []
    refine ⟨⟨s.slots.size⟩, (s.push (.form (.reference ⟨.declared id, []⟩))).2, ?_, .push s _, ?_⟩
    · simp only [Session.intern, Interner.intern, hfind]
      rfl
    · unfold budget
      omega

theorem typeParams_eq_nil (hu : u.Monomorphic) {id : DeclarationId} {d : Declaration}
    (hd : u.declaration? id = some d) : d.typeParams = [] := hu (id, d) (mem_declarations_iff.2 hd)

theorem instantiate_alias (hu : u.Monomorphic) (self : Resolver) {id : DeclarationId}
    {d : Declaration} {body : TypeExpr} (hd : u.declaration? id = some d)
    (hbody : d.body = .typeAlias body) (args : List TypeId) :
    u.instantiate self id args = expandAlias self d.name [] id.unit body ⟨.declared id, []⟩ := by
  unfold instantiate
  rw [hd]
  simp only [typeParams_eq_nil hu hd, List.length_nil, List.take_zero, List.range_zero,
    List.drop_nil, List.mapM_nil, pure_bind, List.append_nil, hbody]

theorem instantiate_reference (hu : u.Monomorphic) (self : Resolver) {id : DeclarationId}
    {d : Declaration} (hd : u.declaration? id = some d)
    (hkind : DeclarationBody.kind d.body ≠ .typeAlias) (args : List TypeId) :
    u.instantiate self id args = Session.intern (.reference ⟨.declared id, []⟩) := by
  unfold instantiate
  rw [hd]
  simp only [typeParams_eq_nil hu hd, List.length_nil, List.take_zero, List.range_zero,
    List.drop_nil, List.mapM_nil, pure_bind, List.append_nil]
  cases hbody : d.body with
  | interface | enum => rfl
  | typeAlias => exact absurd (by rw [hbody]; rfl) hkind

theorem kind_eq_typeAlias {body : DeclarationBody} (h : DeclarationBody.kind body = .typeAlias) :
    ∃ e, body = .typeAlias e := by
  cases body with
  | typeAlias e => exact ⟨e, rfl⟩
  | interface | enum => cases h

theorem instantiate_affords (hu : u.Monomorphic) {self : Resolver} (hself : u.Solvent fuel self)
    {id : DeclarationId} {d : Declaration} (hd : u.declaration? id = some d)
    (args : List TypeId) : u.Affords fuel s (u.instantiate self id args) (entryCost s) := by
  by_cases hkind : DeclarationBody.kind d.body = .typeAlias
  · obtain ⟨body, hbody⟩ := kind_eq_typeAlias hkind
    rw [instantiate_alias hu self hd hbody]
    exact expandAlias_affords hself hd hbody d.name []
  · rw [instantiate_reference hu self hd hkind]
    exact (reference_affords hd hkind).mono (Nat.zero_le _)

/-! ## Expressions

Sizes are multiplied by ten.  The factor leaves, for each node of the expression, enough for
the handle that it makes. -/

theorem resolveName_affords (hu : u.Monomorphic) {self : Resolver} (hself : u.Solvent fuel self)
    (scope : Scope) (name : String) (args : List TypeExpr) :
    u.Affords fuel s (u.resolveName self scope name args) (9 + (10 * sizeOf args - 10)) := by
  have hleaf : ∀ {f : Form}, u.interface? (.form f) = none →
      u.Affords fuel s (Session.intern f) (9 + (10 * sizeOf args - 10)) := fun h =>
    (intern_affords h).mono (by omega)
  unfold resolveName
  split
  · exact (Affords.pure _).mono (Nat.zero_le _)
  · split
    · exact hleaf rfl
    · by_cases htrue : name = "true"
      · rw [if_pos htrue]
        exact hleaf rfl
      rw [if_neg htrue]
      by_cases hfalse : name = "false"
      · rw [if_pos hfalse]
        exact hleaf rfl
      rw [if_neg hfalse, Nat.add_comm]
      refine (Affords.mapM_sizeOf args fun e _ s' => hself s' scope e).bind fun ts s₁ _ _ => ?_
      cases hfind : u.find? name scope.unit with
      | some id =>
        obtain ⟨d, hmem, -⟩ := mem_declarations_of_find? hfind
        have hentry := entryCost_le s₁
        exact (instantiate_affords hu hself (mem_declarations_iff.1 hmem) ts).mono (by omega)
      | none =>
        cases Builtin.ofName? name with
        | some b => exact builtinType_affords b ts
        | none => exact (intern_affords rfl).mono (by decide)

/-- One step more of fuel is paid by the size of the expression itself. -/
theorem resolveStep_solvent (hu : u.Monomorphic) {self : Resolver} (hself : u.Solvent fuel self) :
    u.Solvent (fuel + 1) (u.resolveStep self) := by
  intro s scope e
  have hall : ∀ es : List TypeExpr, u.Affords fuel s (es.mapM (self scope)) (10 * sizeOf es - 10) :=
    fun es => .mapM_sizeOf es fun e _ s' => hself s' scope e
  cases e with
  | name n =>
    rw [TypeExpr.name.sizeOf_spec]
    refine (resolveName_affords hu hself scope n []).weaken 1 ?_ (Nat.le_refl _)
    rw [List.nil.sizeOf_spec]
    omega
  | generic n args =>
    rw [TypeExpr.generic.sizeOf_spec]
    exact (resolveName_affords hu hself scope n args).weaken 1 (by omega) (Nat.le_refl _)
  | array e =>
    rw [TypeExpr.array.sizeOf_spec]
    have harray : u.Affords fuel s (do Session.intern (.array (← self scope e)))
        (10 * sizeOf e + 3) := (hself s scope e).bind fun t s₁ _ _ => intern_affords rfl
    exact harray.weaken 1 (by omega) (Nat.le_refl _)
  | union branches =>
    rw [TypeExpr.union.sizeOf_spec]
    have hunion : u.Affords fuel s (do Session.intern (.union (← branches.mapM (self scope))))
        (10 * sizeOf branches - 10 + 3) := (hall branches).bind fun t s₁ _ _ => intern_affords rfl
    exact hunion.weaken 1 (by omega) (Nat.le_refl _)
  | intersection parts =>
    rw [TypeExpr.intersection.sizeOf_spec]
    have hparts : u.Affords fuel s (do newObject none (.intersection (← parts.mapM (self scope))))
        (10 * sizeOf parts - 10 + 3) := (hall parts).bind fun ts s₁ _ _ => newObject_affords _ _
    exact hparts.weaken 1 (by omega) (Nat.le_refl _)
  | literal value =>
    have hliteral : u.Affords fuel s (Session.intern (.literal value)) 3 := intern_affords rfl
    rw [TypeExpr.literal.sizeOf_spec]
    exact hliteral.weaken 1 (by omega) (Nat.le_refl _)
  | object members indexes =>
    rw [TypeExpr.object.sizeOf_spec]
    have hobject : u.Affords fuel s (newObject none (.literal members indexes scope))
        (3 + 10 * sizeOf members + 10 * sizeOf indexes) := newObject_affords _ _
    exact hobject.weaken 1 (by omega) (Nat.le_refl _)

/-- **With as much fuel as there is budget every expression is resolved.** -/
theorem resolve_solvent (hu : u.Monomorphic) : ∀ fuel, u.Solvent fuel (u.resolve fuel)
  | 0 => by
    intro s scope e hfuel
    have hsize : 0 < sizeOf e := by cases e <;> simp
    omega
  | fuel + 1 => resolveStep_solvent hu (resolve_solvent hu fuel)

/-! ## Members and index signatures

A list is kept as empty before it is computed, and from that moment it is paid for: the same
list is not computed again, whatever leads back to it. -/

theorem memberType_affords {self : Resolver} (hself : u.Solvent fuel self) (scope : Scope)
    (m : Member) : u.Affords fuel s (memberType self scope m) (10 * sizeOf m) := by
  obtain ⟨name, optional, method, type⟩ := m
  rw [MemberDecl.mk.sizeOf_spec]
  unfold memberType
  split
  · rename_i expr _ htype
    obtain rfl : type = some expr := htype
    rw [Option.some.sizeOf_spec]
    exact (hself s scope expr).map.mono (by omega)
  · exact (Affords.pure _).mono (Nat.zero_le _)

theorem resolveMembers_affords {self : Resolver} (hself : u.Solvent fuel self) (scope : Scope)
    (members : List Member) :
    u.Affords fuel s (resolveMembers self scope members) (10 * sizeOf members) := by
  unfold resolveMembers
  refine (Affords.mapM_sizeOf members fun m _ s' => ?_).mono (Nat.sub_le _ _)
  exact (memberType_affords hself scope m).bind (k := 0) fun type s₁ _ _ => .pure _

theorem resolveIndexes_affords {self : Resolver} (hself : u.Solvent fuel self) (scope : Scope)
    (indexes : List Index) :
    u.Affords fuel s (resolveIndexes self scope indexes) (10 * sizeOf indexes) := by
  unfold resolveIndexes
  refine (Affords.mapM_sizeOf indexes fun x _ s' => ?_).mono (Nat.sub_le _ _)
  obtain ⟨key, value⟩ := x
  have hboth : u.Affords fuel s' (do
      let key ← self scope key
      let value ← self scope value
      pure (TypeIndex.mk key value)) (10 * sizeOf key + (10 * sizeOf value + 0)) :=
    (hself s' scope key).bind fun k s₁ _ _ => (hself s₁ scope value).bind fun v s₂ _ _ => .pure _
  rw [IndexDecl.mk.sizeOf_spec]
  exact hboth.mono (by omega)

theorem bases_affords {α : Type} {self : Resolver} (hself : u.Solvent fuel self) (scope : Scope)
    {ask : TypeId → Session α} (hask : ∀ t s', u.Affords fuel s' (ask t) 0)
    (bases : List TypeExpr) :
    u.Affords fuel s (bases.mapM fun base => do ask (← self scope base)) (10 * sizeOf bases) := by
  refine (Affords.mapM_sizeOf bases fun base _ s' => ?_).mono (Nat.sub_le _ _)
  exact (hself s' scope base).bind (k := 0) fun t s₁ _ _ => hask t s₁

theorem parts_affords {α : Type} {ask : TypeId → Session α}
    (hask : ∀ t s', u.Affords fuel s' (ask t) 0) (parts : List TypeId) :
    u.Affords fuel s (parts.mapM ask) 0 := by
  have hzero : (parts.map fun _ => 0).sum = 0 := by simp
  have hall := Affords.mapM (c := fun _ => 0) (s := s) parts fun t _ s' _ => hask t s'
  rw [hzero] at hall
  exact hall

/-! What is computed for a type is at most its texts, each of them once.  The lists of bases and
parts are asked for in turn, and by induction on the fuel they are paid for already. -/

theorem computeMembers_affords {self : Resolver} (hself : u.Solvent fuel self)
    {membersOf : TypeId → Session (List TypeMember)}
    (hof : ∀ t s', u.Affords fuel s' (membersOf t) 0) (t : TypeId) :
    u.Affords fuel s (u.computeMembers self membersOf t) (u.memberCost (s.data t)) := by
  unfold computeMembers memberCost
  refine .query_bind ?_
  cases u.interface? (s.data t) with
  | some found =>
    obtain ⟨scope, bases, members, indexes⟩ := found
    refine (resolveMembers_affords hself scope members).bind fun own s₁ _ _ => ?_
    exact (bases_affords hself scope hof bases).bind (k := 0) fun inherited s₂ _ _ => .pure _
  | none =>
    dsimp only
    cases s.data t with
    | object origin shape =>
      cases shape with
      | literal members indexes scope => exact resolveMembers_affords hself scope members
      | intersection parts =>
        exact (parts_affords hof parts).bind (k := 0) fun lists s₁ _ _ => .pure _
      | record key value => exact .query_bind (.pure _)
    | form | namedUnion | reserved => exact .pure _

theorem computeIndexes_affords {self : Resolver} (hself : u.Solvent fuel self)
    {indexesOf : TypeId → Session (List TypeIndex)}
    (hof : ∀ t s', u.Affords fuel s' (indexesOf t) 0) (t : TypeId) :
    u.Affords fuel s (u.computeIndexes self indexesOf t) (u.indexCost (s.data t)) := by
  unfold computeIndexes indexCost
  refine .query_bind ?_
  cases u.interface? (s.data t) with
  | some found =>
    obtain ⟨scope, bases, members, indexes⟩ := found
    refine (resolveIndexes_affords hself scope indexes).bind fun own s₁ _ _ => ?_
    exact (bases_affords hself scope hof bases).bind (k := 0) fun inherited s₂ _ _ => .pure _
  | none =>
    dsimp only
    cases s.data t with
    | object origin shape =>
      cases shape with
      | literal members indexes scope => exact resolveIndexes_affords hself scope indexes
      | intersection parts =>
        exact (parts_affords hof parts).bind (k := 0) fun lists s₁ _ _ => .pure _
      | record key value =>
        refine .query_bind ?_
        cases literalKeys? s key with
        | some names => exact .pure _
        | none => exact .pure _
    | form | namedUnion | reserved => exact .pure _

theorem Solvent.of_succ {self : Resolver} (h : u.Solvent (fuel + 1) self) : u.Solvent fuel self :=
  fun s scope e => (h s scope e).weaken 0 (Nat.le_refl _) (Nat.le_succ fuel)

theorem listing_affords {α : Type} (write : α → Interner → Interner) {compute : Session α}
    {empty : α} {cost : Nat} (hwrite : ∀ a s, u.budget (write a s) ≤ u.budget s)
    (hkeeps : ∀ a {s s' : Interner}, s.Retains s' → s.Retains (write a s'))
    (hfirst : u.budget (write empty s) + (1 + cost) ≤ u.budget s)
    (hcompute : u.Affords fuel (write empty s) compute cost) :
    u.Affords (fuel + 1) s (do
      Session.update (write empty)
      let a ← compute
      Session.update (write a)
      pure a) 0 := by
  intro hfuel
  obtain ⟨a, s₁, hrun, hretains, hcost⟩ := hcompute (by omega)
  have hlast := hwrite a s₁
  refine ⟨a, write a s₁, bind_eq_some.2 ⟨(), _, rfl, bind_eq_some.2 ⟨a, s₁, hrun, rfl⟩⟩,
    hkeeps a ((hkeeps empty (.refl s)).trans hretains), by omega⟩

/-! A handle out of range has no slot, so the list that is kept for it is lost; but there is
nothing to list either, and no fuel is used beyond one step. -/

theorem members_of_not_has {t : TypeId} (hhas : ¬ s.Has t) (fuel : Nat) :
    u.members (fuel + 1) t s = some ([], s) := by
  have hsame : ∀ ms, s.setMembers t ms = s := fun ms => modifySlot_of_not_has hhas _
  have hnone : s.members? t = none := by
    rw [Interner.members?, Array.getElem?_eq_none (Nat.le_of_not_lt hhas), Option.bind_none]
  have hcompute : u.computeMembers (u.resolve fuel) (u.members fuel) t s = some ([], s) :=
    computeMembers_of_isBare (by rw [Interner.data_of_not_has hhas]; rfl)
  unfold members
  refine bind_eq_some.2 ⟨none, s, ?_, bind_eq_some.2 ⟨(), s, ?_, bind_eq_some.2 ⟨[], s, hcompute, ?_⟩⟩⟩
  · rw [← hnone]
    rfl
  · exact congrArg (fun s => some ((), s)) (hsame [])
  · exact bind_eq_some.2 ⟨(), s, congrArg (fun s => some ((), s)) (hsame []), rfl⟩

theorem indexes_of_not_has {t : TypeId} (hhas : ¬ s.Has t) (fuel : Nat) :
    u.indexes (fuel + 1) t s = some ([], s) := by
  have hsame : ∀ is, s.setIndexes t is = s := fun is => modifySlot_of_not_has hhas _
  have hnone : s.indexes? t = none := by
    rw [Interner.indexes?, Array.getElem?_eq_none (Nat.le_of_not_lt hhas), Option.bind_none]
  have hcompute : u.computeIndexes (u.resolve fuel) (u.indexes fuel) t s = some ([], s) :=
    computeIndexes_of_isBare (by rw [Interner.data_of_not_has hhas]; rfl)
  unfold indexes
  refine bind_eq_some.2 ⟨none, s, ?_, bind_eq_some.2 ⟨(), s, ?_, bind_eq_some.2 ⟨[], s, hcompute, ?_⟩⟩⟩
  · rw [← hnone]
    rfl
  · exact congrArg (fun s => some ((), s)) (hsame [])
  · exact bind_eq_some.2 ⟨(), s, congrArg (fun s => some ((), s)) (hsame []), rfl⟩

theorem pos_of_has {t : TypeId} (hhas : s.Has t) (hfuel : u.budget s ≤ fuel) : ∃ n, fuel = n + 1 := by
  have hsize := size_le_budget u s
  have hlt : t.index < s.slots.size := hhas
  exact ⟨fuel - 1, by omega⟩

/-- **With more fuel than there is budget the members of every type are listed, at no cost.** -/
theorem members_affords (hu : u.Monomorphic) : ∀ (fuel : Nat) (t : TypeId) (s : Interner),
    u.Affords fuel s (u.members (fuel + 1) t) 0
  | fuel, t, s => by
    by_cases hhas : s.Has t
    · intro hfuel
      obtain ⟨n, rfl⟩ := pos_of_has hhas hfuel
      revert hfuel
      rw [members]
      refine Affords.query_bind ?_
      cases hnone : s.members? t with
      | some ms => exact .pure ms
      | none =>
        have hcompute := computeMembers_affords (s := s.setMembers t [])
          (resolve_solvent hu (n + 1)).of_succ (fun t s => members_affords hu n t s) t
        rw [Interner.data_setMembers] at hcompute
        exact listing_affords (fun ms s => s.setMembers t ms)
          (fun ms s => budget_setMembers u s t ms) (fun ms _ _ h => h.setMembers t ms)
          (budget_setMembers_first hhas hnone []) hcompute
    · exact fun _ => ⟨[], s, members_of_not_has hhas fuel, .refl s, Nat.le_refl _⟩

/-- **With more fuel than there is budget the index signatures of every type are listed, at no
cost.** -/
theorem indexes_affords (hu : u.Monomorphic) : ∀ (fuel : Nat) (t : TypeId) (s : Interner),
    u.Affords fuel s (u.indexes (fuel + 1) t) 0
  | fuel, t, s => by
    by_cases hhas : s.Has t
    · intro hfuel
      obtain ⟨n, rfl⟩ := pos_of_has hhas hfuel
      revert hfuel
      rw [indexes]
      refine Affords.query_bind ?_
      cases hnone : s.indexes? t with
      | some is => exact .pure is
      | none =>
        have hcompute := computeIndexes_affords (s := s.setIndexes t [])
          (resolve_solvent hu (n + 1)).of_succ (fun t s => indexes_affords hu n t s) t
        rw [Interner.data_setIndexes] at hcompute
        exact listing_affords (fun is s => s.setIndexes t is)
          (fun is s => budget_setIndexes u s t is) (fun is _ _ h => h.setIndexes t is)
          (budget_setIndexes_first hhas hnone []) hcompute
    · exact fun _ => ⟨[], s, indexes_of_not_has hhas fuel, .refl s, Nat.le_refl _⟩

/-! ## The bound

A result is the same for all fuels that suffice, so the bound that was shown with enough
fuel holds for every run. -/

theorem Affords.spent {α : Type} {m : Nat → Session α} {cost : Nat}
    (hmore : ∀ fuel, CoveredBy (m fuel) (m (fuel + 1)))
    (h : ∀ fuel, u.Affords fuel s (m (fuel + 1)) cost) {a : α} {s' : Interner}
    (hrun : m fuel s = some (a, s')) : s.Retains s' ∧ u.budget s' ≤ u.budget s + cost := by
  obtain ⟨a', s'', hrun', hretains, hcost⟩ := h (u.budget s + cost) (Nat.le_refl _)
  cases CoveredBy.agree hmore hrun hrun'
  exact ⟨hretains, hcost⟩

/-- **No question adds to the budget.** -/
theorem budget_of_looks (hu : u.Monomorphic) {s' : Interner} (hexpanding : s.expanding = [])
    (h : u.Looks s s') : s.Retains s' ∧ u.budget s' ≤ u.budget s := by
  cases h with
  | @instantiate fuel id d t hd run =>
    have hcost : entryCost s = 0 := if_pos hexpanding
    have hspent := Affords.spent (m := fun fuel => u.instantiate (u.resolve fuel) id [])
      (fun fuel => instantiate_covered u (resolve_covered u fuel) id [])
      (fun fuel => instantiate_affords hu (resolve_solvent hu (fuel + 1)).of_succ hd []) run
    rwa [hcost] at hspent
  | @members fuel t ms run =>
    exact Affords.spent (m := fun fuel => u.members fuel t) (fun fuel => members_covered u fuel t)
      (fun fuel => members_affords hu fuel t s) run
  | @indexes fuel t is run =>
    exact Affords.spent (m := fun fuel => u.indexes fuel t) (fun fuel => indexes_covered u fuel t)
      (fun fuel => indexes_affords hu fuel t s) run

theorem budget_of_reaches (hu : u.Monomorphic) (h : u.Reaches u.start s) :
    s.expanding = [] ∧ u.budget s ≤ u.budget u.start := by
  refine reaches_induction (P := fun s => s.expanding = [] ∧ u.budget s ≤ u.budget u.start) ?_ ?_ h
  · rintro s s' ⟨hexpanding, hbudget⟩ hlooks
    obtain ⟨hretains, hle⟩ := budget_of_looks hu hexpanding hlooks
    exact ⟨hretains.expanding.trans hexpanding, hle.trans hbudget⟩
  · refine ⟨?_, Nat.le_refl _⟩
    refine start_induction (P := fun s => s.expanding = []) rfl fun s id position d _ _ hs => ?_
    unfold Interner.intern
    split
    · exact hs
    · exact hs

/-- **There is one bound on the handles of all tables that questions lead to.** -/
theorem size_le_of_reaches (hu : u.Monomorphic) (h : u.Reaches u.start s) :
    s.slots.size ≤ u.budget u.start :=
  (size_le_budget u s).trans (budget_of_reaches hu h).2

end Universe
end TypedJson
