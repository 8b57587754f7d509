import TypedJson.Proofs.NamedLists
/-!
# A type lists what its name says

Listing the members or index signatures of a type keeps the table to its names, and what is listed
is what the name of the type says (`list_does`), unless some type takes over from itself.  The
texts of the type are resolved at the site of the list, which is new: had anything been resolved
there, the list would be kept already.

The proof combines two that were made before: that a list under way is the only one that may
be incomplete, and that the table keeps to its names as expressions are resolved.  A list is
resolved at a site of its own, so the condition on sites has the form that the resolver asks
for.
-/
namespace TypedJson
namespace Universe

variable {u : Universe} {s : Interner} {V V' V'' : NamedTable} {k : Listing} {t : TypeId}

/-! ## Tables between questions

`Prepared` is the invariant, and `Proceeds` the relation from one table to a later one; both
have the lists under way as a parameter. -/

theorem Naming.keep (hV : u.Naming V) (ht : V.Has t) (l : List k.Item) :
    u.Naming ⟨V.table.keep k t l, V.name⟩ ∧ V.Later ⟨V.table.keep k t l, V.name⟩ := by
  have hinstances : (V.table.keep k t l).instances = V.table.instances := Interner.instances_keep
  have hexpanding : (V.table.keep k t l).expanding = V.table.expanding := Interner.expanding_keep
  have hlater : V.Later ⟨V.table.keep k t l, V.name⟩ := by
    refine ⟨fun _ => Interner.has_keep.2, fun _ _ => rfl, ?_, fun inst hinst => ?_,
      fun k' x hx => ?_⟩
    · rw [hinstances]
      exact List.Subset.refl _
    · unfold NamedTable.Begun
      rw [hinstances, hexpanding]
      exact hinst
    · by_cases heq : (k', x) = (k, t)
      · cases heq
        rw [Interner.kept?_keep ht]
        rfl
      · rw [Interner.kept?_keep_of_ne ht heq]
        exact hx
  refine ⟨hV.of_later hlater (fun x hx => .inl ⟨Interner.has_keep.1 hx, Interner.data_keep x⟩)
    (fun x hx hnot => absurd (Interner.has_keep.1 hx) hnot) (fun inst x hmem => .inl ?_)
    fun inst hmem => .inl ?_, hlater⟩
  · rw [hinstances] at hmem
    exact hmem
  · rw [hexpanding] at hmem
    exact hmem

theorem Naming.not_owned_list (hV : u.Naming V) (ht : V.Has t) (hnone : V.table.kept? k t = none) :
    ¬ V.Owned (listSite k (V.name t)) := by
  rintro ⟨t', ht', hname, hkept⟩
  obtain rfl := hV.injective t' t ht' ht hname
  rw [hnone] at hkept
  cases hkept

/-- The list is what the name of the type says, unless some type takes over from itself. -/
def ListsNamed (u : Universe) (V : NamedTable) (k : Listing) (t : TypeId) (l : List k.Item) : Prop :=
  u.Cyclic V.table ∨ u.Enumerates V.Recorded k (V.name t) (V.items k l)

theorem ListsNamed.later {l : List k.Item} (h : u.ListsNamed V k t l) (hV : u.Naming V)
    (ht : V.Has t) (hl : V.HasItems k l) (h' : V.Later V') (hext : V.table.Extends V'.table) :
    u.ListsNamed V' k t l := by
  refine h.imp (fun hcyclic => hcyclic.extends hext) fun hlists => ?_
  rw [h'.name t ht, h'.items hl]
  exact hlists.mono (hV.keeps_recorded h')

/-- A table between questions that keeps to its names: every list that is kept is what the name of
its type says, but for those under way. -/
structure Prepared (u : Universe) (busy : List (Listing × TypeId)) (V : NamedTable) : Prop where
  naming : u.Naming V
  kept : u.Kept busy V.table
  idle : V.table.expanding = []
  lists : ∀ k t l, V.table.kept? k t = some l → (k, t) ∈ busy ∨ u.ListsNamed V k t l

variable {busy : List (Listing × TypeId)} {P P' : Site → Prop}

theorem hasItems_of_kept (hs : u.Sound V.table) {l : List k.Item} (h : V.table.kept? k t = some l) :
    V.HasItems k l := by
  cases k with
  | members => exact fun m hm x hx => hs.members t l h m hm x (Option.mem_toList.1 hx)
  | indexes =>
    intro m hm x hx
    rcases List.mem_cons.1 hx with rfl | hx
    · exact (hs.indexes t l h m hm).1
    · rw [List.mem_singleton.1 hx]
      exact (hs.indexes t l h m hm).2

theorem Prepared.resolvable (h : u.Prepared busy V) {p : Site} {scope : Scope}
    (hscope : Scope.In scope V.table) (howned : V.Owned p) (hfree : V.Free p) (e : TypeExpr) :
    u.Resolvable V p scope e :=
  ⟨h.naming, hscope, by rw [h.idle]; exact guarded_nil u scope e, howned, hfree⟩

/-- The second table comes of the first, and adds to it at the stated sites only. -/
structure Proceeds (u : Universe) (busy : List (Listing × TypeId)) (P : Site → Prop)
    (V V' : NamedTable) : Prop where
  before : u.Prepared busy V
  after : u.Prepared busy V'
  continued : u.Continued P V V'
  table : V.table.Extends V'.table

namespace Proceeds

theorem refl (h : u.Prepared busy V) : u.Proceeds busy P V V :=
  ⟨h, h, .refl h.naming, ⟨fun _ _ => rfl, List.Subset.refl _⟩⟩

theorem mono (h : u.Proceeds busy P V V') (hP : ∀ q, P q → P' q) : u.Proceeds busy P' V V' :=
  ⟨h.before, h.after, h.continued.mono hP, h.table⟩

theorem trans (h : u.Proceeds busy P V V') (h' : u.Proceeds busy P V' V'') :
    u.Proceeds busy P V V'' :=
  ⟨h.before, h'.after, h.continued.trans h.before.naming h'.continued, h.table.trans h'.table⟩

theorem later (h : u.Proceeds busy P V V') : V.Later V' := h.continued.later

theorem any (h : u.Proceeds busy P V V') : u.Proceeds busy (fun _ => True) V V' :=
  h.mono fun _ _ => trivial

theorem names (h : u.Proceeds busy P V V') {phrase : NamePhrase} {N : TypeName}
    (hN : u.Names V.Recorded phrase N) : u.Names V'.Recorded phrase N :=
  hN.mono (h.before.naming.keeps_recorded h.later)

end Proceeds

/-! ## Computations -/

/-- The computation goes on from a table between questions to another one, and answers as
stated. -/
def Does (u : Universe) (busy : List (Listing × TypeId)) (P : Site → Prop) (V : NamedTable)
    (m : Session α) (Q : α → NamedTable → Prop) : Prop :=
  After V.table m fun a s' => ∃ V' : NamedTable, V'.table = s' ∧ u.Proceeds busy P V V' ∧ Q a V'

namespace Does

variable {α β : Type}

theorem pure (hV : u.Prepared busy V) {a : α} {Q : α → NamedTable → Prop} (h : Q a V) :
    u.Does busy P V (Pure.pure a) Q := After.pure ⟨V, rfl, .refl hV, h⟩

theorem mono {m : Session α} {Q Q' : α → NamedTable → Prop} (h : u.Does busy P V m Q)
    (hP : ∀ q, P q → P' q) (hQ : ∀ a V', u.Proceeds busy P V V' → Q a V' → Q' a V') :
    u.Does busy P' V m Q' :=
  After.mono h fun a _ ⟨V', hs, h', ha⟩ => ⟨V', hs, h'.mono hP, hQ a V' h' ha⟩

theorem bind {m : Session α} {f : α → Session β} {R : α → NamedTable → Prop}
    {Q : β → NamedTable → Prop} (hm : u.Does busy P V m R)
    (hf : ∀ a V', u.Proceeds busy P V V' → R a V' → u.Does busy P V' (f a) Q) :
    u.Does busy P V (m >>= f) Q := by
  intro b s₂ hrun
  obtain ⟨a, s₁, hrun₁, hrun₂⟩ := bind_eq_some.1 hrun
  obtain ⟨V₁, rfl, h₁, ha⟩ := hm a s₁ hrun₁
  obtain ⟨V₂, rfl, h₂, hb⟩ := hf a V₁ h₁ ha b s₂ hrun₂
  exact ⟨V₂, rfl, h₁.trans h₂, hb⟩

/-- Of computations in turn, where each one leaves behind what the next one needs. -/
theorem mapM {I : Nat → NamedTable → Prop} {P : Nat → Site → Prop} {f : α → Session β}
    {Q : Nat → α → β → NamedTable → Prop}
    (hI : ∀ i V V', u.Proceeds busy (P i) V V' → I i V → I (i + 1) V')
    (up : ∀ i a b V V', u.Proceeds busy (fun _ => True) V V' → Q i a b V → Q i a b V') :
    ∀ (as : List α) (k : Nat) {V : NamedTable}, u.Prepared busy V → I k V →
      (∀ i a, as[i]? = some a → ∀ V', u.Proceeds busy (fun _ => True) V V' → I (k + i) V' →
        u.Does busy (P (k + i)) V' (f a) (Q (k + i) a)) →
      u.Does busy (fun q => ∃ i, P i q) V (as.mapM f) fun bs V' =>
        Pointwise (fun i a b => Q (k + i) a b V') as bs
  | [], k, V, hV, _, _ => by
    rw [List.mapM_nil]
    exact .pure hV .nil
  | a :: as, k, V, hV, hk, hf => by
    rw [List.mapM_cons]
    intro bs s₂ hrun
    obtain ⟨b, s₁, hrun₁, hrun⟩ := bind_eq_some.1 hrun
    obtain ⟨V₁, rfl, h₁, hb⟩ := hf 0 a rfl V (.refl hV) hk b s₁ hrun₁
    obtain ⟨bs', s', hrun', hrun⟩ := bind_eq_some.1 hrun
    cases pure_eq_some.1 hrun
    have hshift : ∀ i, k + 1 + i = k + (i + 1) := fun i => by omega
    obtain ⟨V₂, rfl, h₂, hbs⟩ := mapM hI up as (k + 1) h₁.after (hI k V V₁ h₁ hk)
      (fun i a' ha' V' h' hi => by
        rw [hshift] at hi ⊢
        exact hf (i + 1) a' ha' V' (h₁.any.trans h') hi) bs' _ hrun'
    refine ⟨V₂, rfl, (h₁.mono fun q hq => ⟨k, hq⟩).trans h₂, .cons (up _ a b V₁ V₂ h₂.any hb)
      (hbs.imp fun i a' b' _ hb' => ?_)⟩
    rw [hshift] at hb'
    exact hb'

theorem of_calls (hV : u.Prepared busy V) {m : Session α} {Q : α → NamedTable → Prop}
    {R R' : α → Interner → Prop} (h : u.Calls P V m Q) (hyields : u.Yields V.table m R)
    (hmeans : u.Means V.table m R') :
    u.Does busy P V m fun a V' => Q a V' ∧ R' a V'.table := by
  intro a s' hrun
  obtain ⟨V', rfl, h', ha⟩ := h a s' hrun
  obtain ⟨hgrown, -⟩ := hyields a V'.table hrun
  obtain ⟨henlarged, ha'⟩ := hmeans a V'.table hrun
  have honward := hV.kept.enlarged henlarged hgrown.sound
  refine ⟨V', rfl, ⟨hV, ⟨h'.naming, honward.after, h'.expanding.trans hV.idle, fun k t l hl => ?_⟩,
    h', honward.table⟩, ha, ha'⟩
  rw [henlarged.kept?] at hl
  refine (hV.lists k t l hl).imp_right fun hlists => ?_
  exact hlists.later hV.naming (Interner.has_of_kept? hl) (hasItems_of_kept hV.kept.sound hl)
    h'.later honward.table

end Does

/-! ## Texts

The texts of a list stand at the parts of its site in order.  `Vacant` says that from some
part on nothing was resolved, and each text takes one part. -/

section Texts

variable {p : Site} {scope : Scope}

/-- Nothing is resolved yet at the parts of the site from the given one on. -/
structure Vacant (V : NamedTable) (p : Site) (i : Nat) : Prop where
  owned : V.Owned p
  free : ∀ j, i ≤ j → V.Free (p.child j)

theorem Vacant.next {i : Nat} (h : Vacant V p i) (h' : u.Proceeds busy (·.Within (p.child i)) V V') :
    Vacant V' p (i + 1) :=
  ⟨h'.before.naming.keeps_owned h'.later h.owned, fun j hj =>
    h'.continued.free (h.owned.child j) (h.free j (by omega)) fun q hq hwithin => by
      have := hq.child_unique hwithin
      omega⟩

theorem Vacant.of_free (howned : V.Owned p) (hfree : V.Free p) : Vacant V p 0 :=
  ⟨howned, fun _ _ t q ht hq hwithin => hfree t q ht hq hwithin.of_child⟩

/-! One text, then a member or a signature with its texts, then a list of these.  Each
computation ends in a later table, in which the earlier names are still right. -/

theorem resolve_does (hcircular : ∀ n, ¬ u.Circular n) (fuel : Nat) (hV : u.Prepared busy V)
    (hscope : Scope.In scope V.table) (howned : V.Owned p) (hfree : V.Free p) (e : TypeExpr) :
    u.Does busy (·.Within p) V (u.resolve fuel scope e) fun t V' =>
      u.Called (.expr p (V.scope scope) e) t V' ∧ u.Denotes V'.table (.expr scope e) t :=
  .of_calls hV (resolve_designates hcircular fuel V p scope e (hV.resolvable hscope howned hfree e))
    (resolve_resolves u fuel V.table scope e hV.kept.sound hscope)
    (resolve_interprets u fuel V.table scope e hV.kept.meaningful)

theorem member_does (hcircular : ∀ n, ¬ u.Circular n) (fuel : Nat) (hV : u.Prepared busy V)
    (hscope : Scope.In scope V.table) (howned : V.Owned p) (hfree : V.Free p) (m : Member) :
    u.Does busy (·.Within p) V
      (do pure ⟨m.name, m.optional, ← memberType (u.resolve fuel) scope m⟩ : Session TypeMember)
      fun x V' => (∀ t ∈ Listing.members.types x, V'.Has t) ∧ u.MemberNames V'.Recorded p
        (V.scope scope) m (Listing.members.nameBy V'.name x) := by
  unfold memberType
  split
  · rename_i e hmethod htype
    intro x s' hrun
    obtain ⟨type, s₁, hrun₁, hrun⟩ := bind_eq_some.1 hrun
    rw [map_eq_pure_bind] at hrun₁
    obtain ⟨t, s₂, hrun₂, hrun₁⟩ := bind_eq_some.1 hrun₁
    cases hrun₁
    cases hrun
    obtain ⟨V', rfl, h', ht, -⟩ := resolve_does hcircular fuel hV hscope howned hfree e t _ hrun₂
    refine ⟨V', rfl, h', fun y hy => ?_, rfl, rfl, ?_⟩
    · rw [List.mem_singleton.1 hy]
      exact ht.has
    · rw [hmethod, htype]
      exact ⟨V'.name t, rfl, ht.names⟩
  · rename_i hnone
    refine .pure hV ⟨fun y hy => (by cases hy), rfl, rfl, ?_⟩
    split
    · rename_i e hmethod htype
      exact absurd htype (hnone e hmethod)
    · rfl

theorem index_does (hcircular : ∀ n, ¬ u.Circular n) (fuel : Nat) (hV : u.Prepared busy V)
    (hscope : Scope.In scope V.table) (howned : V.Owned p) (hfree : V.Free p) (m : Index) :
    u.Does busy (·.Within p) V
      (do
        let key ← u.resolve fuel scope m.key
        let value ← u.resolve fuel scope m.value
        pure ⟨key, value⟩ : Session TypeIndex)
      fun x V' => (∀ t ∈ Listing.indexes.types x, V'.Has t) ∧ u.IndexNames V'.Recorded p
        (V.scope scope) m (Listing.indexes.nameBy V'.name x) := by
  -- the key stands at the first part of the site, the value at the second
  have hvacant := Vacant.of_free howned hfree
  have hkey := resolve_does hcircular fuel hV hscope (howned.child 0)
    (hvacant.free 0 (Nat.le_refl 0)) m.key
  intro x s' hrun
  obtain ⟨key, s₁, hrun₁, hrun⟩ := bind_eq_some.1 hrun
  obtain ⟨V₁, rfl, h₁, hkey, -⟩ := hkey key s₁ hrun₁
  have hvacant₁ := hvacant.next h₁
  have hvalue := resolve_does hcircular fuel h₁.after (h₁.later.scope_in hscope)
    (hvacant₁.owned.child 1) (hvacant₁.free 1 (Nat.le_refl 1)) m.value
  obtain ⟨value, s₂, hrun₂, hrun⟩ := bind_eq_some.1 hrun
  obtain ⟨V₂, rfl, h₂, hvalue, -⟩ := hvalue value s₂ hrun₂
  cases hrun
  have hkey₂ := hkey.later h₁.after.naming h₂.later
  have hvalueName := hvalue.names
  rw [h₁.later.scope hscope] at hvalueName
  refine ⟨V₂, rfl, (h₁.mono fun _ hq => hq.of_child).trans (h₂.mono fun _ hq => hq.of_child),
    fun t ht => ?_, hkey₂.names, hvalueName⟩
  rcases List.mem_cons.1 ht with rfl | ht
  · exact hkey₂.has
  · rw [List.mem_singleton.1 ht]
    exact hvalue.has

theorem texts_does {α : Type} {f : α → Session k.Item}
    {R : (DeclarationId → List TypeName → Prop) → Site → α → k.NamedItem → Prop}
    (hmono : ∀ S S' p a x, R S p a x → (∀ id args, S id args → S' id args) → R S' p a x)
    (hV : u.Prepared busy V) (howned : V.Owned p) (hfree : V.Free p) (as : List α)
    (hf : ∀ a V' i, u.Proceeds busy (fun _ => True) V V' → V'.Owned (p.child i) →
      V'.Free (p.child i) → u.Does busy (·.Within (p.child i)) V' (f a) fun x V'' =>
        (∀ t ∈ k.types x, V''.Has t) ∧ R V''.Recorded (p.child i) a (k.nameBy V''.name x)) :
    u.Does busy (·.Within p) V (as.mapM f) fun xs V' => V'.HasItems k xs ∧
      Pointwise (fun i a x => R V'.Recorded (p.child i) a x) as (V'.items k xs) := by
  refine (Does.mapM (I := fun i V' => Vacant V' p i) (P := fun i q => q.Within (p.child i))
    (Q := fun i a x V' => (∀ t ∈ k.types x, V'.Has t) ∧
      R V'.Recorded (p.child i) a (k.nameBy V'.name x))
    (fun i V V' h' h => h.next h') (fun i a x V V' h' ⟨htypes, hx⟩ => ?_) as 0 hV
    (.of_free howned hfree) fun i a _ V' h' hvacant => ?_).mono ?_ fun xs V' _ hxs => ?_
  · refine ⟨fun t ht => h'.later.has t (htypes t ht), ?_⟩
    rw [k.nameBy_congr fun t ht => h'.later.name t (htypes t ht)]
    exact hmono _ _ _ _ _ hx (h'.before.naming.keeps_recorded h'.later)
  · exact hf a V' _ h' (hvacant.owned.child _) (hvacant.free _ (Nat.le_refl _))
  · rintro q ⟨i, hq⟩
    exact hq.of_child
  · refine ⟨fun x hx => ?_, Pointwise.map_right (hxs.imp fun i a x _ hx => ?_)⟩
    · obtain ⟨i, a, htypes, -⟩ := hxs.exists_left hx
      exact htypes
    · rw [Nat.zero_add] at hx
      exact hx.2

theorem own_does (hcircular : ∀ n, ¬ u.Circular n) (fuel : Nat) (hV : u.Prepared busy V)
    (hscope : Scope.In scope V.table) (howned : V.Owned p) (hfree : V.Free p)
    (members : List Member) (indexes : List Index) : ∀ k : Listing, u.Does busy (·.Within p) V
      (resolveOwn (u.resolve fuel) scope members indexes k) fun own V' => V'.HasItems k own ∧
        u.TextNames V'.Recorded p (V.scope scope) members indexes k (V'.items k own)
  | .members => texts_does (k := .members) (R := fun S p m x => u.MemberNames S p (V.scope scope) m x)
      (fun _ _ _ _ _ hx hS => hx.mono hS) hV howned hfree members fun m V' i h' howned' hfree' => by
        rw [← h'.later.scope hscope]
        exact member_does hcircular fuel h'.after (h'.later.scope_in hscope) howned' hfree' m
  | .indexes => texts_does (k := .indexes) (R := fun S p m x => u.IndexNames S p (V.scope scope) m x)
      (fun _ _ _ _ _ hx hS => hx.mono hS) hV howned hfree indexes fun m V' i h' howned' hfree' => by
        rw [← h'.later.scope hscope]
        exact index_does hcircular fuel h'.after (h'.later.scope_in hscope) howned' hfree' m

/-! ## Bases and parts

A base is resolved and then listed, and only after that the next one; its list may resolve
other things, but none of them at the site of this list. -/

theorem inherited_names {α : Type} {R : Nat → α → TypeName → Prop} {as : List α}
    {lists : List (List k.Item)} (h : Pointwise (fun i a l => V.HasItems k l ∧ (u.Cyclic V.table ∨
      ∃ x, R i a x ∧ u.Enumerates V.Recorded k x (V.items k l))) as lists) :
    u.Cyclic V.table ∨ ∃ xs, Pointwise R as xs ∧
      Pointwise (fun _ x l => u.Enumerates V.Recorded k x l) xs (lists.map (V.items k)) := by
  by_cases hcyclic : u.Cyclic V.table
  · exact .inl hcyclic
  · obtain ⟨xs, hxs, hlists⟩ := Pointwise.exists_mid
      (T := fun _ x l => u.Enumerates V.Recorded k x (V.items k l))
      (h.imp fun i a l _ hl => hl.2.resolve_left hcyclic)
    exact .inr ⟨xs, hxs, hlists.map_right⟩

variable {f : TypeId → Session (List k.Item)}

theorem bases_does (hcircular : ∀ n, ¬ u.Circular n) (fuel : Nat) (hV : u.Prepared busy V)
    (hscope : Scope.In scope V.table) (howned : V.Owned p) (hfree : V.Free p) (es : List TypeExpr)
    (hof : ∀ e ∈ es, ∀ b V', u.Proceeds busy (fun _ => True) V V' → V'.Has b →
      u.Denotes V'.table (.expr scope e) b → u.Does busy (fun _ => False) V' (f b)
        fun l V'' => V''.HasItems k l ∧ u.ListsNamed V'' k b l) :
    u.Does busy (·.Within p) V (es.mapM fun e => do f (← u.resolve fuel scope e))
      fun lists V' => u.Cyclic V'.table ∨ ∃ xs, u.NamesAll V'.Recorded p (V.scope scope) es xs ∧
        Pointwise (fun _ x l => u.Enumerates V'.Recorded k x l) xs (lists.map (V'.items k)) := by
  refine (Does.mapM (I := fun i V' => Vacant V' p i) (P := fun i q => q.Within (p.child i))
    (Q := fun i e l V' => V'.HasItems k l ∧ (u.Cyclic V'.table ∨
      ∃ x, u.Names V'.Recorded (.expr (p.child i) (V.scope scope) e) x ∧
        u.Enumerates V'.Recorded k x (V'.items k l)))
    (fun i V V' h' h => h.next h') (fun i e l V V' h' ⟨hitems, hl⟩ => ?_) es 0 hV
    (.of_free howned hfree) fun i e he V' h' hvacant => ?_).mono ?_ fun lists V' _ hlists => ?_
  · refine ⟨hitems.later h'.later, hl.imp (fun hcyclic => hcyclic.extends h'.table) ?_⟩
    rintro ⟨x, hx, hlists⟩
    rw [h'.later.items hitems]
    exact ⟨x, h'.names hx, hlists.mono (h'.before.naming.keeps_recorded h'.later)⟩
  · rw [← h'.later.scope hscope]
    refine (resolve_does hcircular fuel h'.after (h'.later.scope_in hscope) (hvacant.owned.child _)
      (hvacant.free _ (Nat.le_refl _)) e).bind fun b V₁ h₁ ⟨hb, hdenotes⟩ => ?_
    refine (hof e (List.mem_of_getElem? he) b V₁ (h'.trans h₁.any) hb.has hdenotes).mono
      (fun _ h => h.elim) fun l V₂ h₂ ⟨hitems, hl⟩ => ⟨hitems, hl.imp_right fun hlists => ?_⟩
    exact ⟨V₂.name b, (hb.later h₁.after.naming h₂.later).names, hlists⟩
  · rintro q ⟨i, hq⟩
    exact hq.of_child
  · exact (inherited_names hlists).imp_right fun ⟨xs, hxs, hall⟩ =>
      ⟨xs, hxs.imp fun i e x _ hx => (by rw [Nat.zero_add] at hx; exact hx), hall⟩

theorem parts_does (hV : u.Prepared busy V) (parts : List TypeId) (hparts : ∀ b ∈ parts, V.Has b)
    (hof : ∀ b ∈ parts, ∀ V', u.Proceeds busy (fun _ => True) V V' →
      u.Does busy (fun _ => False) V' (f b)
        fun l V'' => V''.HasItems k l ∧ u.ListsNamed V'' k b l) :
    u.Does busy (fun _ => False) V (parts.mapM f) fun lists V' => u.Cyclic V'.table ∨
      Pointwise (fun _ x l => u.Enumerates V'.Recorded k x l) (V.names parts)
        (lists.map (V'.items k)) := by
  refine (Does.mapM (I := fun _ _ => True) (P := fun _ _ => False)
    (Q := fun _ b l V' => V'.HasItems k l ∧ (u.Cyclic V'.table ∨
      ∃ x, x = V.name b ∧ u.Enumerates V'.Recorded k x (V'.items k l)))
    (fun _ _ _ _ _ => trivial) (fun i b l V V' h' ⟨hitems, hl⟩ => ?_) parts 0 hV trivial
    fun i b hb V' h' _ => ?_).mono (fun q ⟨_, hq⟩ => hq) fun lists V' h' hlists => ?_
  · refine ⟨hitems.later h'.later, hl.imp (fun hcyclic => hcyclic.extends h'.table) ?_⟩
    rintro ⟨x, hx, hlists⟩
    rw [h'.later.items hitems]
    exact ⟨x, hx, hlists.mono (h'.before.naming.keeps_recorded h'.later)⟩
  · have hb := List.mem_of_getElem? hb
    refine (hof b hb V' h').mono (fun _ h => h) fun l V₂ h₂ ⟨hitems, hl⟩ =>
      ⟨hitems, hl.imp_right fun hlists => ⟨_, ?_, hlists⟩⟩
    exact (h'.trans h₂.any).later.name b (hparts b hb)
  · refine (inherited_names hlists).imp_right fun ⟨xs, hxs, hall⟩ => ?_
    obtain rfl : xs = V.names parts := hxs.unique
      (Pointwise.map_right (f := V.name) (R := fun _ b x => x = V.name b)
        ⟨rfl, fun i b c hb hc => by rw [Option.some.inj (hb.symm.trans hc)]⟩)
      fun i b x x' hx hx' => hx.trans hx'.symm
    exact hall

end Texts

/-! ## The list of a type

One lemma for each form of the contents, then the recursion on the fuel. -/

theorem branches_names (hV : u.Naming V) (ht : V.Has t) (hopen : V.table.data t ≠ .reserved) :
    u.HasBranches V.Recorded (V.name t) (V.names ((V.table.union? t).getD [t])) := by
  have hbranches := (hV.stands t ht).branches hopen
  unfold Interner.union?
  cases hunion : (V.table.data t).union? with
  | none =>
    rw [hunion] at hbranches
    exact hbranches
  | some branches =>
    rw [hunion] at hbranches
    exact hbranches

theorem literalKey?_name (hV : u.Naming V) (ht : V.Has t) (hopen : V.table.data t ≠ .reserved) :
    (V.name t).literalKey? = match V.table.literal? t with
      | some (.str name) => some name
      | _ => none := by
  have hstands := hV.stands t ht
  unfold Interner.literal?
  cases hdata : V.table.data t with
  | reserved => exact absurd hdata hopen
  | form f =>
    rw [hdata] at hstands
    rw [show V.name t = f.nameBy V.name from hstands]
    cases f with
    | literal value => cases value with
      | str => rfl
      | _ => rfl
    | _ => rfl
  | namedUnion origin branches =>
    rw [hdata] at hstands
    rw [hstands.1]
    rfl
  | object origin shape =>
    rw [hdata] at hstands
    cases origin with
    | none =>
      cases shape with
      | literal =>
        obtain ⟨p, hname⟩ := hstands
        rw [hname]
        rfl
      | intersection =>
        obtain ⟨p, hname⟩ := hstands
        rw [hname]
        rfl
      | record => cases hstands
    | some origin =>
      cases shape with
      | literal => rw [hstands.1]; rfl
      | intersection => rw [hstands.1]; rfl
      | record => rw [hstands.2]; rfl

theorem literalKeys?_names (hV : u.Prepared busy V) (ht : V.Has t) :
    literalKeys? V.table t = (V.names ((V.table.union? t).getD [t])).mapM TypeName.literalKey? := by
  have hhas : ∀ b ∈ (V.table.union? t).getD [t], V.Has b := by
    intro b hb
    cases hunion : V.table.union? t with
    | none =>
      rw [hunion] at hb
      rw [List.mem_singleton.1 hb]
      exact ht
    | some branches =>
      rw [hunion] at hb
      exact hV.kept.sound.parts t b (TypeData.union?_parts hunion hb)
  unfold literalKeys?
  generalize (V.table.union? t).getD [t] = branches at hhas
  induction branches with
  | nil => rfl
  | cons b bs ih =>
    obtain ⟨hb, hbs⟩ := List.forall_mem_cons.1 hhas
    rw [NamedTable.names, List.map_cons, List.mapM_cons, List.mapM_cons, ih hbs]
    exact congrArg (· >>= _) (literalKey?_name hV.naming hb (hV.kept.closed b hb)).symm

theorem recordItems_names (hV : u.Prepared busy V) {key value : TypeId} (hkey : V.Has key) :
    ∀ k : Listing, ∃ xs, u.HasBranches V.Recorded (V.name key) xs ∧
      V.items k (recordItems V.table key value k) = recordNames xs (V.name key) (V.name value) k := by
  intro k
  refine ⟨_, branches_names hV.naming hkey (hV.kept.closed key hkey), ?_⟩
  cases k with
  | members =>
    show List.map _ (List.map _ _) = List.map _ _
    rw [List.map_map, literalKeys?_names hV hkey]
    rfl
  | indexes =>
    unfold recordItems recordNames
    rw [literalKeys?_names hV hkey]
    cases (V.names ((V.table.union? key).getD [key])).mapM TypeName.literalKey? with
    | some names => rfl
    | none => rfl

/-- What the types that this one takes over from may be asked for. -/
def BasesList (u : Universe) (busy : List (Listing × TypeId)) (k : Listing)
    (listOf : TypeId → Session (List k.Item)) (t : TypeId) (V : NamedTable) : Prop :=
  ∀ b V', u.Proceeds busy (fun _ => True) V V' → V'.Has b → u.Inherits V'.table t b →
    u.Does busy (fun _ => False) V' (listOf b)
      fun l V'' => V''.HasItems k l ∧ u.ListsNamed V'' k b l

theorem Prepared.contents (hV : u.Prepared busy V) (ht : V.Has t) :
    u.HasContents V.Recorded (V.name t) ((u.contents (V.table.data t)).map V.name) :=
  (hV.naming.stands t ht).contents (hV.kept.closed t ht)

theorem Proceeds.data (h : u.Proceeds busy P V V') (ht : V.Has t) :
    V'.table.data t = V.table.data t := h.table.data t (h.before.kept.closed t ht)

theorem Proceeds.contents (h : u.Proceeds busy P V V') (ht : V.Has t) :
    u.contents (V'.table.data t) = u.contents (V.table.data t) := congrArg u.contents (h.data ht)

/-- A list is put together from own items and from lists of the types that are taken over from. -/
theorem Proceeds.lists (h : u.Proceeds busy P V V') (ht : V.Has t) {own : List k.Item}
    {b : List TypeName} {lists : List (List k.Item)}
    (hown : u.OwnNames V'.Recorded k (V.name t) ((u.contents (V.table.data t)).map V.name)
      (V'.items k own))
    (hbases : u.BaseNames V'.Recorded k (V.name t) ((u.contents (V.table.data t)).map V.name) b)
    (hlists : Pointwise (fun _ x l => u.Enumerates V'.Recorded k x l) b (lists.map (V'.items k))) :
    u.ListsNamed V' k t (k.join lists own) := by
  refine .inr ?_
  rw [h.later.name t ht, NamedTable.items, k.map_join]
  exact .intro ((h.before.contents ht).mono (h.before.naming.keeps_recorded h.later)) hown hbases
    hlists.1 hlists.2

theorem Prepared.lists_own (hV : u.Prepared busy V) (ht : V.Has t) {own : List k.Item}
    (hown : u.OwnNames V.Recorded k (V.name t) ((u.contents (V.table.data t)).map V.name)
      (V.items k own))
    (hbases : u.BaseNames V.Recorded k (V.name t) ((u.contents (V.table.data t)).map V.name) []) :
    u.ListsNamed V k t own := by
  have h : u.Proceeds busy (fun _ => False) V V := .refl hV
  rw [← join_nil own]
  exact h.lists ht hown hbases .nil

variable {listOf : TypeId → Session (List k.Item)}

/-- Texts are listed at the site of the list: own items first, then the lists of the bases. -/
theorem list_of_text_does (hcircular : ∀ n, ¬ u.Circular n) (fuel : Nat) (hV : u.Prepared busy V)
    (ht : V.Has t) (howned : V.Owned (listSite k (V.name t))) (hfree : V.Free (listSite k (V.name t)))
    (hof : u.BasesList busy k listOf t V) {unit : Nat} {params : List (String × TypeId)}
    {bases : List TypeExpr} {members : List Member} {indexes : List Index}
    (hcontents : u.contents (V.table.data t) = .text unit params bases members indexes) :
    u.Does busy (·.Within (listSite k (V.name t))) V
      (computeFrom (u.resolve fuel) k listOf V.table (.text unit params bases members indexes))
      fun l V' => u.ListsNamed V' k t l := by
  have hvacant := Vacant.of_free howned hfree
  have hscope := contents_scope_in hV.kept.sound hcontents
  intro l s' hrun
  obtain ⟨own, s₁, hrun₁, hrun⟩ := bind_eq_some.1 hrun
  obtain ⟨V₁, rfl, h₁, hitems, hown⟩ := own_does hcircular fuel hV hscope (howned.child 0)
    (hvacant.free 0 (Nat.le_refl 0)) members indexes k own s₁ hrun₁
  have hvacant₁ := hvacant.next h₁
  obtain ⟨lists, s₂, hrun₂, hrun⟩ := bind_eq_some.1 hrun
  have hbases := bases_does (f := listOf) hcircular fuel h₁.after (h₁.later.scope_in hscope)
    (hvacant₁.owned.child 1) (hvacant₁.free 1 (Nat.le_refl 1)) bases fun e he b V' h' hb hdenotes =>
      hof b V' (h₁.any.trans h') hb
        (inherits_of_text (((h₁.any.trans h').contents ht).trans hcontents) he hdenotes)
  obtain ⟨V₂, rfl, h₂, hbases⟩ := hbases lists s₂ hrun₂
  cases hrun
  have h : u.Proceeds busy (·.Within (listSite k (V.name t))) V V₂ :=
    (h₁.mono fun _ hq => hq.of_child).trans (h₂.mono fun _ hq => hq.of_child)
  refine ⟨V₂, rfl, h, ?_⟩
  rcases hbases with hcyclic | ⟨xs, hxs, hlists⟩
  · exact .inl hcyclic
  · rw [h₁.later.scope hscope] at hxs
    refine h.lists ht ?_ ?_ hlists
    · rw [hcontents, h₂.later.items hitems]
      exact TextNames.mono hown (h₁.after.naming.keeps_recorded h₂.later)
    · rw [hcontents]
      exact hxs

theorem list_of_parts_does (hV : u.Prepared busy V) (ht : V.Has t)
    (hof : u.BasesList busy k listOf t V) {self : Resolver} {xs : List TypeId}
    (hcontents : u.contents (V.table.data t) = .parts xs) :
    u.Does busy (fun _ => False) V (computeFrom self k listOf V.table (.parts xs))
      fun l V' => u.ListsNamed V' k t l := by
  obtain ⟨origin, hdata⟩ := contents_parts hcontents
  have hxs := shape_parts_has hV.kept.sound hdata
  refine (parts_does hV xs hxs fun b hb V' h' => hof b V' h' (h'.later.has b (hxs b hb))
    (.part ((h'.data ht).trans hdata) hb)).bind fun lists V₁ h₁ hlists => .pure h₁.after ?_
  refine hlists.elim .inl fun hlists => h₁.lists ht ?_ ?_ hlists
  · rw [hcontents]
    rfl
  · rw [hcontents]
    rfl

theorem compute_does (hcircular : ∀ n, ¬ u.Circular n) (fuel : Nat) (hV : u.Prepared busy V)
    (ht : V.Has t) (howned : V.Owned (listSite k (V.name t))) (hfree : V.Free (listSite k (V.name t)))
    (hof : u.BasesList busy k listOf t V) :
    u.Does busy (·.Within (listSite k (V.name t))) V (u.compute (u.resolve fuel) k listOf t)
      fun l V' => u.ListsNamed V' k t l := by
  intro l s' hrun
  rw [compute_eq] at hrun
  cases hcontents : u.contents (V.table.data t) with
  | text unit params bases members indexes =>
    rw [hcontents] at hrun
    exact list_of_text_does hcircular fuel hV ht howned hfree hof hcontents l s' hrun
  | parts xs =>
    rw [hcontents] at hrun
    exact (list_of_parts_does hV ht hof hcontents).mono (fun _ h => h.elim)
      (fun _ _ _ h => h) l s' hrun
  | record key value =>
    rw [hcontents] at hrun
    obtain ⟨origin, hdata⟩ := contents_record hcontents
    cases hrun
    refine ⟨V, rfl, .refl hV, hV.lists_own ht ?_ ?_⟩
    · rw [hcontents]
      exact recordItems_names hV (shape_parts_has hV.kept.sound hdata key List.mem_cons_self) k
    · rw [hcontents]
      rfl
  | nothing =>
    rw [hcontents] at hrun
    cases hrun
    refine ⟨V, rfl, .refl hV, hV.lists_own ht ?_ ?_⟩
    · rw [hcontents]
      rfl
    · rw [hcontents]
      rfl

/-- The list of the type is under way. -/
def begunList (V : NamedTable) (k : Listing) (t : TypeId) : NamedTable :=
  ⟨V.table.keep k t [], V.name⟩

theorem Prepared.begin (hV : u.Prepared busy V) (ht : V.Has t) :
    u.Prepared ((k, t) :: busy) (begunList V k t) ∧ V.Later (begunList V k t) := by
  obtain ⟨hnaming, hlater⟩ := hV.naming.keep (k := k) ht []
  have hext : V.table.Extends (begunList V k t).table := Interner.extends_keep
  refine ⟨⟨hnaming, hV.kept.keep_nil ht, ?_, fun k' x l hl => ?_⟩, hlater⟩
  · rw [← hV.idle]
    exact Interner.expanding_keep
  · by_cases heq : (k', x) = (k, t)
    · exact .inl (by rw [heq]; exact List.mem_cons_self)
    · rw [begunList, Interner.kept?_keep_of_ne ht heq] at hl
      exact (hV.lists k' x l hl).imp (List.mem_cons_of_mem _) fun hlists =>
        hlists.later hV.naming (Interner.has_of_kept? hl) (hasItems_of_kept hV.kept.sound hl)
          hlater hext

theorem Naming.vacant_list (hV : u.Naming V) (ht : V.Has t) (hnone : V.table.kept? k t = none) :
    (begunList V k t).Owned (listSite k (V.name t)) ∧
      (begunList V k t).Free (listSite k (V.name t)) := by
  refine ⟨⟨t, Interner.has_keep.2 ht, rfl, by rw [begunList, Interner.kept?_keep ht]; rfl⟩, ?_⟩
  exact (hV.free_of_not_owned (hV.not_owned_list ht hnone)).later (hV.keep ht []).2
    fun x hx hnot => absurd (Interner.has_keep.1 hx) hnot

/-- **A type lists what its name says.** -/
theorem list_does (hcircular : ∀ n, ¬ u.Circular n) (k : Listing) : ∀ (fuel : Nat) (t : TypeId)
    (V : NamedTable) (busy : List (Listing × TypeId)), u.Prepared busy V → V.Has t →
    u.Awaits busy k t V.table → u.Does busy (fun _ => False) V (u.list fuel k t)
      fun l V' => V'.HasItems k l ∧ u.ListsNamed V' k t l
  | 0, _, _, _, _, _, _ => by
    intro l s' hrun
    rw [list_zero] at hrun
    cases hrun
  | fuel + 1, t, V, busy, hV, ht, hawaits => by
    intro l s' hrun
    obtain ⟨honward, -⟩ := list_goes u k (fuel + 1) t V.table busy hV.kept ht hawaits l s' hrun
    rcases list_succ_cases hrun with ⟨hkept, rfl⟩ | ⟨hkept, s₂, hrun₂, rfl⟩
    · refine ⟨V, rfl, .refl hV, hasItems_of_kept hV.kept.sound hkept, ?_⟩
      exact (hV.lists k t l hkept).elim (fun hbusy => .inl ⟨t, hawaits t hbusy⟩) id
    · obtain ⟨h₁, hlater₁⟩ := hV.begin (k := k) ht
      have ht₁ : (begunList V k t).Has t := Interner.has_keep.2 ht
      have hnew := hV.naming.not_owned_list ht hkept
      obtain ⟨howned, hfree⟩ := hV.naming.vacant_list ht hkept
      have hof : u.BasesList ((k, t) :: busy) k (u.list fuel k) t (begunList V k t) :=
        fun b V' h' hb hinherits => list_does hcircular k fuel b V' _ h'.after hb
          (hawaits.inherits (Interner.extends_keep.trans h'.table) hinherits)
      obtain ⟨V₂, rfl, h₂, hl⟩ := compute_does hcircular fuel h₁ ht₁ howned hfree hof l s₂ hrun₂
      have ht₂ : V₂.Has t := h₂.later.has t ht₁
      obtain ⟨hnaming, hlater₂⟩ := h₂.after.naming.keep (k := k) ht₂ l
      have hext₂ : V₂.table.Extends (V₂.table.keep k t l) := Interner.extends_keep
      have hlists : u.ListsNamed ⟨V₂.table.keep k t l, V₂.name⟩ k t l :=
        hl.imp (fun hcyclic => hcyclic.extends hext₂)
          fun hl => hl.mono (h₂.after.naming.keeps_recorded hlater₂)
      have hlater := (hlater₁.trans h₂.later).trans hlater₂
      have hexpanding : (V₂.table.keep k t l).expanding = [] :=
        Interner.expanding_keep.trans h₂.after.idle
      refine ⟨⟨V₂.table.keep k t l, V₂.name⟩, rfl,
        ⟨hV, ⟨hnaming, honward.after, hexpanding, fun k' x l' hl' => ?_⟩,
          ⟨hnaming, hlater, hexpanding.trans hV.idle.symm, fun x q hx hnot hq => .inr ?_⟩,
          honward.table⟩, ?_, hlists⟩
      · by_cases heq : (k', x) = (k, t)
        · cases heq
          rw [Interner.kept?_keep ht₂] at hl'
          cases hl'
          exact .inr hlists
        · rw [Interner.kept?_keep_of_ne ht₂ heq] at hl'
          exact (h₂.after.lists k' x l' hl').imp (fun h => (List.mem_cons.1 h).resolve_left heq)
            fun hx => hx.later h₂.after.naming (Interner.has_of_kept? hl')
              (hasItems_of_kept h₂.after.kept.sound hl') hlater₂ hext₂
      · -- what is new was resolved for this list or at sites that were not begun before
        intro howned'
        rcases h₂.continued.sites x q (Interner.has_keep.1 hx) (fun h => hnot (Interner.has_keep.1 h))
          hq with hwithin | hnotOwned
        · exact hnew (howned'.of_eq hwithin.listing.symm hwithin.owner.symm)
        · exact hnotOwned (hV.naming.keeps_owned hlater₁ howned')
      · exact hasItems_of_kept honward.after.sound (Interner.kept?_keep ht₂)

end Universe
end TypedJson
