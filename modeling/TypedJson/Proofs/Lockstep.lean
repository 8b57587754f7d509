import TypedJson.Proofs.Standing
/-!
# Two histories side by side

Two tables that different questions lead to are compared by the names of their types: two handles
are twins if they are called the same (`Sides.Twin`).  A computation on the second table follows one
on the first if it has a result whenever the first has, and a result that is twin to it
(`Follows`).  Resolving the exported declarations and listing a type do (`exportedTypes_follows`,
`list_follows`).

Follows is one-sided: the first computation is given with its result, and the second is
shown to have one, with enough fuel.  The states in between grow on both sides, and with them
the relation of twins, which stays as it is for the types that were there.
-/
namespace TypedJson

/-- Two tables that questions lead to. -/
structure Sides (u : Universe) where
  left : NamedTable
  right : NamedTable
  left_standing : u.Standing left
  right_standing : u.Standing right

namespace Sides

variable {u : Universe} {w w' w'' : Sides u}

structure Later (w w' : Sides u) : Prop where
  left : w.left.Later w'.left
  right : w.right.Later w'.right

theorem Later.refl (w : Sides u) : w.Later w := ⟨.refl _, .refl _⟩

theorem Later.trans (h : w.Later w') (h' : w'.Later w'') : w.Later w'' :=
  ⟨h.left.trans h'.left, h.right.trans h'.right⟩

/-- The types are called the same. -/
structure Twin (w : Sides u) (t t' : TypeId) : Prop where
  left : w.left.Has t
  right : w.right.Has t'
  name : w.right.name t' = w.left.name t

abbrev Twins (w : Sides u) : List TypeId → List TypeId → Prop := List.Forall₂ w.Twin

variable {t t' x x' : TypeId} {ts ts' : List TypeId}

theorem Twin.later (ht : w.Twin t t') (h : w.Later w') : w'.Twin t t' :=
  ⟨h.left.has t ht.left, h.right.has t' ht.right,
    (h.right.name t' ht.right).trans (ht.name.trans (h.left.name t ht.left).symm)⟩

theorem Twins.later (hts : w.Twins ts ts') (h : w.Later w') : w'.Twins ts ts' :=
  hts.imp fun _ _ ht => ht.later h

theorem Twin.eq_iff (ht : w.Twin t t') (hx : w.Twin x x') : t = x ↔ t' = x' := by
  constructor
  · rintro rfl
    exact w.right_standing.prepared.naming.injective t' x' ht.right hx.right
      (ht.name.trans hx.name.symm)
  · rintro rfl
    exact w.left_standing.prepared.naming.injective t x ht.left hx.left (ht.name.symm.trans hx.name)

theorem twins_of_names : ∀ {ts ts' : List TypeId}, (∀ t ∈ ts, w.left.Has t) →
    (∀ t ∈ ts', w.right.Has t) → w.right.names ts' = w.left.names ts → w.Twins ts ts'
  | [], [], _, _, _ => .nil
  | t :: ts, t' :: ts', hts, hts', h => by
    obtain ⟨ht, hts⟩ := List.forall_mem_cons.1 hts
    obtain ⟨ht', hts'⟩ := List.forall_mem_cons.1 hts'
    obtain ⟨hhead, htail⟩ := List.cons.inj h
    exact .cons ⟨ht, ht', hhead⟩ (twins_of_names hts hts' htail)

theorem Twins.mem_iff (hts : w.Twins ts ts') (hx : w.Twin x x') : x ∈ ts ↔ x' ∈ ts' := by
  induction hts with
  | nil => exact ⟨fun h => (by cases h), fun h => (by cases h)⟩
  | cons ht _ ih => rw [List.mem_cons, List.mem_cons, hx.eq_iff ht, ih]

/-- The items are called the same. -/
structure TwinItems (w : Sides u) (k : Listing) (l l' : List k.Item) : Prop where
  left : w.left.HasItems k l
  right : w.right.HasItems k l'
  names : w.right.items k l' = w.left.items k l

/-- The members are called the same, and so are their types. -/
structure TwinMember (w : Sides u) (m m' : TypeMember) : Prop where
  name : m'.name = m.name
  optional : m'.optional = m.optional
  type : w.Twins m.type.toList m'.type.toList

structure TwinIndex (w : Sides u) (x x' : TypeIndex) : Prop where
  key : w.Twin x.key x'.key
  value : w.Twin x.value x'.value

theorem TwinMember.later {m m' : TypeMember} (hm : w.TwinMember m m') (h : w.Later w') :
    w'.TwinMember m m' := ⟨hm.name, hm.optional, Twins.later hm.type h⟩

theorem TwinIndex.later {x x' : TypeIndex} (hx : w.TwinIndex x x') (h : w.Later w') :
    w'.TwinIndex x x' := ⟨hx.key.later h, hx.value.later h⟩

theorem TwinItems.members : ∀ {ms ms' : List TypeMember}, w.TwinItems .members ms ms' →
    List.Forall₂ w.TwinMember ms ms'
  | [], [], _ => .nil
  | [], _ :: _, h => by cases h.names
  | _ :: _, [], h => by cases h.names
  | m :: ms, m' :: ms', ⟨hleft, hright, hnames⟩ => by
    obtain ⟨hm, hms⟩ := List.forall_mem_cons.1 hleft
    obtain ⟨hm', hms'⟩ := List.forall_mem_cons.1 hright
    obtain ⟨hhead, htail⟩ := List.cons.inj hnames
    obtain ⟨hname, hoptional, htype⟩ := NamedMember.mk.inj hhead
    refine .cons ⟨hname, hoptional, twins_of_names hm hm' ?_⟩ (TwinItems.members ⟨hms, hms', htail⟩)
    rw [NamedTable.names, NamedTable.names, ← Option.toList_map, ← Option.toList_map, htype]

theorem TwinItems.indexes : ∀ {is is' : List TypeIndex}, w.TwinItems .indexes is is' →
    List.Forall₂ w.TwinIndex is is'
  | [], [], _ => .nil
  | [], _ :: _, h => by cases h.names
  | _ :: _, [], h => by cases h.names
  | x :: xs, x' :: xs', ⟨hleft, hright, hnames⟩ => by
    obtain ⟨hx, hxs⟩ := List.forall_mem_cons.1 hleft
    obtain ⟨hx', hxs'⟩ := List.forall_mem_cons.1 hright
    obtain ⟨hhead, htail⟩ := List.cons.inj hnames
    obtain ⟨hkey, hvalue⟩ := NamedIndex.mk.inj hhead
    have hvalueMem : ∀ x : TypeIndex, x.value ∈ Listing.indexes.types x := fun _ =>
      List.mem_cons_of_mem _ List.mem_cons_self
    exact .cons ⟨⟨hx _ List.mem_cons_self, hx' _ List.mem_cons_self, hkey⟩,
      ⟨hx _ (hvalueMem x), hx' _ (hvalueMem x'), hvalue⟩⟩ (TwinItems.indexes ⟨hxs, hxs', htail⟩)

end Sides

/-! ## Computations that follow others

The relation between the states is a parameter, since passes are compared later by the same
lemmas, with their nodes and keys besides the tables. -/

/-- Whatever the first computation answers, with enough fuel the second one has an answer too, and
the answers and the states left behind are related as stated. -/
def Follows {u : Universe} {σ α β : Type} (At : Sides u → σ → σ → Prop) (w : Sides u)
    (m : StateT σ Option α) (m' : Nat → StateT σ Option β) (Q : Sides u → α → β → Prop) : Prop :=
  ∀ s s', At w s s' → After s m fun a s₁ => ∃ w' b s₁', w.Later w' ∧ At w' s₁ s₁' ∧ Q w' a b ∧
    ∃ n, ∀ fuel, n ≤ fuel → m' fuel s' = some (b, s₁')

namespace Follows

variable {u : Universe} {σ α β γ δ : Type} {At : Sides u → σ → σ → Prop} {w : Sides u}

theorem pure {a : α} {b : β} {Q : Sides u → α → β → Prop} (h : Q w a b) :
    Follows At w (Pure.pure a) (fun _ => Pure.pure b) Q := fun _ s' hat =>
  After.pure ⟨w, b, s', .refl w, hat, h, 0, fun _ _ => rfl⟩

theorem mono {m : StateT σ Option α} {m' : Nat → StateT σ Option β} {Q Q' : Sides u → α → β → Prop}
    (h : Follows At w m m' Q) (hQ : ∀ w' a b, w.Later w' → Q w' a b → Q' w' a b) :
    Follows At w m m' Q' := fun s s' hat =>
  After.mono (h s s' hat) fun a _ ⟨w', b, s₁', hlater, hat', hab, hrun⟩ =>
    ⟨w', b, s₁', hlater, hat', hQ w' a b hlater hab, hrun⟩

theorem bind {m : StateT σ Option α} {m' : Nat → StateT σ Option β} {R : Sides u → α → β → Prop}
    {f : α → StateT σ Option γ} {f' : Nat → β → StateT σ Option δ} {Q : Sides u → γ → δ → Prop}
    (hm : Follows At w m m' R) (hf : ∀ w' a b, w.Later w' → R w' a b →
      Follows At w' (f a) (fun fuel => f' fuel b) Q) :
    Follows At w (m >>= f) (fun fuel => m' fuel >>= f' fuel) Q := by
  intro s s' hat c s₂ hrun
  obtain ⟨a, s₁, hrun₁, hrun₂⟩ := bind_eq_some.1 hrun
  obtain ⟨w₁, b, s₁', h₁, hat₁, hab, n₁, hrun₁'⟩ := hm s s' hat a s₁ hrun₁
  obtain ⟨w₂, d, s₂', h₂, hat₂, hcd, n₂, hrun₂'⟩ := hf w₁ a b h₁ hab s₁ s₁' hat₁ c s₂ hrun₂
  refine ⟨w₂, d, s₂', h₁.trans h₂, hat₂, hcd, max n₁ n₂, fun fuel hle => bind_eq_some.2 ?_⟩
  exact ⟨b, s₁', hrun₁' fuel (by omega), hrun₂' fuel (by omega)⟩

theorem map {m : StateT σ Option α} {m' : Nat → StateT σ Option β} {f : α → γ} {f' : β → δ}
    {Q : Sides u → γ → δ → Prop} (h : Follows At w m m' fun w' a b => Q w' (f a) (f' b)) :
    Follows At w (f <$> m) (fun fuel => f' <$> m' fuel) Q := by
  simp only [map_eq_pure_bind]
  exact h.bind fun w' a b _ hab => .pure hab

theorem mapM {R : Sides u → α → β → Prop} {f : α → StateT σ Option γ}
    {f' : Nat → β → StateT σ Option δ} {Q : Sides u → γ → δ → Prop}
    (upR : ∀ w w' a b, w.Later w' → R w a b → R w' a b)
    (upQ : ∀ w w' c d, w.Later w' → Q w c d → Q w' c d) :
    ∀ {as : List α} {bs : List β} {w : Sides u}, List.Forall₂ (R w) as bs →
      (∀ w' a b, w.Later w' → a ∈ as → R w' a b → Follows At w' (f a) (fun fuel => f' fuel b) Q) →
      Follows At w (as.mapM f) (fun fuel => bs.mapM (f' fuel)) fun w' => List.Forall₂ (Q w')
  | [], _, w, .nil, _ => by
    simp only [List.mapM_nil]
    exact .pure .nil
  | a :: as, _ :: bs, w, .cons hab habs, hf => by
    simp only [List.mapM_cons]
    refine (hf w a _ (.refl w) List.mem_cons_self hab).bind fun w₁ c d h₁ hcd => ?_
    refine (mapM upR upQ (habs.imp fun a b h => upR w w₁ a b h₁ h) fun w' x y h' hx =>
      hf w' x y (h₁.trans h') (List.mem_cons_of_mem a hx)).bind fun w₂ cs ds h₂ hcds => ?_
    exact .pure (.cons (upQ w₁ w₂ c d h₂ hcd) hcds)

theorem mapM_eq {R : Sides u → α → β → Prop} {f : α → StateT σ Option γ}
    {f' : Nat → β → StateT σ Option γ} (upR : ∀ w w' a b, w.Later w' → R w a b → R w' a b)
    {as : List α} {bs : List β} {w : Sides u} (h : List.Forall₂ (R w) as bs)
    (hf : ∀ w' a b, w.Later w' → R w' a b →
      Follows At w' (f a) (fun fuel => f' fuel b) fun _ c d => c = d) :
    Follows At w (as.mapM f) (fun fuel => bs.mapM (f' fuel)) fun _ cs ds => cs = ds :=
  (mapM upR (fun _ _ _ _ _ h => h) h fun w' a b h' _ hab => hf w' a b h' hab).mono
    fun _ _ _ _ hcs => List.forall₂_eq_eq_eq ▸ hcs

theorem succ {m : StateT σ Option α} {m' : Nat → StateT σ Option β} {Q : Sides u → α → β → Prop}
    (h : Follows At w m (fun fuel => m' (fuel + 1)) Q) : Follows At w m m' Q := fun s s' hat =>
  After.mono (h s s' hat) fun a _ ⟨w', b, s₁', hlater, hat', hab, n, hrun⟩ =>
    ⟨w', b, s₁', hlater, hat', hab, n + 1, fun fuel hle => by
      obtain ⟨k, rfl⟩ : ∃ k, fuel = k + 1 := ⟨fuel - 1, by omega⟩
      exact hrun k (by omega)⟩

end Follows

namespace Universe

variable {u : Universe} {w : Sides u}

/-- The states are the two tables. -/
def InTables (w : Sides u) (s s' : Interner) : Prop := s = w.left.table ∧ s' = w.right.table

theorem query_follows {α β γ δ : Type} {f : Interner → α} {f' : Interner → β} {g : α → Session γ}
    {g' : Nat → β → Session δ} {Q : Sides u → γ → δ → Prop}
    (h : Follows InTables w (g (f w.left.table)) (fun fuel => g' fuel (f' w.right.table)) Q) :
    Follows InTables w (Session.query f >>= g) (fun fuel => Session.query f' >>= g' fuel) Q := by
  rintro s s' ⟨rfl, rfl⟩
  exact h _ _ ⟨rfl, rfl⟩

theorem standing_list {V V' : NamedTable} (hV : u.Standing V) (hV' : u.Prepared [] V') {k : Listing}
    {t : TypeId} (ht : V.Has t) {fuel : Nat} {l : List k.Item}
    (hrun : u.list fuel k t V.table = some (l, V'.table)) : u.Standing V' := by
  refine ⟨hV', hV.reached.tail ?_⟩
  cases k with
  | members => exact .members ht hrun
  | indexes => exact .indexes ht hrun

/-- **A type lists the same in both tables.** -/
theorem list_follows (hcircular : ∀ n, ¬ u.Circular n)
    (hcyclic : ∀ s, u.Reaches u.start s → ¬ u.Cyclic s) (k : Listing) {t t' : TypeId}
    (ht : w.Twin t t') (fuel : Nat) : Follows InTables w (u.list fuel k t)
      (fun fuel => u.list fuel k t') fun w' l l' => w'.TwinItems k l l' := by
  rintro _ _ ⟨rfl, rfl⟩ l s₁ hrun
  obtain ⟨V', rfl, h, hitems, hlisted⟩ := list_does hcircular k fuel t w.left []
    w.left_standing.prepared ht.left (awaits_nil u k t _) l s₁ hrun
  have hV' := standing_list w.left_standing h.after ht.left hrun
  have hlists := hlisted.resolve_left (hcyclic _ hV'.reached)
  obtain ⟨l', s₁', -, n, hrun'⟩ := list_returns hcircular hV'.prepared.spelled hlists w.right [] t'
    w.right_standing.prepared (lacks_notedAliases V' w.right) ht.right
    (ht.name.trans (h.later.name t ht.left).symm) (awaits_nil u k t' _)
  obtain ⟨W', rfl, h', hitems', hlisted'⟩ := list_does hcircular k n t' w.right []
    w.right_standing.prepared ht.right (awaits_nil u k t' _) l' s₁' (hrun' n (Nat.le_refl n))
  have hW' := standing_list w.right_standing h'.after ht.right (hrun' n (Nat.le_refl n))
  have hlists' := hlisted'.resolve_left (hcyclic _ hW'.reached)
  rw [h'.later.name t' ht.right, ht.name, ← h.later.name t ht.left] at hlists'
  exact ⟨⟨V', W', hV', hW'⟩, l', W'.table, ⟨h.later, h'.later⟩, ⟨rfl, rfl⟩,
    ⟨hitems, hitems', hlists'.unique hlists⟩, n, hrun'⟩

theorem declarations_do (hcircular : ∀ n, ¬ u.Circular n) (fuel : Nat) {V : NamedTable}
    (hV : u.Prepared [] V) {entries : List (DeclarationId × Declaration)}
    (hentries : ∀ e ∈ entries, u.declaration? e.1 = some e.2) :
    u.Does [] (fun _ => False) V
      (entries.mapM fun e => u.instantiate (u.resolve fuel) e.1 []) fun ts V' =>
        (∀ t ∈ ts, V'.Has t) ∧ Pointwise (fun _ e x => u.Names V'.Recorded
          (.inst (.declared e.1) (completeNames e.1 e.2.typeParams.length [])) x)
          entries (V'.names ts) := by
  refine (Does.mapM (I := fun _ _ => True) (P := fun _ _ => False)
    (Q := fun _ (e : DeclarationId × Declaration) t V' => u.Called (.inst (.declared e.1)
      (completeNames e.1 e.2.typeParams.length [])) t V')
    (fun _ _ _ _ _ => trivial) (fun _ _ _ _ _ h' ht => ht.later h'.before.naming h'.later)
    entries 0 hV trivial fun i e he V' h' _ => instantiate_does hcircular fuel h'.after
      (hentries e (List.mem_of_getElem? he))).mono (fun _ ⟨_, h⟩ => h) fun ts V' _ hts => ?_
  refine ⟨fun t ht => ?_, Pointwise.map_right (hts.imp fun i e t _ ht => ht.names)⟩
  obtain ⟨i, e, hcalled⟩ := hts.exists_left ht
  exact hcalled.has

/-- **The exported declarations are resolved to twins.** -/
theorem exportedTypes_follows (hcircular : ∀ n, ¬ u.Circular n) (fuel : Nat) :
    Follows InTables w (u.exportedTypes fuel) (fun fuel => u.exportedTypes fuel)
      fun w' ts ts' => w'.Twins ts ts' := by
  have hentries : ∀ e ∈ u.declarations.filter (·.2.exported), u.declaration? e.1 = some e.2 :=
    fun e he => mem_declarations_iff.1 (List.mem_filter.1 he).1
  rintro _ _ ⟨rfl, rfl⟩ ts s₁ hrun
  obtain ⟨V', rfl, h, hts, hnames⟩ :=
    declarations_do hcircular fuel w.left_standing.prepared hentries ts s₁ hrun
  have hV' : u.Standing V' := ⟨h.after, w.left_standing.reached.tail (.exported hrun)⟩
  obtain ⟨ts', s₁', -, n, hrun'⟩ : Returns w.right.table fun fuel => u.exportedTypes fuel := by
    refine Returns.mapM (I := fun _ _ => True) (P := fun _ _ => False)
      (f := fun fuel e => u.instantiate (u.resolve fuel) e.1 []) (fun _ _ _ _ _ => trivial)
      (u.declarations.filter (·.2.exported)) 0 w.right_standing.prepared trivial
      fun i e he W₁ h₁ _ => ?_
    have hd := hentries e (List.mem_of_getElem? he)
    have hi : i < (V'.names ts).length := by
      rw [← hnames.1]
      exact (List.getElem?_eq_some_iff.1 he).1
    exact ⟨declaration_returns hcircular hV'.prepared.spelled h₁.after (lacks_notedAliases V' W₁) hd
      (hnames.2 i e _ he (List.getElem?_eq_getElem hi)), fun fuel =>
        (instantiate_does hcircular fuel h₁.after hd).mono (fun _ h => h) fun _ _ _ _ => trivial⟩
  have hrun₁ := hrun' n (Nat.le_refl n)
  obtain ⟨W', rfl, h', hts', hnames'⟩ :=
    declarations_do hcircular n w.right_standing.prepared hentries ts' s₁' hrun₁
  have hW' : u.Standing W' := ⟨h'.after, w.right_standing.reached.tail (.exported hrun₁)⟩
  refine ⟨⟨V', W', hV', hW'⟩, ts', W'.table, ⟨h.later, h'.later⟩, ⟨rfl, rfl⟩,
    Sides.twins_of_names hts hts' ?_, n, hrun'⟩
  exact hnames'.unique hnames fun _ _ _ _ hx hx' => hx.unique hx'

end Universe
end TypedJson
