import TypedJson.Proofs.Interpretation
import TypedJson.Proofs.Listing
import TypedJson.Proofs.Questions
/-!
# Every list that is kept is that of its type

A list is made along every relation between tables along which expressions are resolved
(`Passage.compute`).  While it is computed an empty one is kept for the type, so what is computed
in the meantime may lack what it should take over from there.  That can only be if a type that it takes
over from takes over from itself (`Universe.CyclicFrom`); every other list that is kept is complete
(`kept_of_reaches`).

The lists under way are the argument `busy`.  A list that is computed takes over from the
lists of the bases, and each of these is either finished, or it is under way; in that case
the type has led back to itself.  `Awaits` makes this precise: each type under way takes over
from the present one, so a base that is under way closes a cycle.
-/
namespace TypedJson
namespace Universe

variable {u : Universe} {s s' : Interner}

/-- The list is that of the type, unless the type takes over from one that takes over from
itself. -/
def Listed (u : Universe) (s : Interner) (k : Listing) (t : TypeId) (l : List k.Item) : Prop :=
  u.CyclicFrom s t ∨ u.Assembled s k t l

theorem Listed.extends (hs : u.Sound s) (hclosed : Closed s) {k : Listing} {t : TypeId}
    {l : List k.Item} (ht : u.Listed s k t l) (h : s.Extends s') : u.Listed s' k t l :=
  ht.imp (fun hcyclic => hcyclic.extends h) fun ht => ht.extends hs hclosed h

theorem Listed.intro {k : Listing} {t : TypeId} {own : List k.Item} {bases : List TypeId}
    {lists : List (List k.Item)} (hopen : s.data t ≠ .reserved) (hown : u.Own s k t own)
    (hbases : u.Bases s t bases) (hlists : List.Forall₂ (u.Listed s k) bases lists) :
    u.Listed s k t (k.join lists own) := by
  by_cases hcyclic : u.CyclicFrom s t
  · exact .inl hcyclic
  · obtain ⟨hlen, hall⟩ := List.forall₂_iff_zip.1 hlists
    refine .inr (.intro hopen hown hbases hlen fun hb => (hall hb).resolve_left fun hbase => ?_)
    exact hcyclic (hbase.of_inherits (hbases.inherits (List.of_mem_zip hb).1))

/-- A table in which nothing is left open and every list that is kept is that of its type, but
for those under way. -/
structure Kept (u : Universe) (busy : List (Listing × TypeId)) (s : Interner) : Prop where
  sound : u.Sound s
  meaningful : u.Meaningful s
  closed : Closed s
  lists : ∀ k t l, s.kept? k t = some l → (k, t) ∈ busy ∨ u.Listed s k t l

structure Onward (u : Universe) (busy : List (Listing × TypeId)) (s s' : Interner) : Prop where
  before : u.Kept busy s
  after : u.Kept busy s'
  has : ∀ t, s.Has t → s'.Has t
  table : s.Extends s'

variable {busy : List (Listing × TypeId)}

namespace Onward

theorem refl (h : u.Kept busy s) : u.Onward busy s s :=
  ⟨h, h, fun _ ht => ht, ⟨fun _ _ => rfl, List.Subset.refl _⟩⟩

theorem trans {s₁ s₂ s₃ : Interner} (h : u.Onward busy s₁ s₂) (h' : u.Onward busy s₂ s₃) :
    u.Onward busy s₁ s₃ :=
  ⟨h.before, h'.after, fun t ht => h'.has t (h.has t ht), h.table.trans h'.table⟩

theorem listed (h : u.Onward busy s s') {k : Listing} {t : TypeId} {l : List k.Item}
    (ht : u.Listed s k t l) : u.Listed s' k t l := ht.extends h.before.sound h.before.closed h.table

end Onward

theorem Enlarged.kept? (h : u.Enlarged s s') (k : Listing) (t : TypeId) :
    s'.kept? k t = s.kept? k t := by
  cases k with
  | members => exact h.members t
  | indexes => exact h.indexes t

theorem Kept.enlarged (h : u.Kept busy s) (hs : u.Enlarged s s') (hsound : u.Sound s') :
    u.Onward busy s s' := by
  refine ⟨h, ⟨hsound, hs.meaningful, fun t ht hopen => ?_, fun k t l hl => ?_⟩, fun _ => hs.has,
    hs.extends⟩
  · have hold := hs.opened t ht hopen
    exact h.closed t hold ((hs.data t hold).symm.trans hopen)
  · rw [hs.kept?] at hl
    exact (h.lists k t l hl).imp_right fun ht => ht.extends h.sound h.closed hs.extends

/-! ## Computations

Resolution changes no list, so between two lists the table goes on as for expressions. -/

/-- The computation goes on from a table between questions to another one, and answers as
stated. -/
def Goes (u : Universe) (busy : List (Listing × TypeId)) (s : Interner) (m : Session α)
    (Q : α → Interner → Prop) : Prop :=
  After s m fun a s' => u.Onward busy s s' ∧ Q a s'

theorem resolve_goes (fuel : Nat) (hs : u.Kept busy s) {scope : Scope} (hscope : Scope.In scope s)
    (e : TypeExpr) : u.Goes busy s (u.resolve fuel scope e) fun t s' =>
      s'.Has t ∧ u.Denotes s' (.expr scope e) t := by
  intro t s' hrun
  obtain ⟨hgrown, ht⟩ := resolve_resolves u fuel s scope e hs.sound hscope t s' hrun
  obtain ⟨henlarged, hdenotes⟩ := resolve_interprets u fuel s scope e hs.meaningful t s' hrun
  exact ⟨hs.enlarged henlarged hgrown.sound, ht, hdenotes⟩

/-! ## Passages

What is said of a computed list is wanted later for relations between tables other than this
one.  A `Passage` has the properties of a relation that the computation uses: expressions are
resolved along it, and it is transitive. -/

/-- A relation between tables along which expressions are resolved. -/
structure Passage (u : Universe) (R : Interner → Interner → Prop) : Prop where
  refl : ∀ {s s'}, R s s' → R s' s'
  trans : ∀ {s₁ s₂ s₃}, R s₁ s₂ → R s₂ s₃ → R s₁ s₃
  sound : ∀ {s s'}, R s s' → u.Sound s'
  has : ∀ {s s'}, R s s' → ∀ t, s.Has t → s'.Has t
  table : ∀ {s s'}, R s s' → s.Extends s'
  resolve : ∀ (fuel : Nat) {s scope}, R s s → Scope.In scope s → ∀ e,
    After s (u.resolve fuel scope e) fun t s' => R s s' ∧ s'.Has t ∧ u.Denotes s' (.expr scope e) t

namespace Passage

variable {R : Interner → Interner → Prop} {α β : Type}

theorem mapM (hR : u.Passage R) (hs : R s s) {P : α → β → Interner → Prop}
    (up : ∀ {a b s s'}, R s s' → P a b s → P a b s') {f : α → Session β} (as : List α)
    (hf : ∀ a ∈ as, ∀ s', R s s' → After s' (f a) fun b s'' => R s' s'' ∧ P a b s'') :
    After s (as.mapM f) fun bs s' => R s s' ∧ List.Forall₂ (fun a b => P a b s') as bs :=
  After.mapM (R := R) (P := P) hR.trans up as hs (fun _ h => hR.refl h) hf

theorem scope_in (hR : u.Passage R) (h : R s s') {scope : Scope} (hscope : Scope.In scope s) :
    Scope.In scope s' := fun p hp => hR.has h _ (hscope p hp)

theorem resolveMembers (hR : u.Passage R) (fuel : Nat) (hs : R s s) {scope : Scope}
    (hscope : Scope.In scope s) (members : List Member) :
    After s (resolveMembers (u.resolve fuel) scope members) fun ms s' =>
      R s s' ∧ List.Forall₂ (u.MemberDenotes s' scope) members ms := by
  refine hR.mapM (P := fun m x s => u.MemberDenotes s scope m x) hs
    (fun h hx => hx.extends (hR.table h)) members fun m _ s' h' => ?_
  have htype : After s' (memberType (u.resolve fuel) scope m) fun type s'' =>
      R s' s'' ∧ u.MemberDenotes s'' scope m ⟨m.name, m.optional, type⟩ := by
    unfold memberType
    split
    · rename_i e hmethod htype
      refine After.map ((hR.resolve fuel (hR.refl h') (hR.scope_in h' hscope) e).mono
        fun t s'' ⟨h'', _, ht⟩ => ⟨h'', rfl, rfl, ?_⟩)
      rw [hmethod, htype]
      exact ⟨t, rfl, ht⟩
    · rename_i hnone
      refine .pure ⟨hR.refl h', rfl, rfl, ?_⟩
      split
      · rename_i e hmethod htype
        exact absurd htype (hnone e hmethod)
      · rfl
  exact htype.bind fun type s'' hm => .pure hm

theorem resolveIndexes (hR : u.Passage R) (fuel : Nat) (hs : R s s) {scope : Scope}
    (hscope : Scope.In scope s) (indexes : List Index) :
    After s (resolveIndexes (u.resolve fuel) scope indexes) fun is s' =>
      R s s' ∧ List.Forall₂ (u.IndexDenotes s' scope) indexes is := by
  refine hR.mapM (P := fun m x s => u.IndexDenotes s scope m x) hs
    (fun h hx => hx.extends (hR.table h)) indexes fun m _ s' h' => ?_
  have hscope' := hR.scope_in h' hscope
  refine (hR.resolve fuel (hR.refl h') hscope' m.key).bind fun key s₁ ⟨h₁, _, hkey⟩ => ?_
  refine (hR.resolve fuel (hR.refl h₁) (hR.scope_in h₁ hscope') m.value).bind
    fun value s₂ ⟨h₂, _, hvalue⟩ => ?_
  exact .pure ⟨hR.trans h₁ h₂, hkey.extends (hR.table h₂), hvalue⟩

theorem resolveOwn (hR : u.Passage R) (fuel : Nat) (hs : R s s) {scope : Scope}
    (hscope : Scope.In scope s) (members : List Member) (indexes : List Index) : ∀ k : Listing,
    After s (resolveOwn (u.resolve fuel) scope members indexes k) fun own s' =>
      R s s' ∧ u.TextDenotes s' scope members indexes k own
  | .members => hR.resolveMembers fuel hs hscope members
  | .indexes => hR.resolveIndexes fuel hs hscope indexes

theorem textDenotes (hR : u.Passage R) (h : R s s') {scope : Scope} {members : List Member}
    {indexes : List Index} : ∀ (k : Listing) {own : List k.Item},
    u.TextDenotes s scope members indexes k own → u.TextDenotes s' scope members indexes k own
  | .members, _, hown => List.Forall₂.imp (fun _ _ hx => hx.extends (hR.table h)) hown
  | .indexes, _, hown => List.Forall₂.imp (fun _ _ hx => hx.extends (hR.table h)) hown

/-- **What is listed for a type**: its own items, and what is listed for the types that it takes
over from. -/
theorem compute (hR : u.Passage R) (fuel : Nat) (hs : R s s) {k : Listing} {t : TypeId}
    (hopen : s.data t ≠ .reserved) {listOf : TypeId → Session (List k.Item)}
    {P : TypeId → List k.Item → Interner → Prop} (up : ∀ {b l s s'}, R s s' → P b l s → P b l s')
    (hof : ∀ b s', R s s' → s'.Has b → u.Inherits s' t b →
      After s' (listOf b) fun l s'' => R s' s'' ∧ P b l s'') :
    After s (u.compute (u.resolve fuel) k listOf t) fun l s' => R s s' ∧ ∃ own bases lists,
      u.Own s' k t own ∧ u.Bases s' t bases ∧ List.Forall₂ (fun b l => P b l s') bases lists ∧
      l = k.join lists own := by
  intro l s' hrun
  rw [compute_eq] at hrun
  have hdata {s'} (h : R s s') : s'.data t = s.data t := (hR.table h).data t hopen
  cases hcontents : u.contents (s.data t) with
  | text unit params bases members indexes =>
    rw [hcontents] at hrun
    have hscope := contents_scope_in (hR.sound hs) hcontents
    have hall : After s (computeFrom (u.resolve fuel) k listOf s
        (.text unit params bases members indexes)) fun l s' => R s s' ∧ ∃ own ts lists,
          u.TextDenotes s' ⟨unit, params⟩ members indexes k own ∧
          u.DenoteAll s' ⟨unit, params⟩ bases ts ∧
          List.Forall₂ (fun b l => P b l s') ts lists ∧ l = k.join lists own := by
      refine (hR.resolveOwn fuel hs hscope members indexes k).bind fun own s₁ ⟨h₁, hown⟩ => ?_
      refine After.bind (hR.mapM (P := fun e l s =>
        ∃ b, u.Denotes s (.expr ⟨unit, params⟩ e) b ∧ P b l s) (hR.refl h₁)
        (fun h => Exists.imp fun b hb => ⟨hb.1.extends (hR.table h), up h hb.2⟩) bases
        fun e he s₂ h₂ => ?_) fun lists s₂ ⟨h₂, hlists⟩ => ?_
      · have hto := hR.trans h₁ h₂
        refine (hR.resolve fuel (hR.refl h₂) (hR.scope_in hto hscope) e).bind
          fun b s₃ ⟨h₃, hb, hdenotes⟩ => ?_
        have hto := hR.trans hto h₃
        have hinherits : u.Inherits s₃ t b :=
          inherits_of_text (by rw [hdata hto]; exact hcontents) he hdenotes
        exact (hof b s₃ hto hb hinherits).mono fun l s₄ ⟨h₄, hl⟩ =>
          ⟨hR.trans h₃ h₄, b, hdenotes.extends (hR.table h₄), hl⟩
      · obtain ⟨ts, hts, hlists⟩ := forall₂_exists hlists
        exact .pure ⟨hR.trans h₁ h₂, own, ts, lists, hR.textDenotes h₂ k hown, hts, hlists, rfl⟩
    obtain ⟨h, own, ts, lists, hown, hts, hlists⟩ := hall l s' hrun
    have hcontents : u.contents (s'.data t) = _ := (congrArg u.contents (hdata h)).trans hcontents
    exact ⟨h, own, ts, lists, own_of_text hcontents hown, bases_of_text hcontents hts, hlists⟩
  | parts xs =>
    rw [hcontents] at hrun
    obtain ⟨origin, hparts⟩ := contents_parts hcontents
    have hall : After s (computeFrom (u.resolve fuel) k listOf s (.parts xs)) fun l s' =>
        R s s' ∧ ∃ lists, List.Forall₂ (fun b l => P b l s') xs lists ∧ l = k.join lists [] := by
      refine After.bind (hR.mapM (P := P) hs up xs fun b hb s' h' => ?_)
        fun lists s' ⟨h', hlists⟩ => .pure ⟨h', lists, hlists, rfl⟩
      exact hof b s' h' (hR.has h' b (shape_parts_has (hR.sound hs) hparts b hb))
        (.part ((hdata h').trans hparts) hb)
    obtain ⟨h, lists, hlists, heq⟩ := hall l s' hrun
    obtain ⟨hown, hbases⟩ := own_bases_of_parts (k := k)
      ((congrArg u.contents (hdata h)).trans hcontents)
    exact ⟨h, [], xs, lists, hown, hbases, hlists, heq⟩
  | record key value =>
    rw [hcontents] at hrun
    cases hrun
    obtain ⟨hown, hbases⟩ := own_bases_of_record (k := k) hcontents
    exact ⟨hs, _, [], [], hown, hbases, .nil, (join_nil _).symm⟩
  | nothing =>
    rw [hcontents] at hrun
    cases hrun
    obtain ⟨hown, hbases⟩ := own_bases_of_nothing (k := k) hcontents
    exact ⟨hs, [], [], [], hown, hbases, .nil, (join_nil _).symm⟩

end Passage

theorem onward_passage (u : Universe) (busy : List (Listing × TypeId)) :
    u.Passage (u.Onward busy) where
  refl h := .refl h.after
  trans := Onward.trans
  sound h := h.after.sound
  has := Onward.has
  table := Onward.table
  resolve fuel _ _ hs hscope e := resolve_goes fuel hs.after hscope e

/-- What the types that this one takes over from list may be asked for. -/
def ListsBases (u : Universe) (busy : List (Listing × TypeId)) (k : Listing)
    (listOf : TypeId → Session (List k.Item)) (t : TypeId) (s : Interner) : Prop :=
  ∀ b s', u.Onward busy s s' → s'.Has b → u.Inherits s' t b →
    u.Goes busy s' (listOf b) fun l s'' => u.Listed s'' k b l

variable {t : TypeId}

theorem compute_goes (fuel : Nat) (hs : u.Kept busy s) (ht : s.Has t) (k : Listing)
    {listOf : TypeId → Session (List k.Item)} (hof : u.ListsBases busy k listOf t s) :
    u.Goes busy s (u.compute (u.resolve fuel) k listOf t) fun l s' => u.Listed s' k t l := by
  have hall := (onward_passage u busy).compute (P := fun b l s => u.Listed s k b l) fuel (.refl hs)
    (hs.closed t ht) (fun h hl => h.listed hl) hof
  refine hall.mono ?_
  rintro _ s' ⟨h, own, bases, lists, hown, hbases, hlists, rfl⟩
  exact ⟨h, .intro (h.after.closed t (h.has t ht)) hown hbases hlists⟩

/-! ## The lists of a type

By induction on the fuel.  The empty list is put in place first, then the list is computed
with this type under way, and at the end it is kept and nothing is under way that was not
before. -/

theorem list_yields (hs : u.Sound s) (fuel : Nat) : ∀ (k : Listing), s.Has t →
    u.Yields s (u.list fuel k t) fun l s' => s'.kept? k t = some l
  | .members, ht => (members_yields u fuel t s hs ht).mono fun _ _ h => ⟨h.1, h.2.1⟩
  | .indexes, ht => (indexes_yields u fuel t s hs ht).mono fun _ _ h => ⟨h.1, h.2.1⟩

theorem Meaningful.keep (hs : u.Meaningful s) (k : Listing) (l : List k.Item) :
    u.Meaningful (s.keep k t l) :=
  hs.of_data Interner.extends_keep Interner.instances_keep (fun _ => Interner.has_keep.2)
    (fun x => .inl (Interner.data_keep x)) fun _ x _ _ hopen =>
      .inl ((Interner.data_keep x).trans hopen)

theorem Sound.keep_nil (hs : u.Sound s) (ht : s.Has t) :
    ∀ k : Listing, u.Sound (s.keep k t [])
  | .members => hs.setMembers ht (fun _ h => by cases h) fun _ => rfl
  | .indexes => hs.setIndexes ht (fun _ h => by cases h) fun _ => rfl

theorem Closed.keep (h : Closed s) (k : Listing) (l : List k.Item) : Closed (s.keep k t l) :=
  fun x hx => by
    rw [Interner.data_keep]
    exact h x (Interner.has_keep.1 hx)

theorem Kept.keep_nil (hs : u.Kept busy s) (ht : s.Has t) {k : Listing} :
    u.Kept ((k, t) :: busy) (s.keep k t []) := by
  refine ⟨hs.sound.keep_nil ht k, hs.meaningful.keep k [], hs.closed.keep k [],
    fun k' x l hl => ?_⟩
  by_cases heq : (k', x) = (k, t)
  · exact .inl (by rw [heq]; exact List.mem_cons_self)
  · rw [Interner.kept?_keep_of_ne ht heq] at hl
    exact (hs.lists k' x l hl).imp (List.mem_cons_of_mem _)
      fun hx => hx.extends hs.sound hs.closed Interner.extends_keep

/-- The types whose lists are under way take over from the type, directly or not. -/
def Awaits (u : Universe) (busy : List (Listing × TypeId)) (k : Listing) (t : TypeId)
    (s : Interner) : Prop :=
  ∀ x, (k, x) ∈ busy → Relation.TransGen (u.Inherits s) x t

theorem Awaits.inherits {k : Listing} {b : TypeId} (h : u.Awaits busy k t s) (hext : s.Extends s')
    (hinherits : u.Inherits s' t b) : u.Awaits ((k, t) :: busy) k b s' := by
  intro x hx
  rcases List.mem_cons.1 hx with heq | hx
  · cases heq
    exact .single hinherits
  · exact (inherits_extends hext (h x hx)).tail hinherits

/-- **A type lists what its declaration says.** -/
theorem list_goes (u : Universe) (k : Listing) : ∀ (fuel : Nat) (t : TypeId) (s : Interner)
    (busy : List (Listing × TypeId)), u.Kept busy s → s.Has t → u.Awaits busy k t s →
    u.Goes busy s (u.list fuel k t) fun l s' => u.Listed s' k t l
  | 0, _, _, _, _, _, _ => by
    intro l s' hrun
    rw [list_zero] at hrun
    cases hrun
  | fuel + 1, t, s, busy, hs, ht, hawaits => by
    intro l s' hrun
    have hsound := (list_yields hs.sound (fuel + 1) k ht l s' hrun).1.sound
    rcases list_succ_cases hrun with ⟨hkept, rfl⟩ | ⟨hkept, s₂, hrun₂, rfl⟩
    · refine ⟨.refl hs, ?_⟩
      rcases hs.lists k t l hkept with hbusy | hlisted
      · exact .inl ⟨t, .refl, hawaits t hbusy⟩
      · exact hlisted
    · have hext : s.Extends (s.keep k t []) := Interner.extends_keep
      have h₁ : u.Kept ((k, t) :: busy) (s.keep k t []) := hs.keep_nil ht
      have hof : u.ListsBases ((k, t) :: busy) k (u.list fuel k) t (s.keep k t []) :=
        fun b s₃ h₃ hb hinherits => list_goes u k fuel b s₃ _ h₃.after hb
          (hawaits.inherits (hext.trans h₃.table) hinherits)
      obtain ⟨h₂, hlisted⟩ := compute_goes fuel h₁ (Interner.has_keep.2 ht) k hof l s₂ hrun₂
      have ht₂ := h₂.has t (Interner.has_keep.2 ht)
      have hext₂ : s₂.Extends (s₂.keep k t l) := Interner.extends_keep
      have hlists : ∀ k' x l', (s₂.keep k t l).kept? k' x = some l' →
          (k', x) ∈ busy ∨ u.Listed (s₂.keep k t l) k' x l' := by
        intro k' x l' hl
        by_cases heq : (k', x) = (k, t)
        · cases heq
          rw [Interner.kept?_keep ht₂] at hl
          cases hl
          exact .inr (hlisted.extends h₂.after.sound h₂.after.closed hext₂)
        · rw [Interner.kept?_keep_of_ne ht₂ heq] at hl
          exact (h₂.after.lists k' x l' hl).imp (fun h => (List.mem_cons.1 h).resolve_left heq)
            fun hx => hx.extends h₂.after.sound h₂.after.closed hext₂
      refine ⟨⟨hs, ⟨hsound, h₂.after.meaningful.keep k l, h₂.after.closed.keep k l, hlists⟩,
        fun x hx => Interner.has_keep.2 (h₂.has x (Interner.has_keep.2 hx)),
        (hext.trans h₂.table).trans hext₂⟩, ?_⟩
      exact hlisted.extends h₂.after.sound h₂.after.closed hext₂

theorem list_of_not_has (ht : ¬ s.Has t) (fuel : Nat) (k : Listing) {l : List k.Item}
    (hrun : u.list fuel k t s = some (l, s')) : s' = s := by
  cases fuel with
  | zero =>
    rw [list_zero] at hrun
    cases hrun
  | succ fuel =>
    have hbare : (s.data t).isBare = true := by
      rw [Interner.data_of_not_has ht]
      rfl
    have hcompute : u.compute (u.resolve fuel) k (u.list fuel k) t s = some ([], s) := by
      cases k with
      | members => exact computeMembers_of_isBare hbare
      | indexes => exact computeIndexes_of_isBare hbare
    rcases list_succ_cases hrun with ⟨-, rfl⟩ | ⟨-, s₁, hrun₁, rfl⟩
    · rfl
    · rw [Interner.keep_of_not_has ht, hcompute] at hrun₁
      cases hrun₁
      exact Interner.keep_of_not_has ht

theorem looks_kept (hs : u.Kept [] s) (h : u.Looks s s') : u.Kept [] s' := by
  have hlist : ∀ (k : Listing) {fuel t} {l : List k.Item}, u.list fuel k t s = some (l, s') →
      u.Kept [] s' := by
    intro k fuel t l hrun
    by_cases ht : s.Has t
    · exact (list_goes u k fuel t s [] hs ht (fun _ h => by cases h) l s' hrun).1.after
    · rw [list_of_not_has ht fuel k hrun]
      exact hs
  cases h with
  | instantiate hd run =>
    have hgrown := (instantiate_yields (resolve_resolves u _) hs.sound hd (fun _ h => by cases h)
      _ _ run).1
    have henlarged := (instantiate_means (resolve_interprets u _) hs.meaningful hd [] _ _ run).1
    exact (hs.enlarged henlarged hgrown.sound).after
  | members run => exact hlist .members run
  | indexes run => exact hlist .indexes run

theorem start_empty (u : Universe) (k : Listing) (t : TypeId) :
    Closed u.start ∧ u.start.kept? k t = none := by
  refine (start_induction (u := u) (P := fun s => u.Meaningful s ∧ Closed s ∧
    s.kept? k t = none) ?_ ?_).2
  · refine ⟨.empty u, fun t ht => absurd ht (Nat.not_lt_zero _), ?_⟩
    cases k with
    | members => rfl
    | indexes => rfl
  · intro s id position _ _ _ ⟨hs, hclosed, hnone⟩
    obtain ⟨h, -⟩ := Means.intern hs (.param (.param id position)) _ _ rfl
    refine ⟨h.meaningful, fun x hx hopen => ?_, ?_⟩
    · have hold := h.opened x hx hopen
      exact hclosed x hold ((h.data x hold).symm.trans hopen)
    · exact (h.kept? k t).trans hnone

theorem start_kept (u : Universe) : u.Kept [] u.start := by
  refine ⟨start_sound u, start_meaningful u, (start_empty u .members ⟨0⟩).1, fun k t l hl => ?_⟩
  rw [(start_empty u k t).2] at hl
  cases hl

/-- **Whatever is asked, every list that is kept is that of its type**, unless some type takes
over from itself. -/
theorem kept_of_reaches (h : u.Reaches u.start s) : u.Kept [] s :=
  reaches_induction (fun _ _ => looks_kept) (start_kept u) h

end Universe
end TypedJson
