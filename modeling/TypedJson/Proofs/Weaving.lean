import TypedJson.Proofs.Assembly
/-!
# Lists are made of lists

Every list that is kept is put together from what the type lists itself and from the lists that
are kept for the types that it takes over from (`woven_of_reaches`).  So a type that several
others take over from contributes the same items to each of them, whichever was asked first.

`Assembled` says what a list is made of as a derivation, with a derivation of its own for
each base.  That does not say that two types which take over from one base take over the same
list.  Here the lists of the bases are the ones that are kept, and of those there is one for
each type.
-/
namespace TypedJson
namespace Universe

variable {u : Universe} {s s' : Interner} {busy busy' : List (Listing × TypeId)} {k : Listing}
  {t : TypeId} {l : List k.Item}

/-- The list is put together from lists that are kept and not under way. -/
def MadeOf (u : Universe) (busy : List (Listing × TypeId)) (s : Interner) (k : Listing)
    (t : TypeId) (l : List k.Item) : Prop :=
  ∃ own bases lists, u.Own s k t own ∧ u.Bases s t bases ∧
    List.Forall₂ (fun b l => s.kept? k b = some l ∧ (k, b) ∉ busy) bases lists ∧
    l = k.join lists own

/-- Every list that is kept is made of others, but for those under way, unless its type takes over
from one that takes over from itself. -/
def Woven (u : Universe) (busy : List (Listing × TypeId)) (s : Interner) : Prop :=
  ∀ k t l, s.kept? k t = some l → (k, t) ∈ busy ∨ u.CyclicFrom s t ∨ u.MadeOf busy s k t l

theorem Woven.madeOf (h : u.Woven [] s) (hl : s.kept? k t = some l) (hacyclic : ¬ u.CyclicFrom s t) :
    u.MadeOf [] s k t l :=
  ((h k t l hl).resolve_left List.not_mem_nil).resolve_left hacyclic

/-! ## Larger tables

A list that is under way is kept as empty and must not count, so the lists under way are a
parameter, and a list comes into consideration when it is done. -/

theorem MadeOf.extends (hs : u.Sound s) (hclosed : Closed s) (hopen : s.data t ≠ .reserved)
    (h : u.MadeOf busy s k t l) (hext : s.Extends s')
    (hkept : ∀ b l, s.kept? k b = some l → (k, b) ∉ busy → s'.kept? k b = some l ∧ (k, b) ∉ busy') :
    u.MadeOf busy' s' k t l := by
  obtain ⟨own, bases, lists, hown, hbases, hlists, heq⟩ := h
  exact ⟨own, bases, lists, hown.extends hs hclosed hopen hext, hbases.extends hopen hext,
    hlists.imp fun b l hl => hkept b l hl.1 hl.2, heq⟩

theorem Woven.of_kept (hs : u.Kept busy s) (hext : s.Extends s') {k' : Listing} {x : TypeId}
    {l' : List k'.Item} (hl : s.kept? k' x = some l')
    (h : u.CyclicFrom s x ∨ u.MadeOf busy s k' x l')
    (hkept : ∀ b l, s.kept? k' b = some l → (k', b) ∉ busy →
      s'.kept? k' b = some l ∧ (k', b) ∉ busy') : u.CyclicFrom s' x ∨ u.MadeOf busy' s' k' x l' :=
  h.imp (fun hcyclic => hcyclic.extends hext) fun hmade =>
    hmade.extends hs.sound hs.closed (hs.closed x (Interner.has_of_kept? hl)) hext hkept

theorem Woven.enlarged (hwoven : u.Woven busy s) (hs : u.Kept busy s) (h : u.Enlarged s s') :
    u.Woven busy s' := by
  intro k t l hl
  rw [h.kept?] at hl
  exact (hwoven k t l hl).imp_right fun hmade =>
    Woven.of_kept hs h.extends hl hmade fun b l' hl' hidle => ⟨(h.kept? k b).trans hl', hidle⟩

theorem Woven.keep_nil (hwoven : u.Woven busy s) (hs : u.Kept busy s) (ht : s.Has t)
    (hnone : s.kept? k t = none) : u.Woven ((k, t) :: busy) (s.keep k t []) := by
  intro k' x l hl
  by_cases heq : (k', x) = (k, t)
  · exact .inl (heq ▸ List.mem_cons_self)
  rw [Interner.kept?_keep_of_ne ht heq] at hl
  refine (hwoven k' x l hl).imp (List.mem_cons_of_mem _) fun hmade =>
    Woven.of_kept hs Interner.extends_keep hl hmade fun b l' hl' hidle => ?_
  have hne : (k', b) ≠ (k, t) := by
    rintro hsame
    cases hsame
    rw [hnone] at hl'
    cases hl'
  exact ⟨(Interner.kept?_keep_of_ne ht hne).trans hl',
    fun hmem => (List.mem_cons.1 hmem).elim hne hidle⟩

theorem Woven.keep (hwoven : u.Woven ((k, t) :: busy) s) (hs : u.Kept ((k, t) :: busy) s)
    (ht : s.Has t) (hmade : u.CyclicFrom s t ∨ u.MadeOf ((k, t) :: busy) s k t l) :
    u.Woven busy (s.keep k t l) := by
  have hstay : ∀ (k' : Listing) (b : TypeId) (l' : List k'.Item), s.kept? k' b = some l' →
      (k', b) ∉ (k, t) :: busy → (s.keep k t l).kept? k' b = some l' ∧ (k', b) ∉ busy := by
    intro k' b l' hl' hidle
    obtain ⟨hne, hidle⟩ := not_or.1 (mt List.mem_cons.2 hidle)
    exact ⟨(Interner.kept?_keep_of_ne ht hne).trans hl', hidle⟩
  intro k' x l' hl
  by_cases heq : (k', x) = (k, t)
  · cases heq
    rw [Interner.kept?_keep ht] at hl
    cases hl
    refine .inr (hmade.imp (fun hcyclic => hcyclic.extends Interner.extends_keep) fun hmade => ?_)
    exact hmade.extends hs.sound hs.closed (hs.closed t ht) Interner.extends_keep (hstay k)
  · rw [Interner.kept?_keep_of_ne ht heq] at hl
    refine (hwoven k' x l' hl).imp (fun hmem => (List.mem_cons.1 hmem).resolve_left heq)
      fun hmade => ?_
    exact Woven.of_kept hs Interner.extends_keep hl hmade (hstay k')

/-! ## Computations

`Weaves` is a passage, so what is computed is known; and the lists of the bases are reliable
when they are returned, as no base leads back to the type. -/

/-- The second table comes of the first between questions; it keeps what the first one keeps, and
every list in it is made of others. -/
structure Weaves (u : Universe) (busy : List (Listing × TypeId)) (s s' : Interner) : Prop where
  onward : u.Onward busy s s'
  grows : s.Grows s'
  woven : u.Woven busy s'

theorem Weaves.refl (hs : u.Kept busy s) (hwoven : u.Woven busy s) : u.Weaves busy s s :=
  ⟨.refl hs, .refl s, hwoven⟩

theorem weaves_passage (u : Universe) (busy : List (Listing × TypeId)) :
    u.Passage (u.Weaves busy) where
  refl h := .refl h.onward.after h.woven
  trans h h' := ⟨h.onward.trans h'.onward, h.grows.trans h'.grows, h'.woven⟩
  sound h := h.onward.after.sound
  has h := h.onward.has
  table h := h.onward.table
  resolve fuel s scope hs hscope e := by
    have hkept := hs.onward.after
    intro t s' hrun
    obtain ⟨hgrown, ht⟩ := resolve_resolves u fuel s scope e hkept.sound hscope t s' hrun
    obtain ⟨henlarged, hdenotes⟩ := resolve_interprets u fuel s scope e hkept.meaningful t s' hrun
    exact ⟨⟨hkept.enlarged henlarged hgrown.sound, hgrown.grows, hs.woven.enlarged hkept henlarged⟩,
      ht, hdenotes⟩

/-- The list is kept, and under way only if the type takes over from itself. -/
def Reliable (u : Universe) (busy : List (Listing × TypeId)) (k : Listing) (t : TypeId)
    (l : List k.Item) (s : Interner) : Prop :=
  s.kept? k t = some l ∧ ((k, t) ∈ busy → u.CyclicFrom s t)

theorem Reliable.weaves (h : u.Reliable busy k t l s) (hs : u.Weaves busy s s') :
    u.Reliable busy k t l s' :=
  ⟨hs.grows.kept? h.1, fun hmem => (h.2 hmem).extends hs.onward.table⟩

theorem madeOf_of_reliable {own : List k.Item} {bases : List TypeId} {lists : List (List k.Item)}
    (hown : u.Own s k t own) (hbases : u.Bases s t bases)
    (hlists : List.Forall₂ (fun b l => u.Reliable busy k b l s) bases lists) :
    u.CyclicFrom s t ∨ u.MadeOf busy s k t (k.join lists own) := by
  by_cases hcyclic : u.CyclicFrom s t
  · exact .inl hcyclic
  · refine .inr ⟨own, bases, lists, hown, hbases, forall₂_imp_mem hlists fun b hb l _ hl => ?_, rfl⟩
    exact ⟨hl.1, fun hmem => hcyclic ((hl.2 hmem).of_inherits (hbases.inherits hb))⟩

/-- **Listing a type makes its list of lists that are kept.** -/
theorem list_weaves (u : Universe) (k : Listing) : ∀ (fuel : Nat) (t : TypeId) (s : Interner)
    (busy : List (Listing × TypeId)), u.Kept busy s → u.Woven busy s → s.Has t →
    u.Awaits busy k t s →
    After s (u.list fuel k t) fun l s' => u.Weaves busy s s' ∧ u.Reliable busy k t l s'
  | 0, _, _, _, _, _, _, _ => by
    intro l s' hrun
    rw [list_zero] at hrun
    cases hrun
  | fuel + 1, t, s, busy, hs, hwoven, ht, hawaits => by
    intro l s' hrun
    obtain ⟨honward, -⟩ := list_goes u k (fuel + 1) t s busy hs ht hawaits l s' hrun
    obtain ⟨hgrown, hkept'⟩ := list_yields hs.sound (fuel + 1) k ht l s' hrun
    refine ⟨⟨honward, hgrown.grows, ?_⟩, hkept', fun hmem =>
      CyclicFrom.extends ⟨t, .refl, hawaits t hmem⟩ honward.table⟩
    -- It remains that the lists kept afterwards are made of others.
    rcases list_succ_cases hrun with ⟨hkept, rfl⟩ | ⟨hkept, s₂, hrun₂, rfl⟩
    · exact hwoven
    · have hs₁ : u.Kept ((k, t) :: busy) (s.keep k t []) := hs.keep_nil ht
      have hwoven₁ := hwoven.keep_nil hs ht hkept
      have ht₁ : (s.keep k t []).Has t := Interner.has_keep.2 ht
      have hof : ∀ b s₃, u.Weaves ((k, t) :: busy) (s.keep k t []) s₃ → s₃.Has b →
          u.Inherits s₃ t b → After s₃ (u.list fuel k b) fun l s₄ =>
            u.Weaves ((k, t) :: busy) s₃ s₄ ∧ u.Reliable ((k, t) :: busy) k b l s₄ :=
        fun b s₃ h₃ hb hinherits => list_weaves u k fuel b s₃ _ h₃.onward.after h₃.woven hb
          (hawaits.inherits (Interner.extends_keep.trans h₃.onward.table) hinherits)
      obtain ⟨h₂, own, bases, lists, hown, hbases, hlists, rfl⟩ :=
        (weaves_passage u ((k, t) :: busy)).compute fuel (.refl hs₁ hwoven₁) (hs₁.closed t ht₁)
          (fun h hl => hl.weaves h) hof l s₂ hrun₂
      exact h₂.woven.keep h₂.onward.after (h₂.onward.has t ht₁)
        (madeOf_of_reliable hown hbases hlists)

/-! ## Questions

Only questions for lists change what is kept. -/

theorem looks_woven (hs : u.Kept [] s) (hwoven : u.Woven [] s) (h : u.Looks s s') :
    u.Woven [] s' := by
  have hlist : ∀ (k : Listing) {fuel t} {l : List k.Item}, u.list fuel k t s = some (l, s') →
      u.Woven [] s' := by
    intro k fuel t l hrun
    by_cases ht : s.Has t
    · exact (list_weaves u k fuel t s [] hs hwoven ht (fun _ h => by cases h) l s' hrun).1.woven
    · rw [list_of_not_has ht fuel k hrun]
      exact hwoven
  cases h with
  | instantiate hd run =>
    exact hwoven.enlarged hs
      (instantiate_means (resolve_interprets u _) hs.meaningful hd [] _ _ run).1
  | members run => exact hlist .members run
  | indexes run => exact hlist .indexes run

/-- **Whatever is asked, every list that is kept is made of lists that are kept**, unless its type
takes over from one that takes over from itself. -/
theorem woven_of_reaches (h : u.Reaches u.start s) : u.Woven [] s := by
  refine (reaches_induction (P := fun s => u.Kept [] s ∧ u.Woven [] s)
    (fun s s' hs hlooks => ⟨looks_kept hs.1 hlooks, looks_woven hs.1 hs.2 hlooks⟩)
    ⟨start_kept u, fun k t l hl => ?_⟩ h).2
  rw [(start_empty u k t).2] at hl
  cases hl

end Universe
end TypedJson
