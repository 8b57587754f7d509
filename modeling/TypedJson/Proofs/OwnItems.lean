import TypedJson.Proofs.Linearization
/-!
# Lists begin with what a type lists itself

Whatever is asked, and whether or not types take over from themselves, a list that is kept is what
the type lists itself with something joined to it for each type that it takes over from
(`fronted_of_reaches`).  So its front is the own items of the type (`Front.exists_own`), and where
the type takes over from none it is these alone (`Front.own_of_no_bases`).

Nothing is assumed of cycles here.  While a list is computed an empty one stands in its
place, and a type that leads back to itself takes over from that; what it lists itself is
first in the list all the same.
-/
namespace TypedJson
namespace Universe

variable {u : Universe} {s s' : Interner} {busy : List (Listing × TypeId)} {k : Listing}
  {t : TypeId} {l : List k.Item}

/-- The list is what the type lists itself, with one list joined for each type taken over from. -/
def Front (u : Universe) (s : Interner) (k : Listing) (t : TypeId) (l : List k.Item) : Prop :=
  ∃ own bases lists, u.Own s k t own ∧ u.Bases s t bases ∧ bases.length = lists.length ∧
    l = k.join lists own

/-- Every list that is kept begins with the own items of its type, but for those under way. -/
def Fronted (u : Universe) (busy : List (Listing × TypeId)) (s : Interner) : Prop :=
  ∀ k t l, s.kept? k t = some l → (k, t) ∈ busy ∨ u.Front s k t l

theorem Front.extends (h : u.Front s k t l) (hs : u.Kept busy s) (ht : s.Has t)
    (hext : s.Extends s') : u.Front s' k t l := by
  obtain ⟨own, bases, lists, hown, hbases, hlen, heq⟩ := h
  have hopen := hs.closed t ht
  exact ⟨own, bases, lists, hown.extends hs.sound hs.closed hopen hext,
    hbases.extends hopen hext, hlen, heq⟩

theorem Fronted.enlarged (h : u.Fronted busy s) (hs : u.Kept busy s) (henlarged : u.Enlarged s s') :
    u.Fronted busy s' := by
  intro k t l hl
  rw [henlarged.kept?] at hl
  exact (h k t l hl).imp_right fun hfront =>
    hfront.extends hs (Interner.has_of_kept? hl) henlarged.extends

theorem Fronted.keep_nil (h : u.Fronted busy s) (hs : u.Kept busy s) (ht : s.Has t) :
    u.Fronted ((k, t) :: busy) (s.keep k t []) := by
  intro k' x l hl
  by_cases heq : (k', x) = (k, t)
  · exact .inl (heq ▸ List.mem_cons_self)
  · rw [Interner.kept?_keep_of_ne ht heq] at hl
    exact (h k' x l hl).imp (List.mem_cons_of_mem _) fun hfront =>
      hfront.extends hs (Interner.has_of_kept? hl) Interner.extends_keep

theorem Fronted.keep (h : u.Fronted ((k, t) :: busy) s) (hs : u.Kept ((k, t) :: busy) s)
    (ht : s.Has t) (hl : u.Front s k t l) : u.Fronted busy (s.keep k t l) := by
  intro k' x l' hl'
  by_cases heq : (k', x) = (k, t)
  · cases heq
    rw [Interner.kept?_keep ht] at hl'
    cases hl'
    exact .inr (hl.extends hs ht Interner.extends_keep)
  · rw [Interner.kept?_keep_of_ne ht heq] at hl'
    exact (h k' x l' hl').imp (fun hmem => (List.mem_cons.1 hmem).resolve_left heq) fun hfront =>
      hfront.extends hs (Interner.has_of_kept? hl') Interner.extends_keep

/-! ## Computations

`Fronts` is a passage, and the proof has the steps of the one on how lists are made of
lists. -/

/-- The second table comes of the first between questions, and its lists begin with own items. -/
structure Fronts (u : Universe) (busy : List (Listing × TypeId)) (s s' : Interner) : Prop where
  onward : u.Onward busy s s'
  fronted : u.Fronted busy s'

theorem fronts_passage (u : Universe) (busy : List (Listing × TypeId)) :
    u.Passage (u.Fronts busy) where
  refl h := ⟨.refl h.onward.after, h.fronted⟩
  trans h h' := ⟨h.onward.trans h'.onward, h'.fronted⟩
  sound h := h.onward.after.sound
  has h := h.onward.has
  table h := h.onward.table
  resolve fuel s scope hs hscope e := by
    have hkept := hs.onward.after
    intro t s' hrun
    obtain ⟨hgrown, ht⟩ := resolve_resolves u fuel s scope e hkept.sound hscope t s' hrun
    obtain ⟨henlarged, hdenotes⟩ := resolve_interprets u fuel s scope e hkept.meaningful t s' hrun
    exact ⟨⟨hkept.enlarged henlarged hgrown.sound, hs.fronted.enlarged hkept henlarged⟩, ht,
      hdenotes⟩

/-- **Listing a type leaves lists that begin with own items.** -/
theorem list_fronts (u : Universe) (k : Listing) : ∀ (fuel : Nat) (t : TypeId) (s : Interner)
    (busy : List (Listing × TypeId)), u.Kept busy s → u.Fronted busy s → s.Has t →
    u.Awaits busy k t s → After s (u.list fuel k t) fun _ s' => u.Fronts busy s s'
  | 0, _, _, _, _, _, _, _ => by
    intro l s' hrun
    rw [list_zero] at hrun
    cases hrun
  | fuel + 1, t, s, busy, hs, hfronted, ht, hawaits => by
    intro l s' hrun
    obtain ⟨honward, -⟩ := list_goes u k (fuel + 1) t s busy hs ht hawaits l s' hrun
    refine ⟨honward, ?_⟩
    rcases list_succ_cases hrun with ⟨hkept, rfl⟩ | ⟨hkept, s₂, hrun₂, rfl⟩
    · exact hfronted
    · have hs₁ : u.Kept ((k, t) :: busy) (s.keep k t []) := hs.keep_nil ht
      have ht₁ : (s.keep k t []).Has t := Interner.has_keep.2 ht
      have hof : ∀ b s₃, u.Fronts ((k, t) :: busy) (s.keep k t []) s₃ → s₃.Has b →
          u.Inherits s₃ t b → After s₃ (u.list fuel k b) fun _ s₄ =>
            u.Fronts ((k, t) :: busy) s₃ s₄ ∧ True :=
        fun b s₃ h₃ hb hinherits => (list_fronts u k fuel b s₃ _ h₃.onward.after h₃.fronted hb
          (hawaits.inherits (Interner.extends_keep.trans h₃.onward.table) hinherits)).mono
          fun _ _ h => ⟨h, trivial⟩
      obtain ⟨h₂, own, bases, lists, hown, hbases, hlists, rfl⟩ :=
        (fronts_passage u ((k, t) :: busy)).compute (P := fun _ _ _ => True) fuel
          ⟨.refl hs₁, hfronted.keep_nil hs ht⟩ (hs₁.closed t ht₁) (fun _ h => h) hof l s₂ hrun₂
      exact h₂.fronted.keep h₂.onward.after (h₂.onward.has t ht₁)
        ⟨own, bases, lists, hown, hbases, hlists.length_eq, rfl⟩

theorem looks_fronted (hs : u.Kept [] s) (hfronted : u.Fronted [] s) (h : u.Looks s s') :
    u.Fronted [] s' := by
  have hlist : ∀ (k : Listing) {fuel t} {l : List k.Item}, u.list fuel k t s = some (l, s') →
      u.Fronted [] s' := by
    intro k fuel t l hrun
    by_cases ht : s.Has t
    · exact (list_fronts u k fuel t s [] hs hfronted ht (fun _ h => by cases h) l s' hrun).fronted
    · rw [list_of_not_has ht fuel k hrun]
      exact hfronted
  cases h with
  | instantiate hd run =>
    exact hfronted.enlarged hs
      (instantiate_means (resolve_interprets u _) hs.meaningful hd [] _ _ run).1
  | members run => exact hlist .members run
  | indexes run => exact hlist .indexes run

/-- **Whatever is asked, every list that is kept begins with what the type lists itself.** -/
theorem fronted_of_reaches (h : u.Reaches u.start s) (hl : s.kept? k t = some l) :
    u.Front s k t l := by
  have hfronted := (reaches_induction (P := fun s => u.Kept [] s ∧ u.Fronted [] s)
    (fun s s' hs hlooks => ⟨looks_kept hs.1 hlooks, looks_fronted hs.1 hs.2 hlooks⟩)
    ⟨start_kept u, fun k t l hl => by rw [(start_empty u k t).2] at hl; cases hl⟩ h).2
  exact (hfronted k t l hl).resolve_left List.not_mem_nil

/-! ## The front

What `join` puts behind the own items never changes what is in front. -/

theorem Front.exists_own (h : u.Front s k t l) : ∃ own, u.Own s k t own ∧ own <+: l := by
  obtain ⟨own, bases, lists, hown, -, -, rfl⟩ := h
  exact ⟨own, hown, k.prefix_join lists own⟩

/-- A type that takes over from none lists its own items and no others. -/
theorem Front.own_of_no_bases (h : u.Front s k t l)
    (hnone : ∀ bases, u.Bases s t bases → bases = []) : u.Own s k t l := by
  obtain ⟨own, bases, lists, hown, hbases, hlen, rfl⟩ := h
  rw [hnone bases hbases] at hlen
  rw [List.eq_nil_of_length_eq_zero hlen.symm, join_nil]
  exact hown

end Universe
end TypedJson
