import TypedJson.Proofs.Assembly
/-!
# From resolving to questions

A question resolves declarations and lists members and index signatures, and what is listed is
resolved in its turn, while the lists that are under way are kept.  So a relation between tables
that holds between the table before and the table after whenever an expression is resolved or a
list is kept, holds between any two tables of a series of questions (`Course.of_reaches`).

Several invariants of tables are kept by resolution and say nothing that a list could spoil.
For these the recursion through lists need not be made again: it is enough to have the
relation for single expressions and for the keeping of a list.
-/
namespace TypedJson
namespace Universe

variable {u : Universe} {s s' : Interner}

/-- The relation holds between the tables before and after an expression or a declaration is
resolved, and before and after a list is kept that refers to handles of the table. -/
structure Course (u : Universe) (R : Interner → Interner → Prop) : Prop where
  refl : ∀ s, R s s
  trans : ∀ {s₁ s₂ s₃}, R s₁ s₂ → R s₂ s₃ → R s₁ s₃
  resolve : ∀ (fuel : Nat) {s scope}, u.Sound s → Scope.In scope s → ∀ e,
    After s (u.resolve fuel scope e) fun _ s' => R s s'
  instantiate : ∀ (fuel : Nat) {s id d}, u.declaration? id = some d → u.Sound s →
    After s (u.instantiate (u.resolve fuel) id []) fun _ s' => R s s'
  keep : ∀ {s t} (k : Listing) (l : List k.Item), s.Has t → u.Sound (s.keep k t l) →
    R s (s.keep k t l)

namespace Course

variable {R : Interner → Interner → Prop}

theorem passage (h : u.Course R) (busy : List (Listing × TypeId)) :
    u.Passage fun s s' => u.Onward busy s s' ∧ R s s' where
  refl h' := ⟨.refl h'.1.after, h.refl _⟩
  trans h₁ h₂ := ⟨h₁.1.trans h₂.1, h.trans h₁.2 h₂.2⟩
  sound h' := h'.1.after.sound
  has h' := h'.1.has
  table h' := h'.1.table
  resolve fuel s scope hs hscope e := by
    intro t s' hrun
    obtain ⟨honward, ht, hdenotes⟩ := resolve_goes fuel hs.1.after hscope e t s' hrun
    exact ⟨⟨honward, h.resolve fuel hs.1.after.sound hscope e t s' hrun⟩, ht, hdenotes⟩

/-- A type lists what its bases list, and resolves the rest. -/
theorem list (h : u.Course R) (k : Listing) : ∀ (fuel : Nat) (t : TypeId) (s : Interner)
    (busy : List (Listing × TypeId)), u.Kept busy s → s.Has t → u.Awaits busy k t s →
    After s (u.list fuel k t) fun _ s' => R s s'
  | 0, _, _, _, _, _, _ => by
    intro l s' hrun
    rw [list_zero] at hrun
    cases hrun
  | fuel + 1, t, s, busy, hs, ht, hawaits => by
    intro l s' hrun
    have hsound := (list_yields hs.sound (fuel + 1) k ht l s' hrun).1.sound
    rcases list_succ_cases hrun with ⟨hkept, rfl⟩ | ⟨hkept, s₂, hrun₂, rfl⟩
    · exact h.refl _
    · have hs₁ : u.Kept ((k, t) :: busy) (s.keep k t []) := hs.keep_nil ht
      have hof : ∀ b s₃, u.Onward ((k, t) :: busy) (s.keep k t []) s₃ ∧ R (s.keep k t []) s₃ →
          s₃.Has b → u.Inherits s₃ t b → After s₃ (u.list fuel k b) fun _ s₄ =>
            (u.Onward ((k, t) :: busy) s₃ s₄ ∧ R s₃ s₄) ∧ True := by
        intro b s₃ h₃ hb hinherits l₄ s₄ hrun₄
        have hawaits' := hawaits.inherits (Interner.extends_keep.trans h₃.1.table) hinherits
        have honward := (list_goes u k fuel b s₃ _ h₃.1.after hb hawaits' l₄ s₄ hrun₄).1
        exact ⟨⟨honward, list h k fuel b s₃ _ h₃.1.after hb hawaits' l₄ s₄ hrun₄⟩, trivial⟩
      have hopen₁ := hs₁.closed t (Interner.has_keep.2 ht)
      obtain ⟨⟨honward, h₂⟩, -⟩ := (h.passage ((k, t) :: busy)).compute (P := fun _ _ _ => True)
        fuel ⟨.refl hs₁, h.refl _⟩ hopen₁ (fun _ _ => trivial) hof l s₂ hrun₂
      have ht₂ : s₂.Has t := honward.has t (Interner.has_keep.2 ht)
      exact h.trans (h.keep k [] ht hs₁.sound) (h.trans h₂ (h.keep k l ht₂ hsound))

theorem looks (h : u.Course R) (hs : u.Kept [] s) (hlooks : u.Looks s s') : R s s' := by
  have hlist : ∀ (k : Listing) {fuel t} {l : List k.Item}, u.list fuel k t s = some (l, s') →
      R s s' := by
    intro k fuel t l hrun
    by_cases ht : s.Has t
    · exact h.list k fuel t s [] hs ht (fun _ h => by cases h) l s' hrun
    · rw [list_of_not_has ht fuel k hrun]
      exact h.refl s
  cases hlooks with
  | instantiate hd run => exact h.instantiate _ hd hs.sound _ _ run
  | members run => exact hlist .members run
  | indexes run => exact hlist .indexes run

/-- **Questions stay within what resolving does.** -/
theorem of_reaches (h : u.Course R) (hs : u.Reaches u.start s) (hss : u.Reaches s s') : R s s' :=
  (reaches_induction (P := fun s' => u.Kept [] s' ∧ R s s')
    (fun _ _ hs' hlooks => ⟨looks_kept hs'.1 hlooks, h.trans hs'.2 (h.looks hs'.1 hlooks)⟩)
    ⟨kept_of_reaches hs, h.refl s⟩ hss).2

end Course
end Universe
end TypedJson
