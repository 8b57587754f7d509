import Mathlib.Data.List.Forall2
/-!
# Computations that may run out of fuel

A pass over the types is a computation on a state that has no result if its fuel is used
up.  `After` says what holds of every result.  `CoveredBy` compares two computations: the
second gives every result that the first gives, which is what more fuel does.

Every triple of the following modules is `After` with an invariant of its own, and every
lemma on `bind` and `mapM` for one of them is derived from the ones here.  Nothing is said of
whether there is a result; that is `Ends`, later.
-/
namespace TypedJson

variable {σ α β : Type}

theorem bind_eq_some {m : StateT σ Option α} {f : α → StateT σ Option β} {s : σ} {r : β × σ} :
    (m >>= f) s = some r ↔ ∃ a s', m s = some (a, s') ∧ f a s' = some r := by
  show (m s).bind (fun p => f p.1 p.2) = some r ↔ _
  constructor
  · intro h
    obtain ⟨⟨a, s'⟩, hm, hf⟩ := Option.bind_eq_some_iff.1 h
    exact ⟨a, s', hm, hf⟩
  · rintro ⟨a, s', hm, hf⟩
    rw [hm]
    exact hf

theorem pure_eq_some {a : α} {s : σ} {r : α × σ} :
    (pure a : StateT σ Option α) s = some r ↔ r = (a, s) := by
  show some (a, s) = some r ↔ _
  rw [Option.some.injEq, eq_comm]

/-- Every result of the computation at the state has the property. -/
def After (s : σ) (m : StateT σ Option α) (Q : α → σ → Prop) : Prop :=
  ∀ a s', m s = some (a, s') → Q a s'

namespace After

theorem mono {s : σ} {m : StateT σ Option α} {P Q : α → σ → Prop} (h : After s m P)
    (hPQ : ∀ a s', P a s' → Q a s') : After s m Q :=
  fun a s' hm => hPQ a s' (h a s' hm)

theorem and {s : σ} {m : StateT σ Option α} {P Q : α → σ → Prop} (h : After s m P)
    (hQ : ∀ a s', P a s' → m s = some (a, s') → Q a s') : After s m fun a s' => P a s' ∧ Q a s' :=
  fun a s' hm => ⟨h a s' hm, hQ a s' (h a s' hm) hm⟩

theorem pure {s : σ} {a : α} {Q : α → σ → Prop} (h : Q a s) :
    After s (Pure.pure a : StateT σ Option α) Q := by
  intro b s' hm
  cases pure_eq_some.1 hm
  exact h

theorem bind {s : σ} {m : StateT σ Option α} {f : α → StateT σ Option β} {P : α → σ → Prop}
    {Q : β → σ → Prop} (hm : After s m P) (hf : ∀ a s', P a s' → After s' (f a) Q) :
    After s (m >>= f) Q := by
  intro b s'' h
  obtain ⟨a, s', h1, h2⟩ := bind_eq_some.1 h
  exact hf a s' (hm a s' h1) b s'' h2

theorem map {s : σ} {m : StateT σ Option α} {f : α → β} {Q : β → σ → Prop}
    (h : After s m fun a s' => Q (f a) s') : After s (f <$> m) Q := by
  rw [map_eq_pure_bind]
  exact h.bind fun a s' hQ => .pure hQ

/-- Of computations in turn, each of which moves the state along the relation. -/
theorem mapM {R : σ → σ → Prop} (trans : ∀ {s₁ s₂ s₃}, R s₁ s₂ → R s₂ s₃ → R s₁ s₃)
    {P : α → β → σ → Prop} (up : ∀ {a b s s'}, R s s' → P a b s → P a b s')
    {f : α → StateT σ Option β} :
    ∀ (as : List α) {s : σ} (_ : R s s) (_ : ∀ s', R s s' → R s' s')
      (_ : ∀ a ∈ as, ∀ s', R s s' → After s' (f a) fun b s'' => R s' s'' ∧ P a b s''),
      After s (as.mapM f) fun bs s' => R s s' ∧ List.Forall₂ (fun a b => P a b s') as bs
  | [], s, hs, _, _ => by
    rw [List.mapM_nil]
    exact .pure ⟨hs, .nil⟩
  | a :: as, s, hs, hrefl, hf => by
    rw [List.mapM_cons]
    refine (hf a List.mem_cons_self s hs).bind fun b s₁ ⟨h₁, hb⟩ => ?_
    have hrest := mapM (R := R) (P := P) (f := f) trans up as (hrefl s₁ h₁) (fun s' h => hrefl s' (trans h₁ h))
      (fun x hx s' h => hf x (List.mem_cons_of_mem a hx) s' (trans h₁ h))
    exact hrest.bind fun bs s₂ ⟨h₂, hbs⟩ => .pure ⟨trans h₁ h₂, .cons (up h₂ hb) hbs⟩

end After

theorem length_of_mapM {f : α → StateT σ Option β} {as : List α} {bs : List β} {s s' : σ}
    (h : as.mapM f s = some (bs, s')) : bs.length = as.length := by
  have hall := After.mapM (R := fun _ _ => True) (P := fun _ _ _ => True) (f := f) (fun _ _ => trivial)
    (fun _ _ => trivial) as (s := s) trivial (fun _ _ => trivial)
    fun _ _ _ _ _ _ _ => ⟨trivial, trivial⟩
  exact (hall bs s' h).2.length_eq.symm

/-- The second computation gives every result that the first gives. -/
def CoveredBy (m m' : StateT σ Option α) : Prop := ∀ s r, m s = some r → m' s = some r

namespace CoveredBy

theorem refl (m : StateT σ Option α) : CoveredBy m m := fun _ _ h => h

theorem bind {m m' : StateT σ Option α} {f f' : α → StateT σ Option β} (hm : CoveredBy m m')
    (hf : ∀ a, CoveredBy (f a) (f' a)) : CoveredBy (m >>= f) (m' >>= f') := by
  intro s r h
  obtain ⟨a, s', h1, h2⟩ := bind_eq_some.1 h
  exact bind_eq_some.2 ⟨a, s', hm s _ h1, hf a s' r h2⟩

theorem map {m m' : StateT σ Option α} (f : α → β) (hm : CoveredBy m m') :
    CoveredBy (f <$> m) (f <$> m') := by
  rw [map_eq_pure_bind, map_eq_pure_bind]
  exact hm.bind fun _ => .refl _

theorem mapM {f f' : α → StateT σ Option β} :
    ∀ (as : List α) (_ : ∀ a, CoveredBy (f a) (f' a)), CoveredBy (as.mapM f) (as.mapM f')
  | [], _ => .refl _
  | a :: as, hf => by
    rw [List.mapM_cons, List.mapM_cons]
    exact (hf a).bind fun b => (mapM as hf).bind fun bs => .refl _

theorem of_le {m : Nat → StateT σ Option α} (h : ∀ fuel, CoveredBy (m fuel) (m (fuel + 1)))
    {fuel fuel' : Nat} (hle : fuel ≤ fuel') : CoveredBy (m fuel) (m fuel') := by
  induction hle with
  | refl => exact .refl _
  | step _ ih => exact fun s r hrun => h _ s r (ih s r hrun)

theorem agree {m : Nat → StateT σ Option α} (h : ∀ fuel, CoveredBy (m fuel) (m (fuel + 1)))
    {fuel fuel' : Nat} {s : σ} {r r' : α × σ} (hrun : m fuel s = some r)
    (hrun' : m fuel' s = some r') : r = r' := by
  have hmax := of_le h (Nat.le_max_left fuel fuel') s r hrun
  have hmax' := of_le h (Nat.le_max_right fuel fuel') s r' hrun'
  exact Option.some.inj (hmax.symm.trans hmax')

end CoveredBy

/-! ## Lists element by element

`mapM` relates the lists of arguments and answers one by one, so `List.Forall₂` is what
comes out of it; these are the facts on it that come up again and again. -/

theorem forall₂_mem_left {α β : Type} {R : α → β → Prop} {a : α} :
    ∀ {as : List α} {bs : List β}, List.Forall₂ R as bs → a ∈ as → ∃ b ∈ bs, R a b
  | _, _, .nil, ha => by cases ha
  | _, _, .cons h hs, ha => by
    rcases List.mem_cons.1 ha with rfl | ha
    · exact ⟨_, List.mem_cons_self, h⟩
    · obtain ⟨b, hb, hab⟩ := forall₂_mem_left hs ha
      exact ⟨b, List.mem_cons_of_mem _ hb, hab⟩

theorem forall₂_mem_right {α β : Type} {R : α → β → Prop} {as : List α} {bs : List β}
    (h : List.Forall₂ R as bs) {b : β} (hb : b ∈ bs) : ∃ a ∈ as, R a b :=
  forall₂_mem_left (R := flip R) h.flip hb

theorem forall₂_imp_mem {α β : Type} {S T : α → β → Prop} : ∀ {xs : List α} {ys : List β},
    List.Forall₂ S xs ys → (∀ x ∈ xs, ∀ y ∈ ys, S x y → T x y) → List.Forall₂ T xs ys
  | _, _, .nil, _ => .nil
  | _, _, .cons h hrest, himp =>
    .cons (himp _ List.mem_cons_self _ List.mem_cons_self h) (forall₂_imp_mem hrest
      fun x hx y hy => himp x (List.mem_cons_of_mem _ hx) y (List.mem_cons_of_mem _ hy))

theorem forall₂_set {α β : Type} {R : α → β → Prop} {a : α} {b : β} (hab : R a b) :
    ∀ {as : List α} {bs : List β} (_ : List.Forall₂ R as bs) (i : Nat),
      List.Forall₂ R (as.set i a) (bs.set i b)
  | _, _, .nil, _ => .nil
  | _, _, .cons _ hrest, 0 => .cons hab hrest
  | _, _, .cons h hrest, i + 1 => .cons h (forall₂_set hab hrest i)

theorem forall₂_of_left {α β γ : Type} {P : α → β → Prop} {Q : α → γ → Prop} {S : β → γ → Prop}
    {as : List α} {bs : List β} {cs : List γ} (hP : List.Forall₂ P as bs) (hQ : List.Forall₂ Q as cs)
    (hS : ∀ a b c, P a b → Q a c → S b c) : List.Forall₂ S bs cs := by
  induction hP generalizing cs with
  | nil =>
    cases hQ
    exact .nil
  | cons hab _ ih =>
    cases hQ with
    | cons hac hrest => exact .cons (hS _ _ _ hab hac) (ih hrest)

theorem forall₂_of_forall {α β : Type} {P : α → β → Prop} : ∀ {as : List α},
    (∀ a ∈ as, ∃ b, P a b) → ∃ bs, List.Forall₂ P as bs
  | [], _ => ⟨[], .nil⟩
  | a :: as, h => by
    obtain ⟨⟨b, hb⟩, hrest⟩ := List.forall_mem_cons.1 h
    obtain ⟨bs, hbs⟩ := forall₂_of_forall hrest
    exact ⟨b :: bs, .cons hb hbs⟩

theorem forall₂_exists {α β γ : Type} {R : α → β → Prop} {S : β → γ → Prop} {as : List α}
    {cs : List γ} (h : List.Forall₂ (fun a c => ∃ b, R a b ∧ S b c) as cs) :
    ∃ bs, List.Forall₂ R as bs ∧ List.Forall₂ S bs cs := by
  induction h with
  | nil => exact ⟨[], .nil, .nil⟩
  | cons hac _ ih =>
    obtain ⟨b, hab, hbc⟩ := hac
    obtain ⟨bs, hR, hS⟩ := ih
    exact ⟨b :: bs, .cons hab hR, .cons hbc hS⟩

theorem mem_zip_of_zip {α β γ : Type} : ∀ {as : List α} {bs : List β} {cs : List γ} {b : β} {c : γ},
    as.length = bs.length → (b, c) ∈ bs.zip cs → ∃ a, (a, b) ∈ as.zip bs ∧ (a, c) ∈ as.zip cs
  | [], _ :: _, _, _, _, hlen, _ => by cases hlen
  | _, [], _, _, _, _, h => by cases h
  | _, _ :: _, [], _, _, _, h => by cases h
  | a :: as, b :: bs, c :: cs, x, y, hlen, h => by
    rcases List.mem_cons.1 h with heq | h
    · cases heq
      exact ⟨a, List.mem_cons_self, List.mem_cons_self⟩
    · obtain ⟨a', hb, hc⟩ := mem_zip_of_zip (Nat.succ.inj hlen) h
      exact ⟨a', List.mem_cons_of_mem _ hb, List.mem_cons_of_mem _ hc⟩

end TypedJson
