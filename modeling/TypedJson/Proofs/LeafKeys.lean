import TypedJson.Proofs.Identity
/-!
# What keys are made of

The key of a type is made along the type: of the keys of the branches and arguments, down to
unions that are met again within themselves (`Keyed`).  A leaf is no union, so its key shows what
it is: an intrinsic type, a literal, a symbol with or without arguments, or else its text
(`LeafKey`).  Types of one key have leaves of one key (`exists_keyed_leaf`).

`Keyed` is the specification of the key: an inductive relation without fuel, in which the
list of opened unions is an index.  It is what proofs about keys are by induction on.  The
recursion that computes the key satisfies it as soon as the table is settled, that is, once
everything the key takes has been resolved (`keyed_of_run`).
-/
namespace TypedJson

theorem Interner.literal?_eq_none_of_intrinsic {s : Interner} {t : TypeId} {i : Intrinsic}
    (h : s.intrinsic? t = some i) : s.literal? t = none := by
  rw [literal?, TypeData.intrinsic?_eq_some_iff.1 h]
  rfl

/-- The key of the intrinsic type. -/
def Intrinsic.key : Intrinsic → TypeKey
  | .null => .null
  | .undefined => .undefined
  | i => .intrinsic i

theorem Intrinsic.key_of_ne {i : Intrinsic} (hnull : i ≠ .null) (hundefined : i ≠ .undefined) :
    i.key = .intrinsic i := by
  cases i with
  | null => exact absurd rfl hnull
  | undefined => exact absurd rfl hundefined
  | _ => rfl

/-- What the key of a type that is no union says about it. -/
inductive LeafKey (s : Interner) (t : TypeId) : TypeKey → Prop
  | null (h : s.intrinsic? t = some .null) : LeafKey s t .null
  | undefined (h : s.intrinsic? t = some .undefined) : LeafKey s t .undefined
  | intrinsic {i : Intrinsic} (h : s.intrinsic? t = some i) (hnull : i ≠ .null)
      (hundefined : i ≠ .undefined) : LeafKey s t (.intrinsic i)
  | literal {value : Literal} (h : s.literal? t = some value) : LeafKey s t (.literal value)
  | symbol {id : Symbol} (hi : s.intrinsic? t = none) (hl : s.literal? t = none)
      (h : s.symbol? t = some id) : LeafKey s t (.symbol id)
  | generic {id : Symbol} {args : List TypeKey} (hi : s.intrinsic? t = none)
      (hl : s.literal? t = none) (h : s.symbol? t = some id) : LeafKey s t (.generic id args)
  | text {text : String} (hi : s.intrinsic? t = none) (hl : s.literal? t = none)
      (h : s.symbol? t = none) : LeafKey s t (.opaqueText text)

namespace LeafKey

variable {s : Interner} {t : TypeId} {key : TypeKey}

theorem not_same_union {keys : List TypeKey} (hkey : LeafKey s t key) :
    ¬ TypeKey.Same key (.union keys) := by
  intro hsame
  cases hkey with
  | _ => cases hsame

theorem isNull_of_same (hkey : LeafKey s t key) (hsame : TypeKey.Same key .null) :
    s.isNull t = true := by
  cases hkey with
  | null h =>
    unfold Interner.isNull
    rw [h]
    rfl
  | _ => cases hsame

theorem literal_of_same {value : Literal} (hkey : LeafKey s t key)
    (hsame : TypeKey.Same key (.literal value)) : s.literal? t = some value := by
  cases hkey with
  | literal h =>
    simp only [TypeKey.Same, TypeKey.isEqual, beq_iff_eq] at hsame
    rw [h, hsame]
  | _ => cases hsame

theorem eq_intrinsic {i : Intrinsic} (hkey : LeafKey s t key) (hi : s.intrinsic? t = some i) :
    key = i.key := by
  cases hkey with
  | null h => rw [hi] at h; cases h; rfl
  | undefined h => rw [hi] at h; cases h; rfl
  | intrinsic h hnull hundefined =>
    rw [hi] at h
    cases h
    exact (Intrinsic.key_of_ne hnull hundefined).symm
  | literal h => rw [Interner.literal?_eq_none_of_intrinsic hi] at h; cases h
  | symbol h => rw [hi] at h; cases h
  | generic h => rw [hi] at h; cases h
  | text h => rw [hi] at h; cases h

theorem eq_null (hkey : LeafKey s t key) (h : s.isNull t = true) : key = .null :=
  hkey.eq_intrinsic (i := .null) (beq_iff_eq.1 h)

theorem eq_literal {value : Literal} (hkey : LeafKey s t key) (h : s.literal? t = some value) :
    key = .literal value := by
  cases hkey with
  | literal h' => rw [h] at h'; cases h'; rfl
  | null h' => rw [Interner.literal?_eq_none_of_intrinsic h'] at h; cases h
  | undefined h' => rw [Interner.literal?_eq_none_of_intrinsic h'] at h; cases h
  | intrinsic h' => rw [Interner.literal?_eq_none_of_intrinsic h'] at h; cases h
  | symbol _ h' => rw [h'] at h; cases h
  | generic _ h' => rw [h'] at h; cases h
  | text _ h' => rw [h'] at h; cases h

end LeafKey

/-- The key is that of the type within the unions that are opened. -/
inductive Keyed (s : Interner) : List TypeId → TypeId → TypeKey → Prop
  | null {opened : List TypeId} {t : TypeId} (h : s.intrinsic? t = some .null) :
    Keyed s opened t .null
  | undefined {opened : List TypeId} {t : TypeId} (h : s.intrinsic? t = some .undefined) :
    Keyed s opened t .undefined
  | intrinsic {opened : List TypeId} {t : TypeId} {i : Intrinsic} (h : s.intrinsic? t = some i)
    (hnull : i ≠ .null) (hundefined : i ≠ .undefined) : Keyed s opened t (.intrinsic i)
  | literal {opened : List TypeId} {t : TypeId} {value : Literal} (h : s.literal? t = some value) :
    Keyed s opened t (.literal value)
  | recursive {opened : List TypeId} {t : TypeId} {origin : Symbol}
    (hunion : (s.union? t).isSome = true) (ht : t ∈ opened) (hsymbol : s.symbol? t = some origin) :
    Keyed s opened t (.recursive origin)
  | cut {opened : List TypeId} {t : TypeId} {text : String} (hunion : (s.union? t).isSome = true)
    (ht : t ∈ opened) (hsymbol : s.symbol? t = none) : Keyed s opened t (.opaqueText text)
  | union {opened : List TypeId} {t : TypeId} {branches : List TypeId} {keys : List TypeKey}
    (hunion : s.union? t = some branches) (ht : t ∉ opened) (hlen : branches.length = keys.length)
    (hkeys : ∀ {b key}, (b, key) ∈ branches.zip keys → Keyed s (t :: opened) b key) :
    Keyed s opened t (.union keys)
  | symbol {opened : List TypeId} {t : TypeId} {id : Symbol} (hi : s.intrinsic? t = none)
    (hl : s.literal? t = none) (hunion : s.union? t = none) (hsymbol : s.symbol? t = some id)
    (hargs : s.arguments t = []) : Keyed s opened t (.symbol id)
  | generic {opened : List TypeId} {t : TypeId} {id : Symbol} {keys : List TypeKey}
    (hi : s.intrinsic? t = none) (hl : s.literal? t = none) (hunion : s.union? t = none)
    (hsymbol : s.symbol? t = some id) (hlen : (s.arguments t).length = keys.length)
    (hkeys : ∀ {x key}, (x, key) ∈ (s.arguments t).zip keys → Keyed s opened x key) :
    Keyed s opened t (.generic id keys)
  | text {opened : List TypeId} {t : TypeId} {text : String} (hi : s.intrinsic? t = none)
    (hl : s.literal? t = none) (hunion : s.union? t = none) (hsymbol : s.symbol? t = none)
    (htext : ∀ name, s.data t = .form (.unresolved name) → text = name) :
    Keyed s opened t (.opaqueText text)

theorem Keyed.leafKey {s : Interner} {opened : List TypeId} {t : TypeId} {key : TypeKey}
    (h : Keyed s opened t key) (hunion : s.union? t = none) : LeafKey s t key := by
  cases h with
  | null h => exact .null h
  | undefined h => exact .undefined h
  | intrinsic h hnull hundefined => exact .intrinsic h hnull hundefined
  | literal h => exact .literal h
  | recursive h => rw [hunion] at h; cases h
  | cut h => rw [hunion] at h; cases h
  | union h => rw [hunion] at h; cases h
  | symbol hi hl _ hsymbol => exact .symbol hi hl hsymbol
  | generic hi hl _ hsymbol => exact .generic hi hl hsymbol
  | text hi hl _ hsymbol => exact .text hi hl hsymbol

/-- An aliased union that is met again within itself is known by its alias. -/
theorem Keyed.eq_recursive {s : Interner} {opened : List TypeId} {t : TypeId} {key : TypeKey}
    {inst : Instance} {bs : List TypeId} (h : Keyed s opened t key)
    (hdata : s.data t = .namedUnion inst bs) (ht : t ∈ opened) : key = .recursive inst.symbol := by
  have hunion : s.union? t = some bs := by rw [Interner.union?, hdata]; rfl
  have hsymbol : s.symbol? t = some inst.symbol := by rw [Interner.symbol?, hdata]; rfl
  have hi : s.intrinsic? t = none := by rw [Interner.intrinsic?, hdata]; rfl
  cases h with
  | null h => rw [hi] at h; cases h
  | undefined h => rw [hi] at h; cases h
  | intrinsic h => rw [hi] at h; cases h
  | literal h => rw [Interner.literal?, hdata] at h; cases h
  | recursive _ _ hsymbol' =>
    rw [hsymbol] at hsymbol'
    cases hsymbol'
    rfl
  | cut _ _ hnone => rw [hsymbol] at hnone; cases hnone
  | union _ hnot => exact absurd ht hnot
  | symbol _ _ hnone => rw [hunion] at hnone; cases hnone
  | generic _ _ hnone => rw [hunion] at hnone; cases hnone
  | text _ _ hnone => rw [hunion] at hnone; cases hnone

namespace Universe

variable {u : Universe} {s : Interner}

/-- **A key is made along the type**, once nothing that it takes is new to the table. -/
theorem keyed_of_run (hs : u.Sound s) : ∀ (fuel : Nat) {opened : List TypeId} {t : TypeId}
    {key : TypeKey}, s.Has t → u.keyWithin fuel opened t s = some (key, s) → Keyed s opened t key
  | 0, _, _, _, _, hrun => by cases hrun
  | fuel + 1, opened, t, key, ht, hrun => by
    -- the keys of branches and arguments take no new types either
    have hall : ∀ {opened ts : List TypeId} {keys}, (∀ x ∈ ts, x ∈ (s.data t).parts) →
        ts.mapM (u.keyWithin fuel opened) s = some (keys, s) → ts.length = keys.length ∧
          ∀ {x key}, (x, key) ∈ ts.zip keys → Keyed s opened x key := by
      intro opened ts keys hts hrun
      have hruns := Settles.of_mapM hs (fun x hx s' h' => keyWithin_settles u fuel opened x s'
        h'.sound (h'.has (hs.parts t x (hts x hx)))) hrun
      refine ⟨hruns.length_eq, fun hx => ?_⟩
      exact keyed_of_run hs fuel (hs.parts t _ (hts _ (List.of_mem_zip hx).1))
        ((List.forall₂_iff_zip.1 hruns).2 hx)
    suffices hafter : After s (u.keyWithin (fuel + 1) opened t)
        fun key s' => s' = s → Keyed s opened t key from hafter key s hrun rfl
    unfold keyWithin
    refine After.bind (P := fun data s' => s = s' ∧ data = s.data t)
      (fun _ _ h => by cases h; exact ⟨rfl, rfl⟩) fun data s₁ hread => ?_
    obtain ⟨rfl, rfl⟩ := hread
    split
    · rename_i h
      exact .pure fun _ => .null h
    · rename_i h
      exact .pure fun _ => .undefined h
    · rename_i i hnull hundefined h
      exact .pure fun _ => .intrinsic h hnull hundefined
    · rename_i value _ h
      exact .pure fun _ => .literal h
    · rename_i hi hl
      split
      · rename_i branches symbol hunion
        have hsome : (s.union? t).isSome = true := by rw [Interner.union?, hunion]; rfl
        by_cases hopened : opened.contains t = true
        · rw [if_pos hopened]
          have hmem := List.contains_iff_mem.1 hopened
          split
          · exact .pure fun _ => .recursive hsome hmem ‹_›
          · exact After.bind (P := fun _ _ => True) (fun _ _ _ => trivial)
              fun text s₁ _ => .pure fun _ => .cut hsome hmem ‹_›
        · rw [if_neg hopened]
          refine After.bind (fun keys s₁ hkeys => hkeys) fun keys s₁ hkeys => .pure ?_
          rintro rfl
          obtain ⟨hlen, hkeys⟩ := hall (fun b hb => TypeData.union?_parts hunion hb) hkeys
          exact .union hunion (fun hmem => hopened (List.contains_iff_mem.2 hmem)) hlen hkeys
      · rename_i hunion hsymbol
        refine After.bind (fun text s₁ htext => htext) fun text s₁ htext => .pure fun _ => ?_
        refine .text hi hl hunion hsymbol fun name hdata => ?_
        cases fuel with
        | zero => cases htext
        | succ fuel =>
          rw [display, Session.query_bind, hdata] at htext
          cases htext
          rfl
      · rename_i id hunion hsymbol
        split
        · rename_i hargs
          exact .pure fun _ => .symbol hi hl hunion hsymbol hargs
        · refine After.bind (fun keys s₁ hkeys => hkeys) fun keys s₁ hkeys => .pure ?_
          rintro rfl
          obtain ⟨hlen, hkeys⟩ := hall (fun x hx => TypeData.arguments_parts _ hx) hkeys
          exact .generic hi hl hunion hsymbol hlen hkeys

/-! The comparison of two keys by their leaves: the leaves of a type are what its branches come
to, and a key that is no union is that of a single leaf. -/

/-- The key of a type is made of the keys of its leaves. -/
theorem keyAt_keyed (hs : u.Sound s) {t : TypeId} (ht : s.Has t) {key : TypeKey}
    (h : u.KeyAt s t key s) :
    (u.leaves s t = [] ∧ key = .null) ∨
    (∃ r, u.leaves s t = [r] ∧ Keyed s [] r key) ∨
    ∃ keys, 2 ≤ (u.leaves s t).length ∧ key = .union keys ∧
      List.Forall₂ (Keyed s []) (u.leaves s t) keys := by
  obtain ⟨fuel, hrun⟩ := h
  have hhas := leaves_has (u := u) hs ht
  generalize u.leaves s t = rs at hrun hhas ⊢
  match rs with
  | [] =>
    cases hrun
    exact .inl ⟨rfl, rfl⟩
  | [r] => exact .inr (.inl ⟨r, rfl, keyed_of_run hs fuel (hhas r List.mem_cons_self) hrun⟩)
  | r :: r' :: rest =>
    obtain ⟨keys, s₁, hkeys, hpure⟩ := bind_eq_some.1 hrun
    cases hpure
    have hruns := Settles.of_mapM hs (fun x hx s' h' =>
      keyWithin_settles u fuel [] x s' h'.sound (h'.has (hhas x hx))) hkeys
    refine .inr (.inr ⟨keys, by simp, rfl, ?_⟩)
    refine List.forall₂_iff_zip.2 ⟨hruns.length_eq, fun hx => ?_⟩
    exact keyed_of_run hs fuel (hhas _ (List.of_mem_zip hx).1)
      ((List.forall₂_iff_zip.1 hruns).2 hx)

theorem keyAt_cases (hs : u.Sound s) {t : TypeId} (ht : s.Has t) {key : TypeKey}
    (h : u.KeyAt s t key s) :
    (u.leaves s t = [] ∧ key = .null) ∨
    (∃ r, u.leaves s t = [r] ∧ LeafKey s r key) ∨
    ∃ keys, 2 ≤ (u.leaves s t).length ∧ key = .union keys ∧
      List.Forall₂ (LeafKey s) (u.leaves s t) keys := by
  have hleaf : ∀ r ∈ u.leaves s t, ∀ k, Keyed s [] r k → LeafKey s r k := fun r hr k hk =>
    hk.leafKey (union?_of_mem_leaves hs ht hr)
  rcases keyAt_keyed hs ht h with hnil | ⟨r, hr, hkey⟩ | ⟨keys, hlen, heq, hkeys⟩
  · exact .inl hnil
  · exact .inr (.inl ⟨r, hr, hleaf r (by rw [hr]; exact List.mem_cons_self) key hkey⟩)
  · refine .inr (.inr ⟨keys, hlen, heq, List.forall₂_iff_zip.2 ⟨hkeys.length_eq, fun hx => ?_⟩⟩)
    exact hleaf _ (List.of_mem_zip hx).1 _ ((List.forall₂_iff_zip.1 hkeys).2 hx)

/-- **Types of one key have leaves of one key.** -/
theorem exists_keyed_leaf (hs : u.Sound s) {t t' : TypeId} (ht : s.Has t) (ht' : s.Has t')
    (hne : u.leaves s t' ≠ []) {key key' : TypeKey} (hkey : u.KeyAt s t key s)
    (hkey' : u.KeyAt s t' key' s) (hsame : TypeKey.Same key key') :
    ∀ r ∈ u.leaves s t, ∃ r' ∈ u.leaves s t', ∃ k k',
      Keyed s [] r k ∧ Keyed s [] r' k' ∧ TypeKey.Same k k' := by
  have hleaf : ∀ {t}, s.Has t → ∀ {r k}, u.leaves s t = [r] → Keyed s [] r k → LeafKey s r k :=
    fun ht _ _ hr hk => hk.leafKey (union?_of_mem_leaves hs ht (by rw [hr]; exact List.mem_cons_self))
  intro r hr
  rcases keyAt_keyed hs ht hkey with ⟨hnil, -⟩ | ⟨x, hx, hkeyed⟩ | ⟨keys, -, rfl, hkeys⟩
  · rw [hnil] at hr
    cases hr
  · rcases keyAt_keyed hs ht' hkey' with ⟨hnil, -⟩ | ⟨x', hx', hkeyed'⟩ | ⟨keys', -, rfl, -⟩
    · exact absurd hnil hne
    · rw [hx] at hr
      obtain rfl := List.mem_singleton.1 hr
      exact ⟨x', by rw [hx']; exact List.mem_cons_self, key, key', hkeyed, hkeyed', hsame⟩
    · exact absurd hsame (hleaf ht hx hkeyed).not_same_union
  · rcases keyAt_keyed hs ht' hkey' with ⟨hnil, -⟩ | ⟨x', hx', hkeyed'⟩ | ⟨keys', -, rfl, hkeys'⟩
    · exact absurd hnil hne
    · exact absurd hsame.symm (hleaf ht' hx' hkeyed').not_same_union
    · obtain ⟨zs, hzs, hperm⟩ := TypeKey.same_union_iff.1 hsame
      obtain ⟨k, hk, hkeyed⟩ := forall₂_mem_left hkeys hr
      obtain ⟨k', hk', hsame'⟩ := forall₂_mem_left hzs hk
      obtain ⟨r', hr', hkeyed'⟩ := forall₂_mem_right hkeys' (hperm.mem_iff.1 hk')
      exact ⟨r', hr', k, k', hkeyed, hkeyed', hsame'⟩

end Universe
end TypedJson
