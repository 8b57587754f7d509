import Mathlib.Data.List.Perm.Basic
import TypedJson.Schema.Building
/-!
# Equality of keys

Two lists of branches are matched off one by one, each branch taking the first equal one
of the other list.  That this does not depend on the order (`arePermuted_iff`) takes the
equality of the branches to be an equivalence, and the other way round; so both are
proved along the structure of the key.  A table of keys is searched by this equality, and
so answers alike for equal keys (`KeyTable.get?_of_same`).

The difficulty is that matching off is greedy: a branch takes the first equal one and never
gives it back.  If equality were not transitive on the branches, a bad choice could spoil a
good matching.  `Rectangular` is what is needed to repair any choice by an exchange, and an
equivalence has it.  But that equality is an equivalence on unions rests on the multiset law
for their branches, so the law is proved for lists of keys which are `Exact` already, and
the recursion over the key supplies that for the smaller ones.
-/
namespace TypedJson
namespace TypeKey

theorem takeOut_eq_some {α : Type} {p : α → Bool} : ∀ {l rest : List α},
    takeOut p l = some rest → ∃ a, p a = true ∧ l.Perm (a :: rest)
  | [], _, h => by cases h
  | a :: l, rest, h => by
    unfold takeOut at h
    by_cases hp : p a = true
    · rw [if_pos hp] at h
      cases h
      exact ⟨a, hp, .refl _⟩
    · rw [if_neg hp] at h
      obtain ⟨rest', hrest, rfl⟩ := Option.map_eq_some_iff.1 h
      obtain ⟨b, hb, hperm⟩ := takeOut_eq_some hrest
      exact ⟨b, hb, (hperm.cons a).trans (.swap b a rest')⟩

theorem takeOut_eq_none {α : Type} {p : α → Bool} : ∀ {l : List α},
    takeOut p l = none → ∀ a ∈ l, p a = false
  | [], _, _, ha => by cases ha
  | b :: l, h, a, ha => by
    unfold takeOut at h
    by_cases hp : p b = true
    · rw [if_pos hp] at h
      cases h
    · rw [if_neg hp] at h
      rcases List.mem_cons.1 ha with rfl | ha
      · exact Bool.eq_false_iff.2 hp
      · exact takeOut_eq_none (Option.map_eq_none_iff.1 h) a ha

/-- The keys are equal. -/
abbrev Same (a b : TypeKey) : Prop := isEqual a b = true

theorem areEqual_iff : ∀ xs ys : List TypeKey, areEqual xs ys = true ↔ List.Forall₂ Same xs ys
  | [], [] => by simp [areEqual]
  | [], _ :: _ => by simp [areEqual]
  | _ :: _, [] => by simp [areEqual]
  | x :: xs, y :: ys => by
    rw [List.forall₂_cons, ← areEqual_iff xs ys]
    simp [areEqual]

theorem forall₂_of_arePermuted : ∀ {xs ys : List TypeKey}, arePermuted xs ys = true →
    ∃ zs, List.Forall₂ Same xs zs ∧ zs.Perm ys
  | [], ys, h => by
    have hys : ys = [] := by simpa [arePermuted] using h
    subst hys
    exact ⟨[], .nil, .refl _⟩
  | x :: xs, ys, h => by
    unfold arePermuted at h
    split at h
    · rename_i rest htake
      obtain ⟨y, hy, hperm⟩ := takeOut_eq_some htake
      obtain ⟨zs, hzs, hrest⟩ := forall₂_of_arePermuted h
      exact ⟨y :: zs, .cons hy hzs, (hrest.cons y).trans hperm.symm⟩
    · cases h

/-- Where two keys of `xs` equal one key of `ys`, they equal the same keys of it. -/
def Rectangular (xs ys : List TypeKey) : Prop :=
  ∀ x ∈ xs, ∀ x' ∈ xs, ∀ y ∈ ys, ∀ z ∈ ys, Same x' y → Same x y → Same x z → Same x' z

theorem Rectangular.tail {x : TypeKey} {xs ys rest : List TypeKey}
    (h : Rectangular (x :: xs) ys) (hrest : ∀ y ∈ rest, y ∈ ys) : Rectangular xs rest :=
  fun a ha b hb y hy z hz => h a (List.mem_cons_of_mem x ha) b (List.mem_cons_of_mem x hb)
    y (hrest y hy) z (hrest z hz)

/-- Of the keys on offer `y` is taken instead of `z`: whoever had `y` gets `z`. -/
theorem forall₂_exchange {y z : TypeKey} : ∀ {xs zs : List TypeKey}, List.Forall₂ Same xs zs →
    y ∈ z :: zs → (∀ x ∈ xs, Same x y → Same x z) →
    ∃ zs', List.Forall₂ Same xs zs' ∧ (y :: zs').Perm (z :: zs)
  | [], [], .nil, hmem, _ => by
    rw [List.mem_singleton.1 hmem]
    exact ⟨[], .nil, .refl _⟩
  | x :: xs, z' :: zs, .cons hx hzs, hmem, hyz => by
    rcases List.mem_cons.1 hmem with rfl | hmem
    · exact ⟨z' :: zs, .cons hx hzs, .refl _⟩
    rcases List.mem_cons.1 hmem with rfl | hmem
    · exact ⟨z :: zs, .cons (hyz x List.mem_cons_self hx) hzs, .swap z y zs⟩
    · obtain ⟨zs', hzs', hperm⟩ := forall₂_exchange hzs (List.mem_cons_of_mem z hmem)
        fun x' hx' => hyz x' (List.mem_cons_of_mem x hx')
      refine ⟨z' :: zs', .cons hx hzs', ?_⟩
      exact (List.Perm.swap z' y zs').trans ((hperm.cons z').trans (.swap z z' zs))

theorem arePermuted_of_forall₂ : ∀ {xs ys zs : List TypeKey}, Rectangular xs ys →
    List.Forall₂ Same xs zs → zs.Perm ys → arePermuted xs ys = true
  | [], ys, _, _, .nil, hperm => by
    have hys : ys = [] := hperm.symm.eq_nil
    subst hys
    rfl
  | x :: xs, ys, z :: zs, hrect, .cons hxz hzs, hperm => by
    unfold arePermuted
    cases htake : takeOut (fun y => isEqual x y) ys with
    | none =>
      have hz := takeOut_eq_none htake z (hperm.mem_iff.1 List.mem_cons_self)
      rw [hxz] at hz
      cases hz
    | some rest =>
      obtain ⟨y, hxy, hrest⟩ := takeOut_eq_some htake
      have hy : y ∈ z :: zs := hperm.mem_iff.2 (hrest.mem_iff.2 List.mem_cons_self)
      have hys : ∀ y' ∈ y :: rest, y' ∈ ys := fun y' hy' => hrest.mem_iff.2 hy'
      have hz : z ∈ ys := hperm.mem_iff.1 List.mem_cons_self
      obtain ⟨zs', hzs', hperm'⟩ := forall₂_exchange hzs hy fun x' hx' hx'y =>
        hrect x List.mem_cons_self x' (List.mem_cons_of_mem x hx') y (hys y List.mem_cons_self)
          z hz hx'y hxy hxz
      exact arePermuted_of_forall₂ (hrect.tail fun y' hy' => hys y' (List.mem_cons_of_mem y hy'))
        hzs' ((hperm'.trans hperm).trans hrest).cons_inv

/-- Equality with this key goes both ways and hands on. -/
structure Exact (a : TypeKey) : Prop where
  symm : ∀ b, Same a b ↔ Same b a
  trans : ∀ b c, Same a b → Same b c → Same a c

/-! Matching branches one by one is right for a relation that is rectangular: any two that match
a third match the same ones.  It suffices that equality is exact on the branches of one side,
so the induction on one key is enough. -/

theorem rectangular_of_exact {xs ys : List TypeKey} (h : ∀ x ∈ xs, Exact x) :
    Rectangular xs ys := by
  intro x hx x' hx' y hy z hz hx'y hxy hxz
  have hyx := ((h x hx).symm y).1 hxy
  exact (h x' hx').trans x z ((h x' hx').trans y x hx'y hyx) hxz

theorem rectangular_of_exact_right {xs ys : List TypeKey} (h : ∀ y ∈ ys, Exact y) :
    Rectangular xs ys := by
  intro x hx x' hx' y hy z hz hx'y hxy hxz
  have hzy := (h z hz).trans x y (((h z hz).symm x).2 hxz) hxy
  exact ((h z hz).symm x').1 ((h z hz).trans y x' hzy (((h y hy).symm x').2 hx'y))

theorem forall₂_symm {xs ys : List TypeKey} (h : ∀ x ∈ xs, Exact x) :
    List.Forall₂ Same xs ys ↔ List.Forall₂ Same ys xs := by
  constructor
  · intro hxy
    have hboth := (List.forall₂_and_left xs ys).2 ⟨h, hxy⟩
    exact (hboth.imp fun x y ⟨hx, hsame⟩ => (hx.symm y).1 hsame).flip
  · intro hyx
    have hboth := (List.forall₂_and_left (R := flip Same) xs ys).2 ⟨h, hyx.flip⟩
    exact hboth.imp fun x y ⟨hx, hsame⟩ => (hx.symm y).2 hsame

theorem forall₂_trans : ∀ {xs ys zs : List TypeKey}, (∀ x ∈ xs, Exact x) →
    List.Forall₂ Same xs ys → List.Forall₂ Same ys zs → List.Forall₂ Same xs zs
  | _, _, _, _, .nil, .nil => .nil
  | x :: _, y :: _, z :: _, h, .cons hxy hxs, .cons hyz hys =>
    .cons ((h x List.mem_cons_self).trans y z hxy hyz)
      (forall₂_trans (fun x' hx' => h x' (List.mem_cons_of_mem x hx')) hxs hys)

theorem arePermuted_symm {xs ys : List TypeKey} (h : ∀ x ∈ xs, Exact x) :
    arePermuted xs ys = true ↔ arePermuted ys xs = true := by
  constructor
  · intro hxy
    obtain ⟨zs, hzs, hperm⟩ := forall₂_of_arePermuted hxy
    obtain ⟨ws, hws, hperm'⟩ := List.perm_comp_forall₂ hperm.symm ((forall₂_symm h).1 hzs)
    -- only the branches of the first key are known to be exact
    exact arePermuted_of_forall₂ (rectangular_of_exact_right h) hws hperm'
  · intro hyx
    obtain ⟨ws, hws, hperm⟩ := forall₂_of_arePermuted hyx
    have hexact : ∀ w ∈ ws, Exact w := fun w hw => h w (hperm.mem_iff.1 hw)
    obtain ⟨zs, hzs, hperm'⟩ := List.perm_comp_forall₂ hperm.symm ((forall₂_symm hexact).2 hws)
    exact arePermuted_of_forall₂ (rectangular_of_exact h) hzs hperm'

theorem arePermuted_trans {xs ys zs : List TypeKey} (h : ∀ x ∈ xs, Exact x)
    (hxy : arePermuted xs ys = true) (hyz : arePermuted ys zs = true) :
    arePermuted xs zs = true := by
  obtain ⟨ys', hys', hperm⟩ := forall₂_of_arePermuted hxy
  obtain ⟨zs', hzs', hperm'⟩ := forall₂_of_arePermuted hyz
  obtain ⟨ws, hws, hperm''⟩ := List.perm_comp_forall₂ hperm hzs'
  exact arePermuted_of_forall₂ (rectangular_of_exact h) (forall₂_trans h hys' hws)
    (hperm''.trans hperm')

theorem exact_generic {base : Symbol} {args : List TypeKey} (h : ∀ x ∈ args, Exact x) :
    Exact (.generic base args) where
  symm := by
    intro b
    cases b with
    | generic base' args' =>
      simp only [Same, isEqual, Bool.and_eq_true, beq_iff_eq, areEqual_iff]
      rw [forall₂_symm h, eq_comm]
    | _ => simp [Same, isEqual]
  trans := by
    intro b c hb hc
    cases b with
    | generic base' args' =>
      cases c with
      | generic base'' args'' =>
        simp only [Same, isEqual, Bool.and_eq_true, beq_iff_eq, areEqual_iff] at hb hc ⊢
        exact ⟨hb.1.trans hc.1, forall₂_trans h hb.2 hc.2⟩
      | _ => simp [Same, isEqual] at hc
    | _ => simp [Same, isEqual] at hb

theorem exact_union {branches : List TypeKey} (h : ∀ x ∈ branches, Exact x) :
    Exact (.union branches) where
  symm := by
    intro b
    cases b with
    | union branches' =>
      simp only [Same, isEqual]
      exact arePermuted_symm h
    | _ => simp [Same, isEqual]
  trans := by
    intro b c hb hc
    cases b with
    | union branches' =>
      cases c with
      | union branches'' =>
        simp only [Same, isEqual] at hb hc ⊢
        exact arePermuted_trans h hb hc
      | _ => simp [Same, isEqual] at hc
    | _ => simp [Same, isEqual] at hb

theorem sizeOf_argument_lt {base : Symbol} {args : List TypeKey} {x : TypeKey} (h : x ∈ args) :
    sizeOf x < sizeOf (TypeKey.generic base args) := by
  have h1 := List.sizeOf_lt_of_mem h
  have h2 : sizeOf (TypeKey.generic base args) = 1 + sizeOf base + sizeOf args := by simp
  omega

theorem sizeOf_branch_lt {branches : List TypeKey} {x : TypeKey} (h : x ∈ branches) :
    sizeOf x < sizeOf (TypeKey.union branches) := by
  have h1 := List.sizeOf_lt_of_mem h
  have h2 : sizeOf (TypeKey.union branches) = 1 + sizeOf branches := by simp
  omega

theorem exact_of_eq {a : TypeKey} (h : ∀ b, (Same a b → b = a) ∧ (Same b a → b = a)) :
    Exact a where
  symm := by
    intro b
    constructor
    · intro hab
      obtain rfl := (h b).1 hab
      exact hab
    · intro hba
      obtain rfl := (h b).2 hba
      exact hba
  trans := by
    intro b c hb hc
    rw [(h b).1 hb] at hc
    exact hc

/-- **Equality of keys is symmetric and transitive.** -/
theorem exact : ∀ a : TypeKey, Exact a
  | .null => exact_of_eq fun b => by cases b <;> simp [Same, isEqual]
  | .undefined => exact_of_eq fun b => by cases b <;> simp [Same, isEqual]
  | .literal value => exact_of_eq fun b => by cases b <;> simp +contextual [Same, isEqual]
  | .intrinsic i => exact_of_eq fun b => by cases b <;> simp +contextual [Same, isEqual]
  | .symbol id => exact_of_eq fun b => by cases b <;> simp +contextual [Same, isEqual]
  | .generic base args => exact_generic fun x hx => exact x
  | .union branches => exact_union fun x hx => exact x
  | .recursive origin => exact_of_eq fun b => by cases b <;> simp +contextual [Same, isEqual]
  | .opaqueText text => exact_of_eq fun b => by cases b <;> simp +contextual [Same, isEqual]
termination_by a => sizeOf a
decreasing_by
  · exact sizeOf_argument_lt hx
  · exact sizeOf_branch_lt hx

theorem forall₂_refl : ∀ {xs : List TypeKey}, (∀ x ∈ xs, Same x x) → List.Forall₂ Same xs xs
  | [], _ => .nil
  | x :: _, h => .cons (h x List.mem_cons_self)
      (forall₂_refl fun x' hx' => h x' (List.mem_cons_of_mem x hx'))

theorem same_refl : ∀ a : TypeKey, Same a a
  | .null => rfl
  | .undefined => rfl
  | .literal value => by simp [Same, isEqual]
  | .intrinsic i => by simp [Same, isEqual]
  | .symbol id => by simp [Same, isEqual]
  | .generic base args => by
    simp only [Same, isEqual, Bool.and_eq_true, beq_iff_eq, areEqual_iff, true_and]
    exact forall₂_refl fun x hx => same_refl x
  | .union branches => by
    simp only [Same, isEqual]
    exact arePermuted_of_forall₂ (rectangular_of_exact fun x _ => exact x)
      (forall₂_refl fun x hx => same_refl x) (.refl _)
  | .recursive origin => by simp [Same, isEqual]
  | .opaqueText text => by simp [Same, isEqual]
termination_by a => sizeOf a
decreasing_by
  · exact sizeOf_argument_lt hx
  · exact sizeOf_branch_lt hx

theorem Same.symm {a b : TypeKey} (h : Same a b) : Same b a := ((exact a).symm b).1 h

theorem Same.trans {a b c : TypeKey} (h : Same a b) (h' : Same b c) : Same a c :=
  (exact a).trans b c h h'

/-- **The branches of a union count as a multiset.** -/
theorem same_union_iff {xs ys : List TypeKey} :
    Same (.union xs) (.union ys) ↔ ∃ zs, List.Forall₂ Same xs zs ∧ zs.Perm ys := by
  simp only [Same, isEqual]
  constructor
  · exact forall₂_of_arePermuted
  · rintro ⟨zs, hzs, hperm⟩
    exact arePermuted_of_forall₂ (rectangular_of_exact fun x _ => exact x) hzs hperm

end TypeKey

namespace KeyTable

theorem get?_of_same {key key' : TypeKey} (h : TypeKey.Same key key') (t : KeyTable) :
    t.get? key = t.get? key' := by
  unfold get?
  congr 2
  funext entry
  exact Bool.eq_iff_iff.2 ⟨fun hkey => TypeKey.Same.trans hkey h,
    fun hkey' => TypeKey.Same.trans hkey' h.symm⟩

/-- The table in which these keys were set, one after the other. -/
def ofSets (sets : List (TypeKey × NodeId)) : KeyTable :=
  sets.foldl (fun t entry => t.insert entry.1 entry.2) .empty

end KeyTable

namespace TypeKey

/-- **Equality of keys is an equivalence under which the branches of a union are a multiset, and
every table answers alike for equal keys.** -/
theorem isEqual_equivalence_multiset :
    (∀ a, isEqual a a = true) ∧
    (∀ a b, isEqual a b = true → isEqual b a = true) ∧
    (∀ a b c, isEqual a b = true → isEqual b c = true → isEqual a c = true) ∧
    (∀ xs ys, isEqual (.union xs) (.union ys) = true ↔
      ∃ zs, zs.Perm ys ∧ List.Forall₂ (fun x z => isEqual x z = true) xs zs) ∧
    ∀ sets a b, isEqual a b = true →
      (KeyTable.ofSets sets).get? a = (KeyTable.ofSets sets).get? b := by
  refine ⟨same_refl, fun a b hab => Same.symm hab, fun a b c hab hbc => Same.trans hab hbc,
    fun xs ys => ?_, fun sets a b hab => KeyTable.get?_of_same hab _⟩
  refine same_union_iff.trans ?_
  exact ⟨fun ⟨zs, hzs, hperm⟩ => ⟨zs, hperm, hzs⟩, fun ⟨zs, hperm, hzs⟩ => ⟨zs, hzs, hperm⟩⟩

/-- A union within a generic type within a union, in three orders. -/
theorem isEqual_equivalence_multiset_nested :
    let wrap := fun branches => generic (.builtin .record) [union branches]
    let a := union [wrap [.null, .undefined, .intrinsic .string], .null]
    let b := union [.null, wrap [.intrinsic .string, .null, .undefined]]
    let c := union [wrap [.undefined, .intrinsic .string, .null], .null]
    isEqual a b = true ∧ isEqual b c = true ∧ isEqual b a = true ∧ isEqual a c = true ∧
    (KeyTable.ofSets [(.null, ⟨0⟩), (b, ⟨1⟩), (c, ⟨2⟩)]).get? a =
      (KeyTable.ofSets [(.null, ⟨0⟩), (b, ⟨1⟩), (c, ⟨2⟩)]).get? c := by
  intro wrap a b c
  obtain ⟨_, hsymm, htrans, _, hget⟩ := isEqual_equivalence_multiset
  have hab : isEqual a b = true := by decide +kernel
  have hbc : isEqual b c = true := by decide +kernel
  have hac := htrans a b c hab hbc
  exact ⟨hab, hbc, hsymm a b hab, hac, hget _ a c hac⟩

end TypeKey
end TypedJson
