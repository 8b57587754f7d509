import TypedJson.Proofs.Listing
/-!
# Types that are alike

Two types, of one table or of two, are alike (`Universe.Like`) if they are built in the same
way: what one is made of is alike to what the other is made of, all the way down.

The relation is the largest one that is closed under looking one step down, given by some
relation that is.  So to show two types alike it is enough to name such a relation, and there
is no induction over types, which may be circular.  The branches of a union are compared as
sets, everything else in order.
-/
namespace TypedJson

/-- Each of the one list is related to one of the other, and the other way round. -/
def Setwise {α β : Type} (R : α → β → Prop) (as : List α) (bs : List β) : Prop :=
  (∀ a ∈ as, ∃ b ∈ bs, R a b) ∧ ∀ b ∈ bs, ∃ a ∈ as, R a b

namespace Setwise

variable {α β : Type} {R S : α → β → Prop} {as : List α} {bs : List β}

theorem mono (h : Setwise R as bs) (hRS : ∀ a b, R a b → S a b) : Setwise S as bs :=
  ⟨fun a ha => (h.1 a ha).imp fun b hb => hb.imp_right (hRS a b),
    fun b hb => (h.2 b hb).imp fun a ha => ha.imp_right (hRS a b)⟩

theorem flip (h : Setwise R as bs) : Setwise (flip R) bs as := ⟨h.2, h.1⟩

theorem of_forall₂ (h : List.Forall₂ R as bs) : Setwise R as bs :=
  ⟨fun _ ha => forall₂_mem_left h ha, fun _ hb => forall₂_mem_right h hb⟩

end Setwise

/-! `Alike` is monotone in the relation and turns round with it; that is what makes `Like`
symmetric and closed under growth of either table. -/

/-- The scopes have the same parameters, for related types. -/
def ScopesAlike (R : TypeId → TypeId → Prop) (scope scope' : Scope) : Prop :=
  scope.unit = scope'.unit ∧
    List.Forall₂ (fun p p' => p.1 = p'.1 ∧ R p.2 p'.2) scope.params scope'.params

/-- The types are built in the same way of related types. -/
inductive Alike (R : TypeId → TypeId → Prop) : TypeData → TypeData → Prop
  | plain {f : Form} (hf : (TypeData.form f).parts = []) : Alike R (.form f) (.form f)
  | array {x x' : TypeId} (h : R x x') : Alike R (.form (.array x)) (.form (.array x'))
  | reference {symbol : Symbol} {args args' : List TypeId} (h : List.Forall₂ R args args') :
    Alike R (.form (.reference ⟨symbol, args⟩)) (.form (.reference ⟨symbol, args'⟩))
  | union {d d' : TypeData} {bs bs' : List TypeId} (hd : d.union? = some bs)
    (hd' : d'.union? = some bs') (h : Setwise R bs bs') : Alike R d d'
  | literal {origin origin' : Option Instance} {members : List Member} {indexes : List Index}
    {scope scope' : Scope} (ho : origin.isSome = origin'.isSome) (h : ScopesAlike R scope scope') :
    Alike R (.object origin (.literal members indexes scope))
      (.object origin' (.literal members indexes scope'))
  | intersection {origin origin' : Option Instance} {parts parts' : List TypeId}
    (ho : origin.isSome = origin'.isSome) (h : List.Forall₂ R parts parts') :
    Alike R (.object origin (.intersection parts)) (.object origin' (.intersection parts'))
  | record {origin origin' : Option Instance} {key value key' value' : TypeId}
    (ho : origin.isSome = origin'.isSome) (hkey : R key key') (hvalue : R value value') :
    Alike R (.object origin (.record key value)) (.object origin' (.record key' value'))

variable {R S : TypeId → TypeId → Prop}

namespace ScopesAlike

variable {scope scope' : Scope}

theorem mono (h : ScopesAlike R scope scope') (hRS : ∀ x x', R x x' → S x x') :
    ScopesAlike S scope scope' :=
  ⟨h.1, h.2.imp fun _ _ hp => hp.imp_right (hRS _ _)⟩

theorem flip (h : ScopesAlike R scope scope') : ScopesAlike (flip R) scope' scope :=
  ⟨h.1.symm, h.2.flip.imp fun _ _ hp => hp.imp_left Eq.symm⟩

theorem names (h : ScopesAlike R scope scope') :
    scope.params.map (·.1) = scope'.params.map (·.1) := by
  rw [← List.forall₂_eq_eq_eq, List.forall₂_map_left_iff, List.forall₂_map_right_iff]
  exact h.2.imp fun _ _ hp => hp.1

theorem types (h : ScopesAlike R scope scope') :
    List.Forall₂ R (scope.params.map (·.2)) (scope'.params.map (·.2)) := by
  rw [List.forall₂_map_left_iff, List.forall₂_map_right_iff]
  exact h.2.imp fun _ _ hp => hp.2

theorem zip {unit : Nat} {args args' : List TypeId} (h : List.Forall₂ R args args') :
    ∀ params : List String, ScopesAlike R ⟨unit, params.zip args⟩ ⟨unit, params.zip args'⟩
  | [] => ⟨rfl, .nil⟩
  | p :: params => by
    refine ⟨rfl, ?_⟩
    cases h with
    | nil => exact .nil
    | cons h hs =>
      have hrest : ScopesAlike R ⟨unit, _⟩ ⟨unit, _⟩ := zip hs params
      exact .cons ⟨rfl, h⟩ hrest.2

theorem of_zip (hunit : scope.unit = scope'.unit)
    (hnames : scope.params.map (·.1) = scope'.params.map (·.1))
    (htypes : ∀ {x x'}, (x, x') ∈ (scope.params.map (·.2)).zip (scope'.params.map (·.2)) → R x x') :
    ScopesAlike R scope scope' := by
  have hlen : scope.params.length = scope'.params.length := by
    simpa using congrArg List.length hnames
  refine ⟨hunit, List.forall₂_iff_zip.2 ⟨hlen, fun {p p'} hp => ⟨?_, htypes ?_⟩⟩⟩
  · have hname : (p.1, p'.1) ∈ (scope.params.map (·.1)).zip (scope'.params.map (·.1)) := by
      rw [List.zip_map]
      exact List.mem_map_of_mem (f := Prod.map _ _) hp
    rw [hnames] at hname
    exact (List.forall₂_iff_zip.1 (List.forall₂_same.2 fun _ _ => rfl)).2 hname
  · rw [List.zip_map]
    exact List.mem_map_of_mem (f := Prod.map _ _) hp

end ScopesAlike

namespace Alike

variable {d d' : TypeData}

/-! Being built alike is monotone in the relation of the parts, and turns around with it.  So a
relation can be shown for all types at once, or enlarged while it is shown. -/

theorem mono (h : Alike R d d') (hRS : ∀ x x', R x x' → S x x') : Alike S d d' := by
  cases h with
  | plain hf => exact .plain hf
  | array h => exact .array (hRS _ _ h)
  | reference h => exact .reference (h.imp hRS)
  | union hd hd' h => exact .union hd hd' (h.mono hRS)
  | literal ho h => exact .literal ho (h.mono hRS)
  | intersection ho h => exact .intersection ho (h.imp hRS)
  | record ho hkey hvalue => exact .record ho (hRS _ _ hkey) (hRS _ _ hvalue)

theorem flip (h : Alike R d d') : Alike (flip R) d' d := by
  cases h with
  | plain hf => exact .plain hf
  | array h => exact .array h
  | reference h => exact .reference h.flip
  | union hd hd' h => exact .union hd' hd h.flip
  | literal ho h => exact .literal ho.symm h.flip
  | intersection ho h => exact .intersection ho.symm h.flip
  | record ho hkey hvalue => exact .record ho.symm hkey hvalue

theorem ne_reserved (h : Alike R d d') : d ≠ .reserved := by
  rintro rfl
  cases h with
  | union hd => cases hd

theorem refl (hR : ∀ x ∈ d.parts, R x x) (hd : d ≠ .reserved) : Alike R d d := by
  have hall : ∀ {xs : List TypeId}, xs ⊆ d.parts → List.Forall₂ R xs xs := fun hxs =>
    List.forall₂_same.2 fun x hx => hR x (hxs hx)
  have hset : ∀ {xs : List TypeId}, xs ⊆ d.parts → Setwise R xs xs := fun hxs => .of_forall₂ (hall hxs)
  cases d with
  | form f =>
    cases f with
    | array x => exact .array (hR x List.mem_cons_self)
    | reference inst => exact .reference (hall (List.Subset.refl _))
    | union branches => exact .union rfl rfl (hset (List.Subset.refl _))
    | intrinsic | literal | unresolved | param => exact .plain rfl
  | namedUnion origin branches => exact .union rfl rfl (hset (List.subset_append_right _ _))
  | object origin shape =>
    have hshape : shape.parts ⊆ (TypeData.object origin shape).parts := by
      cases origin with
      | none => exact List.Subset.refl _
      | some inst => exact List.subset_append_right _ _
    cases shape with
    | literal members indexes scope =>
      refine .literal rfl ⟨rfl, List.forall₂_same.2 fun p hp => ⟨rfl, hR _ (hshape ?_)⟩⟩
      exact List.mem_map_of_mem hp
    | intersection parts => exact .intersection rfl (hall hshape)
    | record key value =>
      exact .record rfl (hR key (hshape List.mem_cons_self))
        (hR value (hshape (List.mem_cons_of_mem key List.mem_cons_self)))
  | reserved => exact absurd rfl hd

end Alike

namespace Universe

variable {s s' : Interner}

/-- The type of the first table and that of the second are alike. -/
def Like (s s' : Interner) (t t' : TypeId) : Prop :=
  ∃ R : TypeId → TypeId → Prop,
    (∀ x x', R x x' → Alike R (s.data x) (s'.data x')) ∧ R t t'

namespace Like

variable {t t' : TypeId}

theorem alike (h : Like s s' t t') : Alike (Like s s') (s.data t) (s'.data t') := by
  obtain ⟨R, hR, ht⟩ := h
  exact (hR t t' ht).mono fun x x' hx => ⟨R, hR, hx⟩

theorem symm (h : Like s s' t t') : Like s' s t' t := by
  obtain ⟨R, hR, ht⟩ := h
  exact ⟨flip R, fun x x' hx => (hR x' x hx).flip, ht⟩

theorem extends_both {s₁ s₁' : Interner} (h : Like s s' t t') (hs : s.Extends s₁)
    (hs' : s'.Extends s₁') : Like s₁ s₁' t t' := by
  obtain ⟨R, hR, ht⟩ := h
  refine ⟨R, fun x x' hx => ?_, ht⟩
  have hdata := hR x x' hx
  rw [hs.data x hdata.ne_reserved, hs'.data x' hdata.flip.ne_reserved]
  exact hdata

theorem has (h : Like s s' t t') : s.Has t := Interner.has_of_data_ne h.alike.ne_reserved

end Like

end Universe
end TypedJson
