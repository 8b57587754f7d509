import Mathlib.Logic.Relation
import Mathlib.Data.List.Nodup
import TypedJson.Basic
import TypedJson.Schema.Describe
/-!
# What a search finds

`search` enters no element twice, so it needs no more steps than there are elements.
Where no step leads out of the elements it therefore finds one with the property exactly if
one is reached (`search_iff`).  The invariant of the search is `Explored`: an element that
was looked at lacks the property, and what stands behind it was looked at as well, unless
it is still open.

The fuel counts open elements.  At each call the elements looked at so far are distinct and
all below the size of the graph, and the fuel is more than what is left of them
(`search_answers`); so a search cannot run out before it has seen everything, and the case
without fuel is contradictory rather than a wrong answer.

Both uses of `search` in the program walk the union branches of a node: for `null` and for
an object key that a key type admits.  A closed table is a graph of this kind, and the last
section reads `search_iff` for it.
-/
namespace TypedJson

theorem length_le_of_nodup_of_lt {α : Type} (index : α → Nat) (inj : Function.Injective index)
    (l : List α) (n : Nat) (nodup : l.Nodup) (lt : ∀ x ∈ l, index x < n) : l.length ≤ n := by
  have hsub : l.map index ⊆ List.range n := by
    intro i hi
    obtain ⟨x, hx, rfl⟩ := List.mem_map.1 hi
    exact List.mem_range.2 (lt x hx)
  have hlen := (nodup.map inj).length_le_of_subset hsub
  rwa [List.length_map, List.length_range] at hlen

namespace Search

/-- A graph of finitely many elements, known by their numbers. -/
structure Graph (α : Type) where
  next : α → List α
  index : α → Nat
  injective : Function.Injective index
  size : Nat
  closed : ∀ a, index a < size → ∀ b ∈ next a, index b < size

variable {α : Type}

/-- The second element is the first one or stands behind it. -/
def Graph.Reaches (g : Graph α) : α → α → Prop := Relation.ReflTransGen fun a b => b ∈ g.next a

/-- From `seen` to `seen'`, every element that was added lacks the property and has what
stands behind it in `seen'`. -/
structure Explored (g : Graph α) (p : α → Bool) (seen seen' : List α) : Prop where
  subset : seen ⊆ seen'
  nodup : seen'.Nodup
  lt : ∀ x ∈ seen', g.index x < g.size
  added : ∀ x ∈ seen', x ∈ seen ∨ (p x = false ∧ g.next x ⊆ seen')

namespace Explored

variable {g : Graph α} {p : α → Bool} {a b c : List α}

theorem refl (nodup : a.Nodup) (lt : ∀ x ∈ a, g.index x < g.size) : Explored g p a a :=
  ⟨fun _ h => h, nodup, lt, fun _ h => .inl h⟩

theorem trans (h₁ : Explored g p a b) (h₂ : Explored g p b c) : Explored g p a c where
  subset := fun _ h => h₂.subset (h₁.subset h)
  nodup := h₂.nodup
  lt := h₂.lt
  added := by
    intro x hx
    rcases h₂.added x hx with hb | hc
    · rcases h₁.added x hb with ha | ⟨hp, hsub⟩
      · exact .inl ha
      · exact .inr ⟨hp, fun y hy => h₂.subset (hsub hy)⟩
    · exact .inr hc

theorem length_le (h : Explored g p a b) : b.length ≤ g.size :=
  length_le_of_nodup_of_lt g.index g.injective b g.size h.nodup h.lt

theorem close {x : α} (h : Explored g p (x :: a) b) (hp : p x = false) (hnext : g.next x ⊆ b) :
    Explored g p a b where
  subset := fun _ hx => h.subset (List.mem_cons_of_mem _ hx)
  nodup := h.nodup
  lt := h.lt
  added := by
    intro y hy
    rcases h.added y hy with hc | hc
    · rcases List.mem_cons.1 hc with rfl | ha
      · exact .inr ⟨hp, hnext⟩
      · exact .inl ha
    · exact .inr hc

end Explored

/-! ## The answer for a list of elements

The search of an element goes through its successors with a fold, handing on what has been
seen.  So the induction needs a statement about lists: either some element of the list leads
to one with the property, or all of them have been seen and nothing was found on the way.  A
single element is the list of one. -/

/-- What a search from `seen` has established when it answers. -/
def Answers (g : Graph α) (p : α → Bool) (starts seen : List α) (answer : Bool × List α) : Prop :=
  if answer.1 then ∃ a ∈ starts, ∃ b, g.Reaches a b ∧ p b = true
  else Explored g p seen answer.2 ∧ starts ⊆ answer.2

variable {g : Graph α} {p : α → Bool}

theorem answers_cons {x : α} {xs seen mid : List α} {answer : Bool × List α}
    (h₁ : Answers g p [x] seen (false, mid)) (h₂ : Answers g p xs mid answer) :
    Answers g p (x :: xs) seen answer := by
  obtain ⟨hmid, hx⟩ := h₁
  unfold Answers at h₂ ⊢
  split at h₂
  · rename_i hfound
    obtain ⟨a, ha, hb⟩ := h₂
    rw [if_pos hfound]
    exact ⟨a, List.mem_cons_of_mem _ ha, hb⟩
  · rename_i hfound
    rw [if_neg hfound]
    refine ⟨hmid.trans h₂.1, ?_⟩
    intro y hy
    rcases List.mem_cons.1 hy with rfl | hy
    · exact h₂.1.subset (hx (List.mem_singleton_self _))
    · exact h₂.2 hy

variable [DecidableEq α]

theorem foldl_search_found (next : α → List α) (fuel : Nat) (seen : List α) : ∀ xs : List α,
    xs.foldl (fun (found, seen) b => if found then (found, seen) else search next p fuel b seen)
      (true, seen) = (true, seen)
  | [] => rfl
  | _ :: xs => foldl_search_found next fuel seen xs

/-- One element after the other: the answer for the list follows from that for each. -/
theorem foldl_search_answers {fuel : Nat}
    (ih : ∀ x seen, g.index x < g.size → seen.Nodup → (∀ y ∈ seen, g.index y < g.size) →
      g.size + 1 ≤ fuel + seen.length → Answers g p [x] seen (search g.next p fuel x seen)) :
    ∀ xs seen, (∀ x ∈ xs, g.index x < g.size) → seen.Nodup → (∀ y ∈ seen, g.index y < g.size) →
      g.size + 1 ≤ fuel + seen.length →
      Answers g p xs seen (xs.foldl
        (fun (found, seen) b => if found then (found, seen) else search g.next p fuel b seen)
        (false, seen))
  | [], seen, _, nodup, lt, _ => ⟨.refl nodup lt, List.nil_subset _⟩
  | x :: xs, seen, hxs, nodup, lt, enough => by
    have hx := ih x seen (hxs x List.mem_cons_self) nodup lt enough
    simp only [List.foldl_cons, Bool.false_eq_true, if_false]
    cases hs : search g.next p fuel x seen with
    | mk found mid =>
      rw [hs] at hx
      cases found with
      | true =>
        rw [foldl_search_found]
        obtain ⟨a, ha, hb⟩ := hx
        exact ⟨a, List.mem_cons.2 (.inl (List.mem_singleton.1 ha)), hb⟩
      | false =>
        have hmid := hx.1
        have hlen : seen.length ≤ mid.length := nodup.length_le_of_subset hmid.subset
        exact answers_cons hx (foldl_search_answers ih xs mid
          (fun y hy => hxs y (List.mem_cons_of_mem _ hy)) hmid.nodup hmid.lt (by omega))

theorem search_answers (g : Graph α) (p : α → Bool) : ∀ fuel x seen, g.index x < g.size →
    seen.Nodup → (∀ y ∈ seen, g.index y < g.size) → g.size + 1 ≤ fuel + seen.length →
    Answers g p [x] seen (search g.next p fuel x seen)
  | 0, x, seen, _, nodup, lt, enough => by
    -- all elements are looked at already, and the fuel counts one more
    have := (Explored.refl (p := p) nodup lt).length_le
    omega
  | fuel + 1, x, seen, hx, nodup, lt, enough => by
    rw [search]
    split
    · rename_i hseen
      refine ⟨.refl nodup lt, ?_⟩
      intro y hy
      rw [List.mem_singleton.1 hy]
      exact List.contains_iff_mem.1 hseen
    · rename_i hseen
      have hnot : x ∉ seen := fun h => hseen (List.contains_iff_mem.2 h)
      split
      · rename_i hp
        exact ⟨x, List.mem_singleton_self _, x, .refl, hp⟩
      · rename_i hp
        have hp : p x = false := Bool.eq_false_iff.2 hp
        have hfold := foldl_search_answers (search_answers g p fuel) (g.next x) (x :: seen)
          (g.closed x hx) (List.nodup_cons.2 ⟨hnot, nodup⟩)
          (by
            intro y hy
            rcases List.mem_cons.1 hy with rfl | hy
            · exact hx
            · exact lt y hy)
          (by rw [List.length_cons]; omega)
        generalize (g.next x).foldl
          (fun (found, seen) b => if found then (found, seen) else search g.next p fuel b seen)
          (false, x :: seen) = answer at hfold ⊢
        unfold Answers at hfold ⊢
        split at hfold
        · rename_i hfound
          obtain ⟨a, ha, b, hab, hb⟩ := hfold
          rw [if_pos hfound]
          exact ⟨x, List.mem_singleton_self _, b, .head ha hab, hb⟩
        · rename_i hfound
          rw [if_neg hfound]
          refine ⟨hfold.1.close hp hfold.2, ?_⟩
          intro y hy
          rw [List.mem_singleton.1 hy]
          exact hfold.1.subset List.mem_cons_self

/-- **A search finds what is there**: it succeeds exactly if an element with the property is
reached. -/
theorem search_iff (g : Graph α) (p : α → Bool) {x : α} (hx : g.index x < g.size) :
    (search g.next p (g.size + 1) x []).1 = true ↔ ∃ b, g.Reaches x b ∧ p b = true := by
  have hans : Answers g p [x] [] (search g.next p (g.size + 1) x []) :=
    search_answers g p _ _ _ hx List.nodup_nil (by simp) (by simp)
  cases hs : search g.next p (g.size + 1) x [] with
  | mk found seen =>
    rw [hs] at hans
    cases found with
    | true =>
      obtain ⟨a, ha, hb⟩ := hans
      rw [List.mem_singleton.1 ha] at hb
      simpa using hb
    | false =>
      obtain ⟨hex, hstart⟩ := hans
      have hdone : ∀ y ∈ seen, p y = false ∧ g.next y ⊆ seen := fun y hy =>
        (hex.added y hy).resolve_left List.not_mem_nil
      have hall : ∀ b, g.Reaches x b → b ∈ seen := by
        intro b hb
        induction hb with
        | refl => exact hstart (List.mem_singleton_self _)
        | tail _ hbc ih => exact (hdone _ ih).2 hbc
      constructor
      · intro h
        cases h
      · rintro ⟨b, hb, hpb⟩
        rw [(hdone b (hall b hb)).1] at hpb
        cases hpb

end Search

/-! ## Union branches of a table of nodes

A table is closed if its nodes refer to nodes of the table only.  That is asked of element
types, properties and signatures too, although only branches are walked here: a check goes
from a node to each of them, and has to stay in the table to be a check at all. -/

theorem NodeId.index_injective : Function.Injective NodeId.index := by
  rintro ⟨i⟩ ⟨j⟩ h
  exact congrArg NodeId.mk h

theorem NodeId.forall_lt_iff {n : Nat} {p : NodeId → Prop} :
    (∀ id : NodeId, id.index < n → p id) ↔ ∀ i < n, p ⟨i⟩ :=
  ⟨fun h i hi => h ⟨i⟩ hi, fun h id hid => h id.index hid⟩

namespace NodeTable

instance (t : NodeTable) : Decidable t.Closed :=
  decidable_of_iff _ NodeId.forall_lt_iff.symm

/-- The second node is the first one or stands behind it in union branches. -/
def Reaches (t : NodeTable) : NodeId → NodeId → Prop :=
  Relation.ReflTransGen fun a b => b ∈ (t.node a).unionOf

theorem Closed.branch {t : NodeTable} (h : t.Closed) {id b : NodeId} (hid : id.index < t.size)
    (hb : b ∈ (t.node id).unionOf) : b.index < t.size :=
  h id hid b (by simp [SchemaNode.references, hb])

theorem Closed.item {t : NodeTable} (h : t.Closed) {id item : NodeId} (hid : id.index < t.size)
    (hi : (t.node id).arrayOf = some item) : item.index < t.size :=
  h id hid item (by simp [SchemaNode.references, hi])

theorem Closed.property {t : NodeTable} (h : t.Closed) {id : NodeId} (hid : id.index < t.size)
    {p : Property} (hp : p ∈ (t.node id).properties) : p.type.index < t.size := by
  refine h id hid p.type ?_
  simp only [SchemaNode.references, List.mem_append, List.mem_map]
  exact .inl (.inr ⟨p, hp, rfl⟩)

theorem Closed.signature {t : NodeTable} (h : t.Closed) {id : NodeId} (hid : id.index < t.size)
    {x : IndexSignature} (hx : x ∈ (t.node id).indexes) :
    x.keyType.index < t.size ∧ x.valueType.index < t.size := by
  have hmem : ∀ r ∈ [x.keyType, x.valueType], r ∈ (t.node id).references := by
    intro r hr
    simp only [SchemaNode.references, List.mem_append, List.mem_flatMap]
    exact .inr ⟨x, hx, hr⟩
  exact ⟨h id hid _ (hmem _ (by simp)), h id hid _ (hmem _ (by simp))⟩

theorem Closed.reaches {t : NodeTable} (h : t.Closed) {id b : NodeId} (hid : id.index < t.size)
    (hb : t.Reaches id b) : b.index < t.size := by
  induction hb with
  | refl => exact hid
  | tail _ hbc ih => exact h.branch ih hbc

/-- The nodes with their union branches. -/
def branchGraph (t : NodeTable) (closed : t.Closed) : Search.Graph NodeId where
  next := fun a => (t.node a).unionOf
  index := NodeId.index
  injective := NodeId.index_injective
  size := t.size
  closed := fun _ ha _ hb => closed.branch ha hb

theorem anyBranch_iff {t : NodeTable} {p : SchemaNode → Bool} (closed : t.Closed) {id : NodeId}
    (hid : id.index < t.size) :
    t.anyBranch p id = true ↔ ∃ b, t.Reaches id b ∧ p (t.node b) = true :=
  Search.search_iff (t.branchGraph closed) (fun a => p (t.node a)) hid

theorem isNullable_iff {t : NodeTable} (closed : t.Closed) {id : NodeId} (hid : id.index < t.size) :
    t.isNullable id = true ↔ ∃ b, t.Reaches id b ∧ (t.node b).isNullable = true :=
  anyBranch_iff closed hid

end NodeTable
end TypedJson
