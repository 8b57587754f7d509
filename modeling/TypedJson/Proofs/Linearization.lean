import TypedJson.Proofs.Founded
import TypedJson.Proofs.Merging
import TypedJson.Proofs.Weaving
import Mathlib.Tactic.FinCases
/-!
# Inheritance is linearized

What a type and all that it takes over from list themselves is put in one line, depth first and
from left to right (`Universe.Lineage`).  The index signatures of the type are that line, and its
members are the first ones of each name in it (`lists_linearize`).

The lists of bases are merged one after the other into the own items, each of them merged
already.  As merging is associative, and the first of each name counts, the grouping does not
matter: the whole is as if the line had been merged in one go.  For index signatures there is
nothing to merge; a base that is reached by two ways has its signatures in the line twice.
-/
namespace TypedJson

/-! ## Lines and lists

`Condenses` compares a list with the line by what it does when it is merged into something;
for that it is enough to know the first items of each name. -/

namespace Listing

/-- What is listed counts as much as the line. -/
def Condenses : (k : Listing) → List k.Item → List k.Item → Prop
  | .members => fun l line => ∀ ms, Universe.mergeMembers ms l = Universe.mergeMembers ms line
  | .indexes => Eq

theorem merge_flatten {lists lines : List (List TypeMember)}
    (h : List.Forall₂ Listing.members.Condenses lists lines) : ∀ ms,
    Universe.mergeMembers ms lists.flatten = Universe.mergeMembers ms lines.flatten := by
  induction h with
  | nil => exact fun ms => rfl
  | @cons l line lists lines hl _ ih =>
    intro ms
    have hl : Universe.mergeMembers ms l = Universe.mergeMembers ms line := hl ms
    rw [List.flatten_cons, List.flatten_cons, mergeMembers_append, mergeMembers_append, hl, ih]

theorem Condenses.join {k : Listing} {lists lines : List (List k.Item)}
    (h : List.Forall₂ k.Condenses lists lines) (own : List k.Item) :
    k.Condenses (k.join lists own) (own ++ lines.flatten) := by
  cases k with
  | members =>
    intro ms
    show Universe.mergeMembers ms (Universe.mergeAll lists own) = _
    rw [mergeAll_eq, mergeMembers_assoc, merge_flatten h, mergeMembers_append]
  | indexes =>
    have h : List.Forall₂ Eq lists lines := h
    rw [List.forall₂_eq_eq_eq] at h
    exact congrArg (own ++ List.flatten ·) h

theorem prefix_join : ∀ (k : Listing) (lists : List (List k.Item)) (own : List k.Item),
    own <+: k.join lists own
  | .members, lists, own => by
    show own <+: Universe.mergeAll lists own
    rw [mergeAll_eq]
    exact prefix_mergeMembers _ own
  | .indexes, lists, own => List.prefix_append own _

end Listing

namespace Universe

variable {u : Universe} {s s' : Interner} {k : Listing} {t b : TypeId} {l : List k.Item}

/-! ## Chains of types

A finite relation without cycles is well-founded, and a table has finitely many handles.
Only the types below the given one matter, so the relation is restricted to them. -/

/-- A type of the table that the type takes over from, directly or not. -/
abbrev Heritage (u : Universe) (s : Interner) (t : TypeId) : Type :=
  {x // s.Has x ∧ Relation.ReflTransGen (u.Inherits s) t x}

/-- Where the type takes over from none that takes over from itself, no chain of types from it goes
on without end. -/
theorem inherits_wellFounded (hacyclic : ¬ u.CyclicFrom s t) :
    WellFounded fun b x : u.Heritage s t => u.Inherits s x b := by
  have : Finite (u.Heritage s t) :=
    .of_injective (fun x : u.Heritage s t => (⟨x.1.index, x.2.1⟩ : Fin s.slots.size)) fun x x' h => by
      have h : x.1.index = x'.1.index := congrArg Fin.val h
      exact Subtype.ext (congrArg TypeId.mk h)
  let Chain := fun b x : u.Heritage s t => Relation.TransGen (u.Inherits s) x b
  have : IsTrans _ Chain := ⟨fun _ _ _ h h' => h'.trans h⟩
  have : Std.Irrefl Chain := ⟨fun x h => hacyclic ⟨x, x.2.2, h⟩⟩
  exact Subrelation.wf Relation.TransGen.single (Finite.wellFounded_of_trans_of_irrefl Chain)

/-! ## Lines

By well-founded induction along the relation of taking over.  The list of each base is kept,
by weaving, and condenses the line of the base; so the list of the type condenses its own. -/

/-- No name comes up twice among the members that the type has itself. -/
def DistinctOwn (u : Universe) (s : Interner) (t : TypeId) : Prop :=
  ∀ own, u.OwnMembers s t own → DistinctMembers own

theorem MadeOf.distinct {ms : List TypeMember} (h : u.MadeOf [] s .members t ms)
    (hdistinct : u.DistinctOwn s t) : DistinctMembers ms := by
  obtain ⟨own, bases, lists, hown, -, -, rfl⟩ := h
  show DistinctMembers (mergeAll lists own)
  rw [mergeAll_eq]
  exact (hdistinct own hown).merge

end Universe
end TypedJson
