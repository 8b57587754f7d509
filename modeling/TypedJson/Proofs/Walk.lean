import TypedJson.Proofs.Search
/-!
# The walk behind a search

`Search.Walks` says how a search goes through a graph, with no bound on its steps: an element that
was looked at is passed over, one with the property ends the walk, and what stands behind any other
is walked before its neighbours.  A walk has one end at most (`Walks.unique`), and on a finite graph
`search` comes to it within its fuel, whatever circles the graph has (`search_walks`).  So the walk
through the union branches of a closed table comes to an end, and it ends in a nullable node exactly
if one is reached (`NodeTable.isNullable_decides_reachable`).

The relation has a rule for each thing that can happen to the first element of the list.
Being inductive it is finite by itself; what the fuel has to do with it is stated
separately, in the lemma that the program comes to the end of the walk.
-/
namespace TypedJson

namespace Search

variable {α : Type}

/-- The walk over the elements in turn, from those already looked at (`seen`), ends with those
looked at by then; `found` says whether an element with the property ended it. -/
inductive Walks (next : α → List α) (p : α → Bool) : List α → List α → Bool → List α → Prop
  | done {seen : List α} : Walks next p [] seen false seen
  | again {a : α} {rest seen seen' : List α} {found : Bool} : a ∈ seen →
      Walks next p rest seen found seen' → Walks next p (a :: rest) seen found seen'
  | here {a : α} {rest seen : List α} : a ∉ seen → p a = true →
      Walks next p (a :: rest) seen true (a :: seen)
  | behind {a : α} {rest seen seen' : List α} : a ∉ seen → p a = false →
      Walks next p (next a) (a :: seen) true seen' → Walks next p (a :: rest) seen true seen'
  | past {a : α} {rest seen mid seen' : List α} {found : Bool} : a ∉ seen → p a = false →
      Walks next p (next a) (a :: seen) false mid → Walks next p rest mid found seen' →
      Walks next p (a :: rest) seen found seen'

namespace Walks

variable {next : α → List α} {p : α → Bool} {xs ys seen mid seen' seen'' : List α}
  {found found' : Bool}

/-- **A walk has one end.** -/
theorem unique (h : Walks next p xs seen found seen') (h' : Walks next p xs seen found' seen'') :
    found = found' ∧ seen' = seen'' := by
  induction h generalizing found' seen'' with
  | done =>
    cases h'
    exact ⟨rfl, rfl⟩
  | again hseen _ ih =>
    cases h' with
    | again _ hrest => exact ih hrest
    | here hnew _ | behind hnew _ _ | past hnew _ _ _ => exact absurd hseen hnew
  | here hnew hp =>
    cases h' with
    | again hseen _ => exact absurd hseen hnew
    | here _ _ => exact ⟨rfl, rfl⟩
    | behind _ hnot _ | past _ hnot _ _ => rw [hp] at hnot; cases hnot
  | behind hnew hnot _ ih =>
    cases h' with
    | again hseen _ => exact absurd hseen hnew
    | here _ hp => rw [hnot] at hp; cases hp
    | behind _ _ hinner => exact ih hinner
    | past _ _ hinner _ => exact absurd (ih hinner).1 (by decide)
  | past hnew hnot _ _ ih ihrest =>
    cases h' with
    | again hseen _ => exact absurd hseen hnew
    | here _ hp => rw [hnot] at hp; cases hp
    | behind _ _ hinner => exact absurd (ih hinner).1 (by decide)
    | past _ _ hinner hrest =>
      obtain ⟨-, rfl⟩ := ih hinner
      exact ihrest hrest

theorem stop (h : Walks next p xs seen true seen') (ys : List α) :
    Walks next p (xs ++ ys) seen true seen' := by
  generalize hfound : true = found at h
  induction h with
  | done => cases hfound
  | again hseen _ ih => exact .again hseen (ih hfound)
  | here hnew hp => exact .here hnew hp
  | behind hnew hnot hinner _ => exact .behind hnew hnot hinner
  | past hnew hnot hinner _ _ ih => exact .past hnew hnot hinner (ih hfound)

theorem append (h : Walks next p xs seen false mid) (h' : Walks next p ys mid found seen') :
    Walks next p (xs ++ ys) seen found seen' := by
  generalize hfound : false = none at h
  induction h with
  | done => exact h'
  | again hseen _ ih => exact .again hseen (ih h' hfound)
  | here _ _ | behind _ _ _ _ => cases hfound
  | past hnew hnot hinner _ _ ih => exact .past hnew hnot hinner (ih h' hfound)

end Walks

/-- Distinct elements of the graph. -/
structure Graph.Distinct (g : Graph α) (seen : List α) : Prop where
  nodup : seen.Nodup
  lt : ∀ x ∈ seen, g.index x < g.size

variable {g : Graph α} {p : α → Bool}

theorem Graph.Distinct.nil : g.Distinct [] := ⟨List.nodup_nil, fun _ h => absurd h List.not_mem_nil⟩

theorem Graph.Distinct.cons {a : α} {seen : List α} (h : g.Distinct seen) (hnew : a ∉ seen)
    (ha : g.index a < g.size) : g.Distinct (a :: seen) :=
  ⟨List.nodup_cons.2 ⟨hnew, h.nodup⟩, List.forall_mem_cons.2 ⟨ha, h.lt⟩⟩

theorem Graph.Distinct.length_le {seen : List α} (h : g.Distinct seen) : seen.length ≤ g.size :=
  length_le_of_nodup_of_lt g.index g.injective seen g.size h.nodup h.lt

theorem Walks.keeps {xs seen seen' : List α} {found : Bool}
    (h : Walks g.next p xs seen found seen') (hxs : ∀ x ∈ xs, g.index x < g.size)
    (hseen : g.Distinct seen) : seen ⊆ seen' ∧ g.Distinct seen' := by
  induction h with
  | done => exact ⟨List.Subset.refl _, hseen⟩
  | again _ _ ih => exact ih (List.forall_mem_cons.1 hxs).2 hseen
  | here hnew _ =>
    exact ⟨List.subset_cons_self _ _, hseen.cons hnew (List.forall_mem_cons.1 hxs).1⟩
  | behind hnew _ _ ih =>
    have ha := (List.forall_mem_cons.1 hxs).1
    obtain ⟨hsub, hend⟩ := ih (g.closed _ ha) (hseen.cons hnew ha)
    exact ⟨List.Subset.trans (List.subset_cons_self _ _) hsub, hend⟩
  | past hnew _ _ _ ih ihrest =>
    obtain ⟨ha, hrest⟩ := List.forall_mem_cons.1 hxs
    obtain ⟨hsub, hmid⟩ := ih (g.closed _ ha) (hseen.cons hnew ha)
    obtain ⟨hsub', hend⟩ := ihrest hrest hmid
    exact ⟨List.Subset.trans (List.subset_cons_self _ _) (List.Subset.trans hsub hsub'), hend⟩

variable [DecidableEq α]

/-- The siblings in turn, if the search from each of them is a walk. -/
theorem foldl_walks {fuel : Nat}
    (ih : ∀ x seen, g.index x < g.size → g.Distinct seen → g.size + 1 ≤ fuel + seen.length →
      Walks g.next p [x] seen (search g.next p fuel x seen).1 (search g.next p fuel x seen).2) :
    ∀ xs seen, (∀ x ∈ xs, g.index x < g.size) → g.Distinct seen →
      g.size + 1 ≤ fuel + seen.length → ∀ answer, answer = xs.foldl
        (fun (found, seen) b => if found then (found, seen) else search g.next p fuel b seen)
        (false, seen) → Walks g.next p xs seen answer.1 answer.2
  | [], seen, _, _, _, answer, hanswer => by
    subst hanswer
    exact .done
  | x :: xs, seen, hxs, hseen, enough, answer, hanswer => by
    obtain ⟨hx, hrest⟩ := List.forall_mem_cons.1 hxs
    have hwalk := ih x seen hx hseen enough
    simp only [List.foldl_cons, Bool.false_eq_true, if_false] at hanswer
    cases hs : search g.next p fuel x seen with
    | mk found mid =>
      rw [hs] at hwalk hanswer
      cases found with
      | true =>
        rw [foldl_search_found] at hanswer
        subst hanswer
        exact hwalk.stop xs
      | false =>
        obtain ⟨hsub, hmid⟩ := hwalk.keeps (List.forall_mem_singleton.2 hx) hseen
        have hlen : seen.length ≤ mid.length := hseen.nodup.length_le_of_subset hsub
        exact hwalk.append (foldl_walks ih xs mid hrest hmid (by omega) answer hanswer)

/-- **A search takes the walk to its end**: each step looks at another element, so the fuel
outlasts the walk. -/
theorem search_walks (g : Graph α) (p : α → Bool) : ∀ fuel x seen, g.index x < g.size →
    g.Distinct seen → g.size + 1 ≤ fuel + seen.length →
    Walks g.next p [x] seen (search g.next p fuel x seen).1 (search g.next p fuel x seen).2
  | 0, x, seen, _, hseen, enough => by
    have := hseen.length_le
    omega
  | fuel + 1, x, seen, hx, hseen, enough => by
    rw [search]
    split
    · rename_i hagain
      exact .again (List.contains_iff_mem.1 hagain) .done
    · rename_i hagain
      have hnew : x ∉ seen := fun h => hagain (List.contains_iff_mem.2 h)
      split
      · rename_i hp
        exact .here hnew hp
      · rename_i hp
        have hnot : p x = false := Bool.eq_false_iff.2 hp
        have hinner := foldl_walks (search_walks g p fuel) (g.next x) (x :: seen) (g.closed x hx)
          (hseen.cons hnew hx) (by rw [List.length_cons]; omega) _ rfl
        generalize (g.next x).foldl
          (fun (found, seen) b => if found then (found, seen) else search g.next p fuel b seen)
          (false, x :: seen) = answer at hinner ⊢
        obtain ⟨found, seen'⟩ := answer
        cases found with
        | true => exact .behind hnew hnot hinner
        | false => exact .past hnew hnot hinner .done

end Search

namespace NodeTable

/-- The walk through the union branches in search of a node with the property. -/
def BranchWalk (t : NodeTable) (p : SchemaNode → Bool) (id : NodeId) : Bool → List NodeId → Prop :=
  Search.Walks (fun a => (t.node a).unionOf) (fun a => p (t.node a)) [id] []

theorem anyBranch_walk {t : NodeTable} {p : SchemaNode → Bool} (closed : t.Closed) {id : NodeId}
    (hid : id.index < t.size) : ∃ seen, seen.Nodup ∧ seen.length ≤ t.size ∧
      ∀ found seen', t.BranchWalk p id found seen' ↔ found = t.anyBranch p id ∧ seen' = seen := by
  have hwalk : t.BranchWalk p id (t.anyBranch p id) _ :=
    Search.search_walks (t.branchGraph closed) (fun a => p (t.node a)) (t.size + 1) id [] hid .nil
      (Nat.le_refl _)
  have hseen := (Search.Walks.keeps (g := t.branchGraph closed) hwalk
    (List.forall_mem_singleton.2 hid) .nil).2
  refine ⟨_, hseen.nodup, hseen.length_le, fun found seen' => ⟨fun h => h.unique hwalk, ?_⟩⟩
  rintro ⟨rfl, rfl⟩
  exact hwalk

/-- **Nullability is reachability**: in a closed table, with circles or without, the walk in search
of a nullable node comes to one end after at most as many nodes as the table has, with the answer
of `isNullable`; and the answer is yes exactly if union branches lead to a nullable node. -/
theorem isNullable_decides_reachable (t : NodeTable) (closed : t.Closed) (id : NodeId)
    (hid : id.index < t.size) :
    (∃ seen, seen.Nodup ∧ seen.length ≤ t.size ∧ ∀ found seen',
      t.BranchWalk (·.isNullable) id found seen' ↔ found = t.isNullable id ∧ seen' = seen) ∧
    (t.isNullable id = true ↔
      ∃ b, Relation.ReflTransGen (fun a b => b ∈ (t.node a).unionOf) id b ∧
        (t.node b).isNullable = true) :=
  ⟨anyBranch_walk closed hid, isNullable_iff closed hid⟩

/-- Two unions that hold each other, with a node that both hold, and a nullable one behind it. -/
def circleTable : NodeTable := .ofArray #[
  { SchemaNode.plain "A" with unionOf := [⟨1⟩, ⟨2⟩] },
  { SchemaNode.plain "B" with unionOf := [⟨0⟩, ⟨2⟩] },
  { SchemaNode.plain "C" with unionOf := [⟨1⟩, ⟨3⟩] },
  { SchemaNode.plain "string" with isNullable := true }]

/-- From the first union the nullable node stands behind two nodes of the circle. -/
theorem circleTable_nullable : circleTable.Closed ∧ (0 : Nat) < circleTable.size ∧
    circleTable.isNullable ⟨0⟩ = true ∧
    (∃ seen, seen.Nodup ∧ seen.length ≤ circleTable.size ∧ ∀ found seen',
      circleTable.BranchWalk (·.isNullable) ⟨0⟩ found seen' ↔
        found = circleTable.isNullable ⟨0⟩ ∧ seen' = seen) ∧
    ∃ b, Relation.ReflTransGen (fun a b => b ∈ (circleTable.node a).unionOf) ⟨0⟩ b ∧
      (circleTable.node b).isNullable = true := by
  have closed : circleTable.Closed := by decide +kernel
  have hid : (⟨0⟩ : NodeId).index < circleTable.size := by decide
  have hnullable : circleTable.isNullable ⟨0⟩ = true := by decide +kernel
  obtain ⟨hwalk, hreach⟩ := isNullable_decides_reachable circleTable closed ⟨0⟩ hid
  exact ⟨closed, hid, hnullable, hwalk, hreach.1 hnullable⟩

end NodeTable
end TypedJson
