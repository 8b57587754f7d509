import TypedJson.Types.Members
import Mathlib.Data.List.Nodup
/-!
# Members merged

Members are merged one at a time, and of members of one name the first one counts.  So merging is
associative (`mergeMembers_assoc`), and what is merged into nothing is what the first ones of
each name are (`firstWins_eq`).

`mergeMembers` adds to the end what has a new name and drops the rest.  The list that grows
is the left argument, so the inductions are on the right one; the lemmas on one member more
are the step of each of them.
-/
namespace TypedJson

def firstNamed? (ms : List TypeMember) (n : String) : Option TypeMember := ms.find? (·.name == n)

/-- Of members of one name the first one only. -/
def firstWins (ms : List TypeMember) : List TypeMember :=
  ms.eraseDupsBy fun m m' => m.name == m'.name

/-- No name comes up twice. -/
def DistinctMembers (ms : List TypeMember) : Prop := (ms.map (·.name)).Nodup

open Universe

/-! ## One member more

Which member a name stands for after one more was added: the one that was there, else the
new one. -/

theorem any_name_iff {ms : List TypeMember} {n : String} :
    ms.any (·.name == n) = true ↔ firstNamed? ms n ≠ none := by
  rw [firstNamed?, Ne, List.find?_eq_none, List.any_eq_true]
  simp

theorem mergeMembers_singleton (ms : List TypeMember) (x : TypeMember) :
    mergeMembers ms [x] = if ms.any (·.name == x.name) then ms else ms ++ [x] := rfl

theorem mergeMembers_cons (ms : List TypeMember) (x : TypeMember) (more : List TypeMember) :
    mergeMembers ms (x :: more) = mergeMembers (mergeMembers ms [x]) more := rfl

theorem mergeMembers_append (ms more more' : List TypeMember) :
    mergeMembers ms (more ++ more') = mergeMembers (mergeMembers ms more) more' := List.foldl_append

theorem firstNamed?_add (ms : List TypeMember) (x : TypeMember) (n : String) :
    firstNamed? (mergeMembers ms [x]) n = (firstNamed? ms n).or (firstNamed? [x] n) := by
  show (if ms.any (·.name == x.name) then ms else ms ++ [x]).find? (·.name == n) = _
  by_cases hany : ms.any (·.name == x.name) = true
  · rw [if_pos hany]
    cases hfound : firstNamed? ms n with
    | some y => exact hfound
    | none =>
      have hne : (x.name == n) = false := by
        obtain ⟨y, hy, hname⟩ := List.any_eq_true.1 hany
        have hother := List.find?_eq_none.1 hfound y hy
        rw [beq_iff_eq.1 hname] at hother
        exact Bool.eq_false_iff.2 hother
      rw [Option.none_or, firstNamed?, List.find?_cons, hne]
      exact hfound
  · rw [if_neg hany, List.find?_append]
    rfl

theorem firstNamed?_mergeMembers (n : String) : ∀ more ms : List TypeMember,
    firstNamed? (mergeMembers ms more) n = (firstNamed? ms n).or (firstNamed? more n)
  | [], ms => (Option.or_none).symm
  | x :: more, ms => by
    have hcons : firstNamed? ([x] ++ more) n = (firstNamed? [x] n).or (firstNamed? more n) :=
      List.find?_append
    rw [List.singleton_append] at hcons
    rw [hcons, ← Option.or_assoc, ← firstNamed?_add]
    exact firstNamed?_mergeMembers n more _

theorem mem_add_iff (ms : List TypeMember) (x m : TypeMember) :
    m ∈ mergeMembers ms [x] ↔ m ∈ ms ∨ (firstNamed? ms m.name = none ∧ m = x) := by
  rw [mergeMembers_singleton]
  split
  · rename_i hany
    refine ⟨.inl, fun h => h.resolve_right ?_⟩
    rintro ⟨hfound, rfl⟩
    exact any_name_iff.1 hany hfound
  · rename_i hany
    rw [List.mem_append, List.mem_singleton]
    refine or_congr_right ⟨?_, And.right⟩
    rintro rfl
    exact ⟨not_not.1 fun h => hany (any_name_iff.2 h), rfl⟩

theorem mem_mergeMembers_iff (m : TypeMember) : ∀ more ms : List TypeMember,
    m ∈ mergeMembers ms more ↔
      m ∈ ms ∨ (firstNamed? ms m.name = none ∧ firstNamed? more m.name = some m)
  | [], ms => ⟨.inl, fun h => h.resolve_right fun h => by cases h.2⟩
  | x :: more, ms => by
    have hcons : firstNamed? (x :: more) m.name = some m ↔
        m = x ∨ (firstNamed? [x] m.name = none ∧ firstNamed? more m.name = some m) := by
      unfold firstNamed?
      rw [List.find?_cons, List.find?_cons]
      by_cases hname : x.name = m.name
      · simp [hname, eq_comm]
      · have hne : m ≠ x := fun h => hname (by rw [h])
        simp [beq_false_of_ne hname, hne]
    rw [mergeMembers_cons, mem_mergeMembers_iff m more, mem_add_iff, firstNamed?_add,
      Option.or_eq_none_iff, hcons]
    tauto

/-! ## Lists merged

Associativity is what lets the members of several bases be merged in any grouping, as long
as their order is kept. -/

theorem prefix_mergeMembers : ∀ more ms : List TypeMember, ms <+: mergeMembers ms more
  | [], ms => List.prefix_refl ms
  | x :: more, ms => by
    have hstep : ms <+: mergeMembers ms [x] := by
      rw [mergeMembers_singleton]
      split
      · exact List.prefix_refl ms
      · exact List.prefix_append ms [x]
    exact hstep.trans (prefix_mergeMembers more _)

/-- What is merged in is merged with what comes after it either way. -/
theorem mergeMembers_assoc (ms : List TypeMember) : ∀ more more' : List TypeMember,
    mergeMembers ms (mergeMembers more more') = mergeMembers (mergeMembers ms more) more'
  | more, [] => rfl
  | more, x :: more' => by
    rw [mergeMembers_cons, mergeMembers_assoc ms _ more', mergeMembers_cons (mergeMembers ms more)]
    congr 1
    by_cases hany : more.any (·.name == x.name) = true
    · have hthere : (mergeMembers ms more).any (·.name == x.name) = true := by
        rw [any_name_iff, firstNamed?_mergeMembers, Ne, Option.or_eq_none_iff]
        exact fun h => any_name_iff.1 hany h.2
      rw [mergeMembers_singleton more, if_pos hany, mergeMembers_singleton, if_pos hthere]
    · rw [mergeMembers_singleton more, if_neg hany, mergeMembers_append]

theorem mergeAll_eq (lists : List (List TypeMember)) (ms : List TypeMember) :
    mergeAll lists ms = mergeMembers ms lists.flatten := List.foldl_flatten.symm

theorem DistinctMembers.merge : ∀ {more ms : List TypeMember}, DistinctMembers ms →
    DistinctMembers (mergeMembers ms more)
  | [], _, h => h
  | x :: more, ms, h => by
    rw [mergeMembers_cons]
    refine DistinctMembers.merge ?_
    rw [mergeMembers_singleton]
    split
    · exact h
    · rename_i hany
      have hnew : x.name ∉ ms.map (·.name) := by
        rintro hmem
        obtain ⟨m, hm, hname⟩ := List.mem_map.1 hmem
        exact hany (List.any_eq_true.2 ⟨m, hm, beq_iff_eq.2 hname⟩)
      rw [DistinctMembers, List.map_append]
      exact h.append (List.nodup_singleton _) fun n hn hx => by
        rw [List.mem_singleton.1 hx] at hn
        exact hnew hn

theorem mergeMembers_eq_append : ∀ {more ms : List TypeMember}, DistinctMembers (ms ++ more) →
    mergeMembers ms more = ms ++ more
  | [], ms, _ => (List.append_nil ms).symm
  | x :: more, ms, h => by
    have hnew : ¬ ms.any (·.name == x.name) = true := by
      intro hany
      obtain ⟨m, hm, hname⟩ := List.any_eq_true.1 hany
      rw [DistinctMembers, List.map_append] at h
      exact List.disjoint_of_nodup_append h (List.mem_map.2 ⟨m, hm, beq_iff_eq.1 hname⟩)
        List.mem_cons_self
    have happend : ms ++ x :: more = (ms ++ [x]) ++ more := (List.append_cons ms x more)
    rw [happend] at h ⊢
    rw [mergeMembers_cons, mergeMembers_singleton, if_neg hnew]
    exact mergeMembers_eq_append h

/-! ## The first ones of each name

Merging into nothing is a fold that can be written down: keep each member whose name has not
come up.  With this form a statement about a whole line of bases needs no fold any more. -/

theorem firstWins_loop : ∀ more ms : List TypeMember,
    List.eraseDupsBy.loop (fun m m' : TypeMember => m.name == m'.name) more ms.reverse =
      mergeMembers ms more
  | [], ms => ms.reverse_reverse
  | x :: more, ms => by
    have hany : ms.reverse.any (fun m => x.name == m.name) = ms.any (·.name == x.name) := by
      rw [List.any_reverse]
      exact congrArg ms.any (funext fun m => BEq.comm)
    rw [List.eraseDupsBy.loop, hany, mergeMembers_cons, mergeMembers_singleton]
    cases ms.any (·.name == x.name) with
    | true => exact firstWins_loop more ms
    | false =>
      rw [← firstWins_loop more]
      simp

theorem firstWins_eq (ms : List TypeMember) : firstWins ms = mergeMembers [] ms :=
  firstWins_loop ms []

theorem firstWins_of_distinct {ms : List TypeMember} (h : DistinctMembers ms) : firstWins ms = ms :=
  (firstWins_eq ms).trans (mergeMembers_eq_append h)

end TypedJson
