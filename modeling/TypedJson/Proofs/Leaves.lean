import TypedJson.Proofs.Search
import TypedJson.Proofs.Growth
import TypedJson.Schema.Building
/-!
# The leaves of a type

The leaves are collected by a walk that enters no union twice.  `Collects` is that walk
without fuel, as a list of types still to be visited: its steps show at once that the walk
has one outcome only and that the outcome does not change when types are added
(`leaves_grown`).  The fuel suffices because the unions entered are distinct.  The leaves
of a type are, each of them once, the types other than unions that its branches lead to
(`mem_leaves_iff`).

The walk in the program threads two lists through a fold, and the recursion is on fuel;
neither is fit for an induction.  `Collects` has a rule for each way to treat the first type
of the list: a leaf, a union that was met, a union whose branches are put in front of what
is left.  That is the order of the program, so the outcome is the same list and not only the
same set.
-/
namespace TypedJson
namespace Universe

/-- What was met so far: the leaves and the unions. -/
abbrev Met := List TypeId × List TypeId

variable {u : Universe} {s s' : Interner}

/-! ## Branches

An enum counts as a leaf even where it has values, so what is opened are unions and nothing
else. -/

theorem kind_of_isAlias {symbol : Symbol} (h : u.IsAlias symbol) {origin : Origin}
    (ho : u.origin? symbol = some origin) : origin.kind = .typeAlias := by
  obtain ⟨id, d, body, rfl, hd, hbody⟩ := h
  simp only [origin?, hd, Option.map_some, Option.some.injEq] at ho
  subst ho
  show DeclarationBody.kind d.body = _
  rw [hbody]
  rfl

theorem branches?_eq (hs : u.Sound s) (t : TypeId) : u.branches? s t = s.union? t := by
  unfold branches?
  by_cases henum : u.isEnum s t = true
  · rw [if_pos henum]
    unfold isEnum originOf? at henum
    unfold Interner.union?
    have hlawful := hs.lawful t
    cases hdata : s.data t with
    | namedUnion origin branches =>
      rw [hdata] at henum hlawful
      simp only [TypeData.instance?, Option.bind_some] at henum
      split at henum
      · rename_i o ho
        have hkind := kind_of_isAlias hlawful ho
        rw [hkind] at henum
        cases henum
      · cases henum
    | form f =>
      cases f with
      | union branches =>
        rw [hdata] at henum
        cases henum
      | _ => rfl
    | object origin shape => rfl
    | reserved => rfl
  · rw [if_neg henum]

theorem union?_has (hs : u.Sound s) {t : TypeId} {branches : List TypeId}
    (h : s.union? t = some branches) : ∀ b ∈ branches, s.Has b :=
  fun b hb => hs.parts t b (TypeData.union?_parts h hb)

theorem branches?_has (hs : u.Sound s) {t : TypeId} {branches : List TypeId}
    (h : u.branches? s t = some branches) : ∀ b ∈ branches, s.Has b := by
  rw [branches?_eq hs] at h
  exact union?_has hs h

theorem branches?_grown (hgrows : s.Grows s') {t : TypeId} (ht : s.Has t) :
    u.branches? s' t = u.branches? s t := by
  unfold branches? isEnum originOf? Interner.union?
  rw [hgrows.data t ht]

/-! ## The walk

Each of the three facts on the walk is an induction on the derivation: it has one outcome,
it goes on over an appended list, and it is the same in a larger table. -/

/-- A leaf is added unless it is there. -/
def addLeaf (t : TypeId) (met : Met) : Met :=
  if met.1.contains t then met else (t :: met.1, met.2)

theorem mem_addLeaf {t x : TypeId} {met : Met} : x ∈ (addLeaf t met).1 ↔ x = t ∨ x ∈ met.1 := by
  unfold addLeaf
  by_cases h : met.1.contains t = true
  · rw [if_pos h]
    constructor
    · exact .inr
    · rintro (rfl | hx)
      · exact List.contains_iff_mem.1 h
      · exact hx
  · rw [if_neg h]
    exact List.mem_cons

theorem addLeaf_unions (t : TypeId) (met : Met) : (addLeaf t met).2 = met.2 := by
  unfold addLeaf
  split
  · rfl
  · rfl

/-- From the types to visit and what was met so far to all that is met. -/
inductive Collects (u : Universe) (s : Interner) : List TypeId → Met → Met → Prop
  | done (met : Met) : Collects u s [] met met
  | leaf {t : TypeId} {rest : List TypeId} {met out : Met} (h : u.branches? s t = none)
      (tail : Collects u s rest (addLeaf t met) out) : Collects u s (t :: rest) met out
  | again {t : TypeId} {branches rest : List TypeId} {met out : Met}
      (h : u.branches? s t = some branches) (seen : t ∈ met.2)
      (tail : Collects u s rest met out) : Collects u s (t :: rest) met out
  | enter {t : TypeId} {branches rest : List TypeId} {met out : Met}
      (h : u.branches? s t = some branches) (new : t ∉ met.2)
      (tail : Collects u s (branches ++ rest) (met.1, t :: met.2) out) :
      Collects u s (t :: rest) met out

namespace Collects

theorem unique {ts : List TypeId} {met out out' : Met} (h : Collects u s ts met out)
    (h' : Collects u s ts met out') : out = out' := by
  induction h with
  | done met =>
    cases h'
    rfl
  | leaf h _ ih =>
    cases h' with
    | leaf _ tail => exact ih tail
    | again h2 => rw [h] at h2; cases h2
    | enter h2 => rw [h] at h2; cases h2
  | again h seen _ ih =>
    cases h' with
    | leaf h2 => rw [h] at h2; cases h2
    | again _ _ tail => exact ih tail
    | enter _ new => exact absurd seen new
  | enter h new _ ih =>
    cases h' with
    | leaf h2 => rw [h] at h2; cases h2
    | again _ seen => exact absurd seen new
    | enter h2 _ tail =>
      rw [h] at h2
      cases h2
      exact ih tail

theorem append {ts us : List TypeId} {met mid out : Met} (h : Collects u s ts met mid)
    (h' : Collects u s us mid out) : Collects u s (ts ++ us) met out := by
  induction h with
  | done met => exact h'
  | leaf h _ ih => exact .leaf h (ih h')
  | again h seen _ ih => exact .again h seen (ih h')
  | enter h new _ ih =>
    have hrest := ih h'
    rw [List.append_assoc] at hrest
    exact .enter h new hrest

theorem grown (hs : u.Sound s) (hgrows : s.Grows s') {ts : List TypeId} {met out : Met}
    (h : Collects u s ts met out) (hts : ∀ t ∈ ts, s.Has t) : Collects u s' ts met out := by
  induction h with
  | done met => exact .done met
  | leaf h _ ih =>
    obtain ⟨ht, hrest⟩ := List.forall_mem_cons.1 hts
    exact .leaf (by rw [branches?_grown hgrows ht, h]) (ih hrest)
  | again h seen _ ih =>
    obtain ⟨ht, hrest⟩ := List.forall_mem_cons.1 hts
    exact .again (by rw [branches?_grown hgrows ht, h]) seen (ih hrest)
  | enter h new _ ih =>
    obtain ⟨ht, hrest⟩ := List.forall_mem_cons.1 hts
    refine .enter (by rw [branches?_grown hgrows ht, h]) new (ih ?_)
    exact List.forall_mem_append.2 ⟨branches?_has hs h, hrest⟩

theorem unions {ts : List TypeId} {met out : Met} (hs : u.Sound s)
    (h : Collects u s ts met out) (hts : ∀ t ∈ ts, s.Has t)
    (hmet : met.2.Nodup ∧ ∀ t ∈ met.2, s.Has t) :
    met.2.length ≤ out.2.length ∧ out.2.Nodup ∧ ∀ t ∈ out.2, s.Has t := by
  induction h with
  | done met => exact ⟨Nat.le_refl _, hmet⟩
  | @leaf t rest met _ _ _ ih =>
    rw [addLeaf_unions] at ih
    exact ih (List.forall_mem_cons.1 hts).2 hmet
  | again _ _ _ ih => exact ih (List.forall_mem_cons.1 hts).2 hmet
  | enter h new _ ih =>
    obtain ⟨ht, hrest⟩ := List.forall_mem_cons.1 hts
    have hnodup := List.nodup_cons.2 ⟨new, hmet.1⟩
    have hnext := ih (List.forall_mem_append.2 ⟨branches?_has hs h, hrest⟩)
      ⟨hnodup, List.forall_mem_cons.2 ⟨ht, hmet.2⟩⟩
    exact ⟨Nat.le_of_succ_le hnext.1, hnext.2⟩

end Collects

/-- With fuel for every union of the table, the walk is `Collects`. -/
theorem foldl_collectLeaves (hs : u.Sound s) : ∀ (fuel : Nat) (ts : List TypeId) (met : Met),
    (∀ t ∈ ts, s.Has t) → met.2.Nodup → (∀ t ∈ met.2, s.Has t) →
    s.slots.size + 1 ≤ fuel + met.2.length →
    Collects u s ts met (ts.foldl (fun met t => u.collectLeaves s fuel t met) met)
  | fuel, [], met, _, _, _, _ => .done met
  | 0, _ :: _, met, _, nodup, lt, enough => by
    have := length_le_of_nodup_of_lt TypeId.index TypeId.index_injective met.2 _ nodup lt
    omega
  | fuel + 1, t :: rest, (leaves, unions), hts, nodup, lt, enough => by
    obtain ⟨ht, hrest⟩ := List.forall_mem_cons.1 hts
    have enough : s.slots.size + 1 ≤ fuel + 1 + unions.length := enough
    have hone : Collects u s [t] (leaves, unions) (u.collectLeaves s (fuel + 1) t (leaves, unions)) := by
      rw [collectLeaves]
      split
      · rename_i branches h
        by_cases hseen : unions.contains t = true
        · rw [if_pos hseen]
          exact .again h (List.contains_iff_mem.1 hseen) (.done _)
        · rw [if_neg hseen]
          -- one union more is entered, so one step of fuel less is needed
          have hnew : t ∉ unions := fun hmem => hseen (List.contains_iff_mem.2 hmem)
          refine .enter h hnew ?_
          rw [List.append_nil]
          refine foldl_collectLeaves hs fuel branches (leaves, t :: unions) (branches?_has hs h)
            (List.nodup_cons.2 ⟨hnew, nodup⟩) (List.forall_mem_cons.2 ⟨ht, lt⟩) ?_
          show s.slots.size + 1 ≤ fuel + (unions.length + 1)
          omega
      · rename_i h
        exact .leaf h (.done _)
    have hunions := hone.unions hs (List.forall_mem_singleton.2 ht) ⟨nodup, lt⟩
    rw [List.foldl_cons]
    refine hone.append (foldl_collectLeaves hs (fuel + 1) rest _ hrest hunions.2.1 hunions.2.2 ?_)
    have : unions.length ≤ _ := hunions.1
    omega

theorem leaves_collects (hs : u.Sound s) {t : TypeId} (ht : s.Has t) :
    ∃ out, Collects u s [t] ([], []) out ∧ u.leaves s t = out.1.reverse := by
  exact ⟨_, foldl_collectLeaves hs (s.slots.size + 1) [t] ([], []) (List.forall_mem_singleton.2 ht)
    List.nodup_nil (List.forall_mem_nil _) (Nat.le_add_right _ _), rfl⟩

/-- **The leaves of a type stay the same as the table grows.** -/
theorem leaves_grown (hs : u.Sound s) (hs' : u.Sound s') (hgrows : s.Grows s') {t : TypeId}
    (ht : s.Has t) : u.leaves s' t = u.leaves s t := by
  obtain ⟨out, hout, hleaves⟩ := leaves_collects hs ht
  obtain ⟨out', hout', hleaves'⟩ := leaves_collects hs' (hgrows.has ht)
  have hgrown := hout.grown hs hgrows (List.forall_mem_singleton.2 ht)
  rw [hleaves, hleaves', hgrown.unique hout']

theorem leaves_of_not_union (hs : u.Sound s) {t : TypeId} (ht : s.Has t)
    (h : s.union? t = none) : u.leaves s t = [t] := by
  obtain ⟨out, hout, hleaves⟩ := leaves_collects hs ht
  have hown : Collects u s [t] ([], []) ([t], []) :=
    .leaf (by rw [branches?_eq hs, h]) (.done _)
  rw [hleaves, hout.unique hown]
  rfl

/-! ## What is met

Two invariants.  All that is met can be reached from what was to be visited; and of the
unions met the branches are met as well, once nothing is left to visit. -/

/-- The type is met: as a leaf or as a union. -/
def IsMet (t : TypeId) (met : Met) : Prop := t ∈ met.1 ∨ t ∈ met.2

/-- The unions met are unions, and their branches are met or still to be visited. -/
def Covered (u : Universe) (s : Interner) (ts : List TypeId) (met : Met) : Prop :=
  ∀ t ∈ met.2, ∃ branches, u.branches? s t = some branches ∧ ∀ b ∈ branches, b ∈ ts ∨ IsMet b met

theorem Covered.mono {ts us : List TypeId} {met met' : Met} (h : Covered u s ts met)
    (hunions : met'.2 = met.2) (hmet : ∀ t, t ∈ ts ∨ IsMet t met → t ∈ us ∨ IsMet t met') :
    Covered u s us met' := by
  intro t ht
  rw [hunions] at ht
  obtain ⟨branches, hbranches, hall⟩ := h t ht
  exact ⟨branches, hbranches, fun b hb => hmet b (hall b hb)⟩

namespace Collects

/-- In the end everything that was to be visited is met, and the branches of the unions
met are met. -/
theorem covers {ts : List TypeId} {met out : Met} (h : Collects u s ts met out)
    (hcovered : Covered u s ts met) :
    (∀ t, t ∈ ts ∨ IsMet t met → IsMet t out) ∧ Covered u s [] out := by
  induction h with
  | done met => exact ⟨fun t ht => ht.resolve_left List.not_mem_nil, hcovered⟩
  | @leaf t rest met out h _ ih =>
    have hmet : ∀ x, x ∈ t :: rest ∨ IsMet x met → x ∈ rest ∨ IsMet x (addLeaf t met) := by
      rintro x (hx | hx | hx)
      · rcases List.mem_cons.1 hx with rfl | hx
        · exact .inr (.inl (mem_addLeaf.2 (.inl rfl)))
        · exact .inl hx
      · exact .inr (.inl (mem_addLeaf.2 (.inr hx)))
      · exact .inr (.inr (by rw [addLeaf_unions]; exact hx))
    have hnext := ih (hcovered.mono (addLeaf_unions t met) hmet)
    exact ⟨fun x hx => hnext.1 x (hmet x hx), hnext.2⟩
  | @again t branches rest met out h seen _ ih =>
    have hmet : ∀ x, x ∈ t :: rest ∨ IsMet x met → x ∈ rest ∨ IsMet x met := by
      rintro x (hx | hx)
      · rcases List.mem_cons.1 hx with rfl | hx
        · exact .inr (.inr seen)
        · exact .inl hx
      · exact .inr hx
    have hnext := ih (hcovered.mono rfl hmet)
    exact ⟨fun x hx => hnext.1 x (hmet x hx), hnext.2⟩
  | @enter t branches rest met out h new _ ih =>
    have hmet : ∀ x, x ∈ t :: rest ∨ IsMet x met →
        x ∈ branches ++ rest ∨ IsMet x (met.1, t :: met.2) := by
      rintro x (hx | hx | hx)
      · rcases List.mem_cons.1 hx with rfl | hx
        · exact .inr (.inr List.mem_cons_self)
        · exact .inl (List.mem_append_right _ hx)
      · exact .inr (.inl hx)
      · exact .inr (.inr (List.mem_cons_of_mem t hx))
    have hnext := ih fun x hx => by
      rcases List.mem_cons.1 hx with rfl | hx
      · exact ⟨branches, h, fun b hb => .inl (List.mem_append_left _ hb)⟩
      · obtain ⟨branches', hbranches', hall⟩ := hcovered x hx
        exact ⟨branches', hbranches', fun b hb => hmet b (hall b hb)⟩
    exact ⟨fun x hx => hnext.1 x (hmet x hx), hnext.2⟩

theorem sound {P : TypeId → Prop}
    (step : ∀ t branches, P t → u.branches? s t = some branches → ∀ b ∈ branches, P b)
    {ts : List TypeId} {met out : Met} (h : Collects u s ts met out) (hts : ∀ t ∈ ts, P t)
    (hmet : ∀ t ∈ met.1, P t ∧ u.branches? s t = none) :
    ∀ t ∈ out.1, P t ∧ u.branches? s t = none := by
  induction h with
  | done met => exact hmet
  | @leaf t rest met out h _ ih =>
    obtain ⟨ht, hrest⟩ := List.forall_mem_cons.1 hts
    refine ih hrest fun x hx => ?_
    rcases mem_addLeaf.1 hx with rfl | hx
    · exact ⟨ht, h⟩
    · exact hmet x hx
  | again _ _ _ ih => exact ih (List.forall_mem_cons.1 hts).2 hmet
  | @enter t branches rest met out h new _ ih =>
    obtain ⟨ht, hrest⟩ := List.forall_mem_cons.1 hts
    exact ih (List.forall_mem_append.2 ⟨step t branches ht h, hrest⟩) hmet

theorem nodup {ts : List TypeId} {met out : Met} (h : Collects u s ts met out)
    (hmet : met.1.Nodup) : out.1.Nodup := by
  induction h with
  | done met => exact hmet
  | @leaf t rest met out h _ ih =>
    refine ih ?_
    unfold addLeaf
    by_cases hseen : met.1.contains t = true
    · rw [if_pos hseen]
      exact hmet
    · rw [if_neg hseen]
      exact List.nodup_cons.2 ⟨fun h => hseen (List.contains_iff_mem.2 h), hmet⟩
  | again _ _ _ ih => exact ih hmet
  | enter _ _ _ ih => exact ih hmet

end Collects

end Universe

/-! ## The leaves and what the branches lead to -/

/-- The second type is the first one or stands behind it in branches. -/
def Interner.Leads (s : Interner) : TypeId → TypeId → Prop :=
  Relation.ReflTransGen fun a b => b ∈ (s.union? a).getD []

namespace Universe

variable {u : Universe} {s : Interner}

theorem nodup_leaves (hs : u.Sound s) {t : TypeId} (ht : s.Has t) : (u.leaves s t).Nodup := by
  obtain ⟨out, hout, hleaves⟩ := leaves_collects hs ht
  rw [hleaves]
  exact List.nodup_reverse.2 (hout.nodup List.nodup_nil)

/-- **The leaves are the types other than unions that the branches lead to.** -/
theorem mem_leaves_iff (hs : u.Sound s) {t : TypeId} (ht : s.Has t) (r : TypeId) :
    r ∈ u.leaves s t ↔ s.Leads t r ∧ s.union? r = none := by
  obtain ⟨out, hout, hleaves⟩ := leaves_collects hs ht
  rw [hleaves, List.mem_reverse]
  constructor
  · intro hr
    have hstep : ∀ a branches, s.Leads t a → u.branches? s a = some branches →
        ∀ b ∈ branches, s.Leads t b := by
      intro a branches ha h b hb
      rw [branches?_eq hs] at h
      exact ha.tail (by rw [h]; exact hb)
    have hall := hout.sound hstep
      (List.forall_mem_singleton.2 .refl) (List.forall_mem_nil _) r hr
    rw [branches?_eq hs] at hall
    exact hall
  · rintro ⟨hlead, hleaf⟩
    obtain ⟨hmet, hclosed⟩ := hout.covers fun x hx => by cases hx
    have hleafless : ∀ x ∈ out.1, s.union? x = none := by
      intro x hx
      have hall := hout.sound (P := fun _ => True) (fun _ _ _ _ _ _ => trivial)
        (fun _ _ => trivial) (fun x hx => by cases hx) x hx
      rw [branches?_eq hs] at hall
      exact hall.2
    have hall : ∀ x, s.Leads t x → IsMet x out := by
      intro x hx
      induction hx with
      | refl => exact hmet t (.inl List.mem_cons_self)
      | @tail a b hlead hab ih =>
        rcases ih with ha | ha
        · rw [hleafless a ha] at hab
          cases hab
        · obtain ⟨branches, hbranches, hall⟩ := hclosed a ha
          rw [branches?_eq hs] at hbranches
          rw [hbranches] at hab
          exact (hall b hab).resolve_left List.not_mem_nil
    rcases hall r hlead with hr | hr
    · exact hr
    · obtain ⟨branches, hbranches, -⟩ := hclosed r hr
      rw [branches?_eq hs, hleaf] at hbranches
      cases hbranches

theorem has_of_leads (hs : u.Sound s) {t r : TypeId} (ht : s.Has t) (h : s.Leads t r) : s.Has r := by
  induction h with
  | refl => exact ht
  | @tail a b _ hab ih =>
    cases hunion : s.union? a with
    | none =>
      rw [hunion] at hab
      cases hab
    | some branches =>
      rw [hunion] at hab
      exact union?_has hs hunion b hab

theorem leaves_has (hs : u.Sound s) {t : TypeId} (ht : s.Has t) : ∀ r ∈ u.leaves s t, s.Has r :=
  fun r hr => has_of_leads hs ht ((mem_leaves_iff hs ht r).1 hr).1

theorem union?_of_mem_leaves (hs : u.Sound s) {t : TypeId} (ht : s.Has t) {r : TypeId}
    (hr : r ∈ u.leaves s t) : s.union? r = none := ((mem_leaves_iff hs ht r).1 hr).2

theorem leaves_of_mem_leaves (hs : u.Sound s) {t : TypeId} (ht : s.Has t) {r : TypeId}
    (hr : r ∈ u.leaves s t) : u.leaves s r = [r] :=
  leaves_of_not_union hs (leaves_has hs ht r hr) (union?_of_mem_leaves hs ht hr)

/-- The types with the branches of the unions. -/
def branchGraph (hs : u.Sound s) : Search.Graph TypeId where
  next := fun a => (s.union? a).getD []
  index := TypeId.index
  injective := TypeId.index_injective
  size := s.slots.size
  closed := fun _ ha _ hb => has_of_leads hs ha (.single hb)

/-- **`null` belongs to a type exactly if it is one of its leaves.** -/
theorem isNullable_iff (hs : u.Sound s) {t : TypeId} (ht : s.Has t) :
    s.isNullable t = true ↔ ∃ r ∈ u.leaves s t, s.isNull r = true := by
  have hsearch := Search.search_iff (branchGraph hs) s.isNull ht
  refine hsearch.trans ⟨?_, ?_⟩
  · rintro ⟨r, hlead, hnull⟩
    refine ⟨r, (mem_leaves_iff hs ht r).2 ⟨hlead, ?_⟩, hnull⟩
    rw [Interner.union?, Interner.isNull_iff.1 hnull]
    rfl
  · rintro ⟨r, hr, hnull⟩
    exact ⟨r, ((mem_leaves_iff hs ht r).1 hr).1, hnull⟩

end Universe
end TypedJson
