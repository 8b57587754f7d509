import TypedJson.Proofs.Agreement
/-!
# Types that are alike have the same data

The same data belongs to types that are alike (`inhabits_iff_of_like`).  The induction is on the
value.  For an object, the universe is asked for what the two types list, and the tables that
this leaves behind are those in which the fields are looked at.  So it is asked of the tables
that such questions lead to that there are answers to more of them, and that no type takes over
from itself (`Universe.Ready`).

The two values are looked at in two tables which have both grown by the questions asked so
far.  Likeness survives that growth on either side (`Like.extends_both`), and readiness is
inherited by every table that further questions lead to; so the induction hypothesis is
stated for all ready tables at once (`CarriesBelow`).
-/
namespace TypedJson

namespace Universe

variable {u : Universe} {s s' : Interner} {t t' : TypeId}

theorem exists_dataMember {R : TypeId → TypeId → Prop} {ms ms' : List TypeMember}
    (h : MembersAlike R ms ms') {m : TypeMember × TypeId} (hm : m ∈ dataMembers ms) :
    ∃ m' ∈ dataMembers ms', MemberAlike R m.1 m'.1 ∧ R m.2 m'.2 := by
  obtain ⟨hm, ht⟩ := mem_dataMembers.1 hm
  obtain ⟨m', hm', halike⟩ := h.members.1 m.1 hm
  have htype := halike.type
  rw [ht] at htype
  generalize ht' : m'.type = type at htype
  cases htype with
  | @some _ t' htt' => exact ⟨(m', t'), mem_dataMembers.2 ⟨hm', ht'⟩, halike, htt'⟩

theorem isStructure_object_iff {origin : Option Instance} {shape : Shape} :
    u.IsStructure (.object origin shape) ↔ origin.isSome = true := by
  cases origin with
  | none => exact ⟨fun h => h.elim, fun h => by cases h⟩
  | some => exact ⟨fun _ => rfl, fun _ => trivial⟩

namespace Like

/-! ## Leaves

Whatever a value is held against at a leaf is the same for leaves that are alike: the kind
of the leaf, its literal, its element, the keys it admits. -/

/-! A leaf that the one type leads to has a leaf like it that the other leads to, by induction
on the way; then each question about leaves is answered by the data. -/

theorem leads (h : Like s s' t t') {r : TypeId} (hr : s.Leads t r) :
    ∃ r', s'.Leads t' r' ∧ Like s s' r r' := by
  induction hr with
  | refl => exact ⟨t', .refl, h⟩
  | @tail a b _ hb ih =>
    obtain ⟨a', ha', hlike⟩ := ih
    cases ha : s.union? a with
    | none =>
      rw [ha] at hb
      cases hb
    | some bs =>
      rw [ha] at hb
      obtain ⟨bs', hbs', hset⟩ := hlike.alike.union? ha
      obtain ⟨b', hb', hlike'⟩ := hset.1 b hb
      have hstep : b' ∈ (s'.union? a').getD [] := by
        rw [Interner.union?, hbs']
        exact hb'
      exact ⟨b', ha'.tail hstep, hlike'⟩

theorem leaves (hs : u.Sound s) (hs' : u.Sound s') (h : Like s s' t t') {r : TypeId}
    (hr : r ∈ u.leaves s t) : ∃ r' ∈ u.leaves s' t', Like s s' r r' := by
  obtain ⟨hlead, hleaf⟩ := (mem_leaves_iff hs h.has r).1 hr
  obtain ⟨r', hlead', hlike⟩ := h.leads hlead
  exact ⟨r', (mem_leaves_iff hs' h.symm.has r').2 ⟨hlead', hlike.alike.union?_eq_none hleaf⟩, hlike⟩

theorem intrinsic? (h : Like s s' t t') {i : Intrinsic} (ht : s.intrinsic? t = some i) :
    s'.intrinsic? t' = some i := by
  have halike := h.alike
  rw [TypeData.intrinsic?_eq_some_iff.1 ht] at halike
  rw [Interner.intrinsic?, halike.of_intrinsic]
  rfl

theorem element? (h : Like s s' t t') {x : TypeId} (ht : s.element? t = some x) :
    ∃ x', s'.element? t' = some x' ∧ Like s s' x x' := by
  have halike := h.alike
  rw [TypeData.element?_eq_some_iff.1 ht] at halike
  obtain ⟨x', hdata', hlike⟩ := halike.of_array
  refine ⟨x', ?_, hlike⟩
  rw [Interner.element?, hdata']
  rfl

theorem lists (hs : u.Sound s) (hs' : u.Sound s') (h : Like s s' t t') {value : Literal}
    (ht : u.Lists s t value) : u.Lists s' t' value := by
  rcases ht with hvalue | ⟨henum, hvalue⟩
  · exact .inl (h.literal? hvalue)
  · obtain ⟨id, args, hdata, hdeclares⟩ := (isEnum_iff hs t).1 henum
    have halike := h.alike
    rw [hdata] at halike
    obtain ⟨args', hdata', -⟩ := halike.of_reference
    refine .inr ⟨(isEnum_iff hs' t').2 ⟨id, args', hdata', hdeclares⟩, ?_⟩
    unfold enumValues at hvalue ⊢
    rw [hdata] at hvalue
    rw [hdata']
    exact hvalue

theorem isOfForm (hs : u.Sound s) (hs' : u.Sound s') (h : Like s s' t t') {v : Json}
    (ht : u.IsOfForm s v t) : u.IsOfForm s' v t' := by
  have hbuiltin : ∀ b, s.data t = .form (.reference ⟨.builtin b, []⟩) →
      s'.data t' = .form (.reference ⟨.builtin b, []⟩) := by
    intro b hdata
    have halike := h.alike
    rw [hdata] at halike
    obtain ⟨args', hdata', hargs⟩ := halike.of_reference
    cases hargs
    exact hdata'
  rcases ht with ⟨value, hvalue, hmatches⟩ | ⟨i, hi, hmatches⟩ | ⟨hdata, hdate⟩ | ⟨hdata, hpattern⟩
  · exact .inl ⟨value, h.lists hs hs' hvalue, hmatches⟩
  · exact .inr (.inl ⟨i, h.intrinsic? hi, hmatches⟩)
  · exact .inr (.inr (.inl ⟨hbuiltin _ hdata, hdate⟩))
  · exact .inr (.inr (.inr ⟨hbuiltin _ hdata, hpattern⟩))

theorem isStructure (h : Like s s' t t') (ht : u.IsStructure (s.data t)) :
    u.IsStructure (s'.data t') := by
  have halike := h.alike
  generalize s.data t = d at halike ht
  generalize s'.data t' = d' at halike
  cases halike with
  | plain | reference => exact ht
  | array => cases ht
  | union hd =>
    rcases TypeData.union?_eq_some_iff.1 hd with rfl | ⟨origin, rfl⟩
    · cases ht
    · cases ht
  | literal ho =>
    rw [isStructure_object_iff] at ht ⊢
    exact ho.symm.trans ht
  | intersection ho =>
    rw [isStructure_object_iff] at ht ⊢
    exact ho.symm.trans ht
  | record ho =>
    rw [isStructure_object_iff] at ht ⊢
    exact ho.symm.trans ht

theorem leafAdmits (hs : u.Sound s) (hs' : u.Sound s') (h : Like s s' t t') {key : String}
    (ht : u.LeafAdmits s t key) : u.LeafAdmits s' t' key := by
  rcases ht with ⟨value, hvalue, hadmits⟩ | ⟨i, hi, hadmits⟩
  · exact .inl ⟨value, h.lists hs hs' hvalue, hadmits⟩
  · exact .inr ⟨i, h.intrinsic? hi, hadmits⟩

theorem admitsKey (hs : u.Sound s) (hs' : u.Sound s') (h : Like s s' t t') {key : String}
    (ht : u.AdmitsKey s t key) : u.AdmitsKey s' t' key := by
  obtain ⟨r, hr, hadmits⟩ := ht
  obtain ⟨r', hr', hlike⟩ := h.leaves hs hs' hr
  exact ⟨r', hr', hlike.leafAdmits hs hs' hadmits⟩

theorem admitsKey_iff (hs : u.Sound s) (hs' : u.Sound s') (h : Like s s' t t') {key : String} :
    u.AdmitsKey s t key ↔ u.AdmitsKey s' t' key :=
  ⟨h.admitsKey hs hs', h.symm.admitsKey hs' hs⟩

end Like

/-! ## Asking for what a type lists

`Exposes` leaves a larger table behind, and the lists in it are assembled.  Acyclicity is
needed here: it is what makes the list that the program computes the one of the
specification. -/

/-- The second table may come of the first when structures are asked for what they list. -/
def Unfolds (u : Universe) : Interner → Interner → Prop :=
  Relation.ReflTransGen fun s s' => ∃ t ms is, u.IsStructure (s.data t) ∧ u.Exposes s t ms is s'

/-- A table between questions from which on structures can be asked for what they list, and no
type takes over from itself. -/
structure Ready (u : Universe) (s : Interner) : Prop where
  reached : u.Reaches u.start s
  answers : ∀ s', u.Unfolds s s' → ∀ t, u.IsStructure (s'.data t) →
    ∃ ms is s'', u.Exposes s' t ms is s''
  acyclic : ∀ s', u.Unfolds s s' → ¬ u.Cyclic s'

theorem IsStructure.has (h : u.IsStructure (s.data t)) : s.Has t := by
  refine Interner.has_of_data_ne fun hopen => ?_
  rw [hopen] at h
  exact h

theorem Exposes.reaches (hs : u.Sound s) (ht : s.Has t) {ms : List TypeMember} {is : List TypeIndex}
    (h : u.Exposes s t ms is s') : u.Reaches s s' := by
  obtain ⟨fuel, s₁, hmembers, hindexes⟩ := h
  have hfirst : u.Asks s s₁ := .members ht hmembers
  exact .tail (.single hfirst) (.indexes ((asks_grown hs hfirst).has ht) hindexes)

namespace Ready

variable {ms : List TypeMember} {is : List TypeIndex}

theorem sound (h : u.Ready s) : u.Sound s := (kept_of_reaches h.reached).sound

theorem exposed (h : u.Ready s) (ht : u.IsStructure (s.data t)) (hexposes : u.Exposes s t ms is s') :
    u.Ready s' where
  reached := h.reached.trans (hexposes.reaches h.sound (ht.has))
  answers := fun s'' hs'' => h.answers s'' (.head ⟨t, ms, is, ht, hexposes⟩ hs'')
  acyclic := fun s'' hs'' => h.acyclic s'' (.head ⟨t, ms, is, ht, hexposes⟩ hs'')

theorem assembled (h : u.Ready s) (ht : u.IsStructure (s.data t))
    (hexposes : u.Exposes s t ms is s') :
    s.Extends s' ∧ u.Assembled s' .members t ms ∧ u.Assembled s' .indexes t is := by
  have hacyclic := h.acyclic s' (.single ⟨t, ms, is, ht, hexposes⟩)
  obtain ⟨fuel, s₁, hmembers, hindexes⟩ := hexposes
  have hthas := ht.has
  have hnone : ∀ {k s}, u.Awaits [] k t s := fun _ hx => by cases hx
  obtain ⟨h₁, hlisted⟩ := list_goes u .members fuel t s [] (kept_of_reaches h.reached) hthas hnone
    ms s₁ hmembers
  obtain ⟨h₂, hlisted'⟩ := list_goes u .indexes fuel t s₁ [] h₁.after (h₁.has t hthas) hnone
    is s' hindexes
  exact ⟨h₁.table.trans h₂.table, (h₂.listed hlisted).resolve_left fun h => hacyclic h.cyclic,
    hlisted'.resolve_left fun h => hacyclic h.cyclic⟩

end Ready

/-! ## Values

A value without parts is settled by the leaves.  An array goes to the element types, an
object to the lists of the two types, where a field belongs to the member of its name or to
the first signature that admits it. -/

section Values

variable {v : Json}

/-- The smaller values belong to types that are alike as well. -/
def CarriesBelow (u : Universe) (v : Json) : Prop :=
  ∀ j : Json, sizeOf j < sizeOf v → ∀ {s s' : Interner} {t t' : TypeId}, u.Ready s → u.Ready s' →
    Like s s' t t' → u.Inhabits s j t → u.Inhabits s' j t'

theorem fieldsFit_of_like {ms ms' : List TypeMember} {is is' : List TypeIndex}
    {fields : List (String × Json)} (ih : u.CarriesBelow (.object fields)) (hs : u.Ready s)
    (hs' : u.Ready s') (hms : MembersAlike (Like s s') ms ms')
    (his : List.Forall₂ (IndexAlike (Like s s')) is is') (h : u.FieldsFit s ms is fields) :
    u.FieldsFit s' ms' is' fields := by
  refine ⟨fun m' hm' => ?_, fun f hf hundeclared x' hx' => ?_⟩
  · obtain ⟨m, hm, halike, hlike⟩ := exists_dataMember hms.flip hm'
    obtain ⟨hoptional, hvalue⟩ := h.1 m hm
    rw [halike.name, halike.optional]
    exact ⟨hoptional, fun j hj =>
      ih j (Json.sizeOf_value_lt (Json.mem_of_member? hj)) hs hs' hlike (hvalue j hj)⟩
  · have hundeclared' : ∀ m ∈ dataMembers ms, m.1.name ≠ f.1 := by
      intro m hm
      obtain ⟨m', hm', halike, -⟩ := exists_dataMember hms hm
      rw [halike.name]
      exact hundeclared m' hm'
    -- the first signature that admits the key stands at the same place in both lists
    obtain ⟨before', after', heq, hadmits, hnot⟩ := hx'
    rw [heq] at his
    obtain ⟨before, x, after, rfl, hx, hadmits', hnot'⟩ :=
      forall₂_first (R := flip (IndexAlike (Like s s'))) (Q := fun x => u.AdmitsKey s x.key f.1)
        (fun x' x hx => (hx.key.admitsKey_iff hs.sound hs'.sound).symm) his.flip hadmits hnot
    exact ih f.2 (Json.sizeOf_value_lt hf) hs hs' hx.value
      (h.2 f hf hundeclared' x ⟨before, after, rfl, hadmits', hnot'⟩)

theorem fits_of_like (hcircular : ∀ n, ¬ u.Circular n) (ih : u.CarriesBelow v) (hs : u.Ready s)
    (hs' : u.Ready s') (h : Like s s' t t') (ht : u.Fits s v t) : u.Fits s' v t' := by
  cases v with
  | null => exact ht
  | bool | number | string => exact h.isOfForm hs.sound hs'.sound ht
  | array items =>
    obtain ⟨x, hx, hitems⟩ := ht
    obtain ⟨x', hx', hlike⟩ := h.element? hx
    exact ⟨x', hx', fun j hj => ih j (Json.sizeOf_item_lt hj) hs hs' hlike (hitems j hj)⟩
  | object fields =>
    rcases ht with hform | ⟨hstructure, ms, is, s₁, hexposes, hne, hfit⟩
    · exact .inl (h.isOfForm hs.sound hs'.sound hform)
    · have hstructure' := h.isStructure hstructure
      obtain ⟨ms', is', s₁', hexposes'⟩ := hs'.answers s' .refl t' hstructure'
      have hs₁ := hs.exposed hstructure hexposes
      have hs₁' := hs'.exposed hstructure' hexposes'
      obtain ⟨hext, hmembers, hindexes⟩ := hs.assembled hstructure hexposes
      obtain ⟨hext', hmembers', hindexes'⟩ := hs'.assembled hstructure' hexposes'
      -- what the two types list is alike in the tables that the questions leave behind
      have hlike := h.extends_both hext hext'
      have hsettled := settled_of_reaches hs₁.reached hcircular
      have hsettled' := settled_of_reaches hs₁'.reached hcircular
      have hms : MembersAlike (Like s₁ s₁') ms ms' :=
        assembled_like hsettled hsettled' hmembers hlike hmembers'
      have his : List.Forall₂ (IndexAlike (Like s₁ s₁')) is is' :=
        assembled_like hsettled hsettled' hindexes hlike hindexes'
      refine .inr ⟨hstructure', ms', is', s₁', hexposes', ?_,
        fieldsFit_of_like ih hs₁ hs₁' hms his hfit⟩
      rcases hne with hne | hne
      · obtain ⟨m, hm⟩ := List.exists_mem_of_ne_nil _ hne
        obtain ⟨m', hm', -⟩ := exists_dataMember hms hm
        exact .inl (List.ne_nil_of_mem hm')
      · exact .inr ((forall₂_ne_nil_iff his).1 hne)

theorem inhabits_of_like (hcircular : ∀ n, ¬ u.Circular n) (v : Json) {s s' : Interner}
    {t t' : TypeId} (hs : u.Ready s) (hs' : u.Ready s') (h : Like s s' t t')
    (ht : u.Inhabits s v t) : u.Inhabits s' v t' := by
  by_cases hv : v = .null
  · subst hv
    rw [inhabits_null, isNullable_iff hs.sound h.has] at ht
    rw [inhabits_null, isNullable_iff hs'.sound h.symm.has]
    obtain ⟨r, hr, hnull⟩ := ht
    obtain ⟨r', hr', hlike⟩ := h.leaves hs.sound hs'.sound hr
    refine ⟨r', hr', ?_⟩
    rw [Interner.isNull, beq_iff_eq] at hnull ⊢
    exact hlike.intrinsic? hnull
  · rw [inhabits_iff_fits hv] at ht ⊢
    obtain ⟨r, hr, hfits⟩ := ht
    obtain ⟨r', hr', hlike⟩ := h.leaves hs.sound hs'.sound hr
    exact ⟨r', hr', fits_of_like hcircular
      (fun j _ _ _ _ _ hs hs' hlike hj => inhabits_of_like hcircular j hs hs' hlike hj)
      hs hs' hlike hfits⟩
termination_by sizeOf v

/-- **The same data belongs to types that are alike**, be it in one table or in two. -/
theorem inhabits_iff_of_like (hcircular : ∀ n, ¬ u.Circular n) (hs : u.Ready s) (hs' : u.Ready s')
    (h : Like s s' t t') (v : Json) : u.Inhabits s v t ↔ u.Inhabits s' v t' :=
  ⟨inhabits_of_like hcircular v hs hs' h, inhabits_of_like hcircular v hs' hs h.symm⟩

theorem inhabits_iff_of_leaves (hcircular : ∀ n, ¬ u.Circular n) (hs : u.Ready s) (ht : s.Has t)
    (ht' : s.Has t') (h : Setwise (Like s s) (u.leaves s t) (u.leaves s t')) :
    u.Inhabits s v t ↔ u.Inhabits s v t' := by
  rw [inhabits_iff_leaf hs.sound ht, inhabits_iff_leaf hs.sound ht']
  constructor
  · rintro ⟨r, hr, hv⟩
    obtain ⟨r', hr', hlike⟩ := h.1 r hr
    exact ⟨r', hr', (inhabits_iff_of_like hcircular hs hs hlike v).1 hv⟩
  · rintro ⟨r', hr', hv⟩
    obtain ⟨r, hr, hlike⟩ := h.2 r' hr'
    exact ⟨r, hr, (inhabits_iff_of_like hcircular hs hs hlike v).2 hv⟩

end Values

/-! ## A test for ready tables

Readiness speaks of all tables that questions lead to.  If everything that can be listed is
kept already, and nothing takes over from anything, then questions change nothing, and the
table at hand is all that has to be looked at. -/

/-- Asks for what the types list, one after the other. -/
def listAll (u : Universe) (fuel : Nat) : List TypeId → Session Unit
  | [] => pure ()
  | t :: ts => do
    let _ ← u.members fuel t
    let _ ← u.indexes fuel t
    u.listAll fuel ts

theorem list_reaches {fuel : Nat} {k : Listing} {l : List k.Item}
    (hrun : u.list fuel k t s = some (l, s')) : u.Reaches s s' := by
  by_cases ht : s.Has t
  · cases k with
    | members => exact .single (.members ht hrun)
    | indexes => exact .single (.indexes ht hrun)
  · rw [list_of_not_has ht fuel k hrun]
    exact .refl

theorem listAll_reaches {fuel : Nat} : ∀ {ts : List TypeId} {s s' : Interner},
    u.listAll fuel ts s = some ((), s') → u.Reaches s s'
  | [], _, _, hrun => by
    cases hrun
    exact .refl
  | t :: ts, s, s', hrun => by
    obtain ⟨ms, s₁, hmembers, hrun⟩ := bind_eq_some.1 hrun
    obtain ⟨is, s₂, hindexes, hrun⟩ := bind_eq_some.1 hrun
    have h₁ : u.Reaches s s₁ := list_reaches (k := .members) hmembers
    have h₂ : u.Reaches s₁ s₂ := list_reaches (k := .indexes) hindexes
    exact (h₁.trans h₂).trans (listAll_reaches hrun)

/-- A test of one type: what it lists is known, and it takes nothing over from others. -/
def isListedAlone (u : Universe) (s : Interner) (t : TypeId) : Bool :=
  (s.members? t).isSome && (s.indexes? t).isSome &&
    match u.interface? (s.data t), s.data t with
    | some (_, bases, _, _), _ => bases.isEmpty
    | none, .object _ (.intersection parts) => parts.isEmpty
    | none, _ => true

theorem ready_of_isListedAlone (h : u.Reaches u.start s)
    (htypes : (List.range s.slots.size).all (fun i => u.isListedAlone s ⟨i⟩) = true) : u.Ready s := by
  have hat : ∀ t, s.Has t → u.isListedAlone s t = true := fun t ht =>
    List.all_eq_true.1 htypes t.index (List.mem_range.2 ht)
  have hexposes : ∀ t, u.IsStructure (s.data t) → ∃ ms is,
      ∀ ms' is' s', u.Exposes s t ms' is' s' ↔ ms' = ms ∧ is' = is ∧ s' = s := by
    intro t ht
    have htest := hat t ht.has
    simp only [isListedAlone, Bool.and_eq_true] at htest
    obtain ⟨ms, hms⟩ := Option.isSome_iff_exists.1 htest.1.1
    obtain ⟨is, his⟩ := Option.isSome_iff_exists.1 htest.1.2
    exact ⟨ms, is, fun _ _ _ => exposes_iff_of_kept hms his⟩
  have hsame : ∀ s', u.Unfolds s s' → s' = s := by
    intro s' hs'
    induction hs' with
    | refl => rfl
    | tail _ hstep ih =>
      subst ih
      obtain ⟨t, ms, is, ht, hexposed⟩ := hstep
      obtain ⟨_, _, hiff⟩ := hexposes t ht
      exact ((hiff _ _ _).1 hexposed).2.2
  have halone : ∀ t b, ¬ u.Inherits s t b := by
    intro t b hinherits
    have ht : s.Has t := by
      refine Interner.has_of_data_ne fun hopen => ?_
      cases hinherits with
      | base hinterface => rw [hopen] at hinterface; cases hinterface
      | part hdata => rw [hopen] at hdata; cases hdata
    have htest := hat t ht
    simp only [isListedAlone, Bool.and_eq_true] at htest
    cases hinherits with
    | base hinterface he =>
      rw [hinterface] at htest
      rw [List.isEmpty_iff.1 htest.2] at he
      cases he
    | part hdata hb =>
      rw [hdata] at htest
      rw [List.isEmpty_iff.1 htest.2] at hb
      cases hb
  refine ⟨h, fun s' hs' t ht => ?_, fun s' hs' ⟨t, hcycle⟩ => ?_⟩
  · obtain rfl := hsame s' hs'
    obtain ⟨ms, is, hiff⟩ := hexposes t ht
    exact ⟨ms, is, s', (hiff ms is s').2 ⟨rfl, rfl, rfl⟩⟩
  · obtain rfl := hsame s' hs'
    obtain ⟨b, hinherits, -⟩ := Relation.TransGen.head'_iff.1 hcycle
    exact halone t b hinherits

end Universe
end TypedJson
