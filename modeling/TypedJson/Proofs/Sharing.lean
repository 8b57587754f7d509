import TypedJson.Proofs.BackReferences
/-!
# Types that share a node

A pass makes one node for all types of one key.  If the keys are cut short at unions that stand
across from one another, the same data belongs to such types (`inhabits_iff_of_keys`), as with
two instances of a generic alias that comes back to itself as it is (`pairUniverse_shared`).
Else it need not: an alias that comes back to itself with other arguments shares a node with a
type of other data (`boxUniverse_shared`).

The key of a type is read off along its parts and stops where a union comes back to itself,
so equal keys say that two types look alike as far as the keys go.  What lies behind a cut is
looked up in the unions around it.  If the cuts of the two keys are at unions that stand
across from one another, the comparison can be closed there, and the types are alike all the
way down (`leaves_like`); that types which are alike have the same data was shown before.
-/
namespace TypedJson
namespace Universe

variable {u : Universe} {s : Interner}

section Keys

variable {a b : TypeId} {key key' : TypeKey}

theorem leaves_like (hs : u.Settled s) (ha : s.Has a) (hb : s.Has b) (hleaf : u.leaves s a ≠ [])
    (hleaf' : u.leaves s b ≠ []) (hkey : u.KeyAt s a key s) (hkey' : u.KeyAt s b key' s)
    (hsame : TypeKey.Same key key') (hback : u.BackReferencesAgree s a b) :
    Setwise (Like s s) (u.leaves s a) (u.leaves s b) := by
  have hlike : ∀ {r r'}, r ∈ u.leaves s a → r' ∈ u.leaves s b → SameWithin s [] r r' →
      Like s s r r' := fun hr hr' h =>
    .of_derived hs hs (fun _ _ => across_alike hs ha hb hback) (.base (.inr ⟨[], .leaf hr hr' h⟩))
  refine ⟨fun r hr => ?_, fun r' hr' => ?_⟩
  · obtain ⟨r', hr', h⟩ := exists_keyed_leaf hs.kept.sound ha hb hleaf' hkey hkey' hsame r hr
    exact ⟨r', hr', hlike hr hr' h⟩
  · obtain ⟨r, hr, k', k, hk', hk, h⟩ :=
      exists_keyed_leaf hs.kept.sound hb ha hleaf hkey' hkey hsame.symm r' hr'
    exact ⟨r, hr, hlike hr hr' ⟨k, k', hk, hk', h.symm⟩⟩

/-- **Types of equal keys have the same data** if every union that comes back to itself is an
alias without type parameters. -/
theorem inhabits_iff_of_plainRecursion (hs : u.Ready s) (hcircular : ∀ n, ¬ u.Circular n)
    (ha : s.Has a) (hb : s.Has b) (hleaf : u.leaves s a ≠ []) (hleaf' : u.leaves s b ≠ [])
    (hkey : u.KeyAt s a key s) (hkey' : u.KeyAt s b key' s) (hsame : TypeKey.Same key key')
    (hplain : PlainRecursion s) (v : Json) : u.Inhabits s v a ↔ u.Inhabits s v b := by
  have hsettled := settled_of_reaches hs.reached hcircular
  have hback := backReferencesAgree_of_plain hsettled.kept ha hb hplain
  exact inhabits_iff_of_leaves hcircular hs ha hb
    (leaves_like hsettled ha hb hleaf hleaf' hkey hkey' hsame hback)

/-- **Types of equal keys have the same data** if their keys are cut short at unions that stand
across from one another. -/
theorem inhabits_iff_of_keys (hs : u.Ready s) (hcircular : ∀ n, ¬ u.Circular n) (ha : s.Has a)
    (hb : s.Has b) (hleaf : u.leaves s a ≠ []) (hleaf' : u.leaves s b ≠ [])
    (hkey : u.KeyAt s a key s) (hkey' : u.KeyAt s b key' s) (hsame : TypeKey.Same key key')
    (hback : u.BackReferencesAgree s a b) (v : Json) : u.Inhabits s v a ↔ u.Inhabits s v b :=
  inhabits_iff_of_leaves hcircular hs ha hb (leaves_like (settled_of_reaches hs.reached hcircular)
    ha hb hleaf hleaf' hkey hkey' hsame hback)

end Keys

/-- One unit: a generic alias of a union that comes back to itself in a box, and two instances of
it with the arguments in either order. -/
def pairUniverse : Universe where
  units := [⟨"pair.ts", [
    { name := "Box", exported := false, line := none, typeParams := ["T"]
      body := .interface [] [⟨"v", false, false, some (.name "T")⟩] [] },
    { name := "P", exported := false, line := none, typeParams := ["A", "B"]
      body := .typeAlias (.union [.name "A", .name "B",
        .generic "Box" [.generic "P" [.name "A", .name "B"]]]) },
    { name := "Holder", exported := true, line := none, typeParams := []
      body := .interface []
        [⟨"a", false, false, some (.generic "P" [.name "string", .name "number"])⟩,
          ⟨"b", false, false, some (.generic "P" [.name "number", .name "string"])⟩] [] }]⟩]
  distinct := by decide

/-- The pairs of the two instances, at the top and within the instances themselves. -/
def pairMet : List (List (TypeId × TypeId) × TypeId × TypeId) :=
  [[], [(⟨6⟩, ⟨8⟩)]].flatMap fun pairs =>
    (pairs, ⟨6⟩, ⟨8⟩) :: ([⟨4⟩, ⟨5⟩, ⟨7⟩].product [⟨5⟩, ⟨4⟩, ⟨9⟩]).map fun p => (pairs, p)

/-- What the types list is asked first and the keys of the two instances after that. -/
def pairRun : Option (Interner × TypeKey × TypeKey × Interner) := do
  let (_, s) ← pairUniverse.exportedTypes 9 pairUniverse.start
  let (_, s) ← pairUniverse.listAll 9 (⟨3⟩ :: (List.range 10).map fun i => ⟨i⟩) s
  let (key, s₁) ← pairUniverse.keyOfBranches 9 (pairUniverse.leaves s ⟨6⟩) s
  let (key', s₂) ← pairUniverse.keyOfBranches 9 (pairUniverse.leaves s₁ ⟨8⟩) s₁
  pure (s, key, key', s₂)

/-- **Two instances that share a node.**  Their keys are equal as the branches of a union count
in any order, and both are cut short where the instances come back to themselves. -/
theorem pairUniverse_shared : ∃ s a b, a ≠ b ∧ pairUniverse.Ready s ∧
    (∃ key key', pairUniverse.KeyAt s a key s ∧ pairUniverse.KeyAt s b key' s ∧
      key.isEqual key' = true) ∧
    pairUniverse.BackReferencesAgree s a b ∧
    ∀ v, pairUniverse.Inhabits s v a ↔ pairUniverse.Inhabits s v b := by
  have hrun : (pairRun.map fun (s, key, key', s₂) =>
      decide (s.slots.size = 10 ∧ key.isEqual key' = true ∧ pairUniverse.leaves s₂ ⟨6⟩ ≠ [] ∧
        pairUniverse.leaves s₂ ⟨8⟩ ≠ [] ∧
        (List.range s₂.slots.size).all (fun i => pairUniverse.isListedAlone s₂ ⟨i⟩) = true ∧
        pairUniverse.CoversMet s₂ ⟨6⟩ ⟨8⟩ pairMet)) = some true := by decide +kernel
  obtain ⟨⟨s, key, key', s₂⟩, hpair, hfacts⟩ := Option.map_eq_some_iff.1 hrun
  obtain ⟨hsize, hsame, hleaf, hleaf', hlisted, hcovers⟩ := of_decide_eq_true hfacts
  unfold pairRun at hpair
  obtain ⟨⟨ts, s₀⟩, hexported, hpair⟩ := Option.bind_eq_some_iff.1 hpair
  obtain ⟨⟨_, s⟩, hlist, hpair⟩ := Option.bind_eq_some_iff.1 hpair
  obtain ⟨⟨key, s₁⟩, hkey, hpair⟩ := Option.bind_eq_some_iff.1 hpair
  obtain ⟨⟨key', s₂⟩, hkey', hpair⟩ := Option.bind_eq_some_iff.1 hpair
  cases hpair
  have hhas : s.Has ⟨6⟩ ∧ s.Has ⟨8⟩ := by
    unfold Interner.Has
    rw [hsize]
    decide
  -- the keys were asked for one after the other, but both last
  have hreach : pairUniverse.Reaches pairUniverse.start s :=
    .head (.exported hexported) (listAll_reaches hlist)
  have hs := (kept_of_reaches hreach).sound
  have hkeyAt : pairUniverse.KeyAt s ⟨6⟩ key s₁ := ⟨9, hkey⟩
  have hasks := hkeyAt.asks hs hhas.1
  have hs₁ := (asks_grown hs hasks).sound
  have hkeyAt' : pairUniverse.KeyAt s₁ ⟨8⟩ key' s₂ := ⟨9, hkey'⟩
  have hhas' := (asks_grown hs hasks).has hhas.2
  have hasks' := hkeyAt'.asks hs₁ hhas'
  have hgrown := asks_grown hs₁ hasks'
  have hnow := hkeyAt.lasts hs hhas.1 (.single hasks')
  have hnow' := hkeyAt'.lasts hs₁ hhas' .refl
  have hready : pairUniverse.Ready s₂ :=
    ready_of_isListedAlone ((hreach.tail hasks).tail hasks') hlisted
  have hcircular : ∀ n, ¬ pairUniverse.Circular n := not_circular (by decide)
  have hback := hcovers.backReferencesAgree
  have hhas₂ := hgrown.has ((asks_grown hs hasks).has hhas.1)
  exact ⟨s₂, ⟨6⟩, ⟨8⟩, by decide, hready, ⟨key, key', hnow, hnow', hsame⟩, hback,
    inhabits_iff_of_keys hready hcircular hhas₂ (hgrown.has hhas') hleaf hleaf' hnow hnow' hsame hback⟩

/-! ## Boxes within boxes

The failing case is an alias of a union that comes back to itself with its arguments the
other way round.  Applied to two types it alternates between them, and the cut in its key
does not say so: a type that begins in the same way, and then goes on with the second
argument alone, has an equal key.  A value tells them apart at the third box. -/

theorem inhabits_intrinsic_iff (hs : u.Sound s) {t : TypeId} {i : Intrinsic}
    (hi : s.intrinsic? t = some i) {v : Json} (hv : v ≠ .null) (harray : ∀ js, v ≠ .array js) :
    u.Inhabits s v t ↔ Scalar.matchesPrimitive i.name v = true := by
  have hdata := TypeData.intrinsic?_eq_some_iff.1 hi
  have ht : s.Has t := Interner.has_of_data_ne (by rw [hdata]; simp)
  have hunion : s.union? t = none := by
    rw [Interner.union?, hdata]
    rfl
  have hform : u.IsOfForm s v t ↔ Scalar.matchesPrimitive i.name v = true := by
    simp [IsOfForm, Lists, isEnum, originOf?, Interner.literal?, hi, hdata,
      TypeData.instance?, TypeData.literal?]
  rw [inhabits_iff_fits hv, leaves_of_not_union hs ht hunion]
  cases v with
  | null => exact absurd rfl hv
  | array js => exact absurd rfl (harray js)
  | object fields => simp [Fits, hform, hdata, IsStructure]
  | bool | number | string => simp [Fits, hform]

/-- An interface of which one required member is kept and nothing else. -/
structure IsWrapper (u : Universe) (s : Interner) (t : TypeId) (name : String) (x : TypeId) :
    Prop where
  data : ∃ id args d, s.data t = .form (.reference ⟨.declared id, args⟩) ∧
    u.declaration? id = some d ∧ DeclarationBody.kind d.body = .interface
  members : s.members? t = some [⟨name, false, some x⟩]
  indexes : s.indexes? t = some []

namespace IsWrapper

variable {t x : TypeId} {name : String}

theorem leaves (h : u.IsWrapper s t name x) (hs : u.Sound s) : u.leaves s t = [t] := by
  obtain ⟨id, args, d, hdata, -⟩ := h.data
  have ht : s.Has t := Interner.has_of_data_ne (by rw [hdata]; simp)
  refine leaves_of_not_union hs ht ?_
  rw [Interner.union?, hdata]
  rfl

theorem not_isOfForm (h : u.IsWrapper s t name x) (v : Json) : ¬ u.IsOfForm s v t := by
  obtain ⟨id, args, d, hdata, hd, hkind⟩ := h.data
  simp [IsOfForm, Lists, isEnum, originOf?, Interner.literal?, Interner.intrinsic?, hdata,
    TypeData.instance?, TypeData.literal?, TypeData.intrinsic?, origin?, hd, hkind]

theorem inhabits_object_iff (h : u.IsWrapper s t name x) (hs : u.Sound s) (j : Json) :
    u.Inhabits s (.object [(name, j)]) t ↔ u.Inhabits s j x := by
  obtain ⟨id, args, d, hdata, hd, hkind⟩ := h.data
  have hstructure : u.IsStructure (s.data t) := by
    rw [hdata]
    exact ⟨id, d, rfl, hd, hkind⟩
  rw [inhabits_iff_fits (by simp), h.leaves hs]
  simp only [List.mem_singleton, exists_eq_left, Fits, h.not_isOfForm, hstructure, true_and,
    false_or, exposes_iff_of_kept h.members h.indexes]
  constructor
  · rintro ⟨_, _, _, ⟨rfl, rfl, rfl⟩, -, hmembers, -⟩
    exact (hmembers (⟨name, false, some x⟩, x) List.mem_cons_self).2 j (by simp [Json.member?])
  · intro hj
    refine ⟨_, _, _, ⟨rfl, rfl, rfl⟩, .inl (by simp [dataMembers]), ?_, ?_⟩
    · intro m hm
      obtain rfl : m = (⟨name, false, some x⟩, x) := by simpa [dataMembers] using hm
      refine ⟨by simp [Json.member?], fun j' hj' => ?_⟩
      obtain rfl : j = j' := by simpa [Json.member?] using hj'
      exact hj
    · rintro f - - y ⟨before, after, heq, -⟩
      simp at heq

theorem not_inhabits_string (h : u.IsWrapper s t name x) (hs : u.Sound s) (text : String) :
    ¬ u.Inhabits s (.string text) t := by
  rw [inhabits_iff_fits (by simp), h.leaves hs]
  simp [Fits, h.not_isOfForm]

end IsWrapper

/-- One unit: a generic alias of a union that comes back to itself in a box, with its arguments
the other way round. -/
def boxUniverse : Universe where
  units := [⟨"box.ts", [
    { name := "Box", exported := false, line := none, typeParams := ["T"]
      body := .interface [] [⟨"v", false, false, some (.name "T")⟩] [] },
    { name := "P", exported := false, line := none, typeParams := ["A", "B"]
      body := .typeAlias (.union [.name "A",
        .generic "Box" [.generic "P" [.name "B", .name "A"]]]) },
    { name := "Y", exported := false, line := none, typeParams := []
      body := .typeAlias (.union [.name "string",
        .generic "Box" [.generic "P" [.name "number", .name "number"]]]) },
    { name := "Holder", exported := true, line := none, typeParams := []
      body := .interface []
        [⟨"a", false, false, some (.generic "Box" [.generic "P" [.name "string", .name "number"]])⟩,
          ⟨"b", false, false, some (.generic "Box" [.name "Y"])⟩] [] }]⟩]
  distinct := by decide

/-- The pass over the boxes, and then what those list of which the pass did not ask it. -/
def boxRun : Option (Trace × Interner) := do
  let trace ← boxUniverse.tracedSchema? 12
  let (_, s) ← boxUniverse.listAll 3 [⟨12⟩, ⟨13⟩] trace.types
  pure (trace, s)

/-- A box of a box of a box. -/
def boxedBoxes : Json := .object [("v", .object [("v", .object [("v", .string "s")])])]

/-- What the table says of the types of the boxes. -/
structure BoxTable (s : Interner) : Prop where
  size : s.slots.size = 14
  string : s.intrinsic? ⟨4⟩ = some .string
  number : s.intrinsic? ⟨5⟩ = some .number
  leaves : [6, 7, 10, 11].map (fun i => (boxUniverse.leaves s ⟨i⟩).map (·.index)) =
    [[4, 9], [5, 8], [4, 12], [5, 12]]
  boxes : [6, 7, 10, 11].map (fun i => (s.find? (.reference ⟨.declared ⟨0, 0⟩, [⟨i⟩]⟩)).map (·.index)) =
    [some 8, some 9, some 13, some 12]
  members : [8, 9, 13, 12].map (fun i => (s.members? ⟨i⟩, s.indexes? ⟨i⟩)) =
    [6, 7, 10, 11].map fun i => (some [⟨"v", false, some ⟨i⟩⟩], some [])
  unions : ∀ i < 14, (s.union? ⟨i⟩).isSome = true → boxUniverse.leaves s ⟨i⟩ ≠ []

instance (s : Interner) : Decidable (BoxTable s) :=
  decidable_of_iff (_ ∧ _ ∧ _ ∧ _ ∧ _ ∧ _ ∧ _)
    ⟨fun ⟨h₁, h₂, h₃, h₄, h₅, h₆, h₇⟩ => ⟨h₁, h₂, h₃, h₄, h₅, h₆, h₇⟩,
      fun ⟨h₁, h₂, h₃, h₄, h₅, h₆, h₇⟩ => ⟨h₁, h₂, h₃, h₄, h₅, h₆, h₇⟩⟩

namespace BoxTable

theorem isWrapper (h : BoxTable s) {i t : Nat}
    (hi : (i, t) ∈ [(6, 8), (7, 9), (10, 13), (11, 12)]) :
    boxUniverse.IsWrapper s ⟨t⟩ "v" ⟨i⟩ := by
  have hboxes := h.boxes
  have hmembers := h.members
  simp only [List.map_cons, List.map_nil, List.cons.injEq, Prod.mk.injEq, and_true] at hboxes hmembers
  have hbox : (s.find? (.reference ⟨.declared ⟨0, 0⟩, [⟨i⟩]⟩)).map (·.index) = some t ∧
      s.members? ⟨t⟩ = some [⟨"v", false, some ⟨i⟩⟩] ∧ s.indexes? ⟨t⟩ = some [] := by
    simp only [List.mem_cons, Prod.mk.injEq, List.not_mem_nil, or_false] at hi
    rcases hi with ⟨rfl, rfl⟩ | ⟨rfl, rfl⟩ | ⟨rfl, rfl⟩ | ⟨rfl, rfl⟩
    · exact ⟨hboxes.1, hmembers.1⟩
    · exact ⟨hboxes.2.1, hmembers.2.1⟩
    · exact ⟨hboxes.2.2.1, hmembers.2.2.1⟩
    · exact ⟨hboxes.2.2.2, hmembers.2.2.2⟩
  obtain ⟨x, hfind, rfl⟩ := Option.map_eq_some_iff.1 hbox.1
  exact ⟨⟨_, _, _, (Interner.data_of_find? hfind).2, rfl, rfl⟩, hbox.2.1, hbox.2.2⟩

/-- A box within a union of something else and a box. -/
theorem inhabits_iff (h : BoxTable s) (hs : boxUniverse.Sound s) {i x y : Nat}
    (hi : (i, x, y) ∈ [(6, 4, 9), (7, 5, 8), (10, 4, 12), (11, 5, 12)]) (v : Json) :
    boxUniverse.Inhabits s v ⟨i⟩ ↔ boxUniverse.Inhabits s v ⟨x⟩ ∨ boxUniverse.Inhabits s v ⟨y⟩ := by
  have hleaves := h.leaves
  simp only [List.map_cons, List.map_nil, List.cons.injEq, and_true] at hleaves
  have hlist : (boxUniverse.leaves s ⟨i⟩).map (·.index) = [x, y] ∧ i < 14 := by
    simp only [List.mem_cons, Prod.mk.injEq, List.not_mem_nil, or_false] at hi
    rcases hi with ⟨rfl, rfl, rfl⟩ | ⟨rfl, rfl, rfl⟩ | ⟨rfl, rfl, rfl⟩ | ⟨rfl, rfl, rfl⟩
    · exact ⟨hleaves.1, by decide⟩
    · exact ⟨hleaves.2.1, by decide⟩
    · exact ⟨hleaves.2.2.1, by decide⟩
    · exact ⟨hleaves.2.2.2, by decide⟩
  have hpair : boxUniverse.leaves s ⟨i⟩ = [⟨x⟩, ⟨y⟩] :=
    List.map_injective_iff.2 TypeId.index_injective hlist.1
  have ht : s.Has ⟨i⟩ := by
    show i < s.slots.size
    rw [h.size]
    exact hlist.2
  rw [inhabits_iff_leaf hs ht, hpair]
  simp

/-- The text lies three boxes deep, where the first alias is back to its first argument. -/
theorem inhabits_boxedBoxes (h : BoxTable s) (hs : boxUniverse.Sound s) :
    boxUniverse.Inhabits s boxedBoxes ⟨8⟩ := by
  have htext : boxUniverse.Inhabits s (.string "s") ⟨4⟩ :=
    (inhabits_intrinsic_iff hs h.string (by simp) (by simp)).2 rfl
  have hinner := ((h.isWrapper (i := 6) (t := 8) (by simp)).inhabits_object_iff hs _).2
    ((h.inhabits_iff hs (i := 6) (x := 4) (y := 9) (by simp) _).2 (.inl htext))
  have hmiddle := ((h.isWrapper (i := 7) (t := 9) (by simp)).inhabits_object_iff hs _).2
    ((h.inhabits_iff hs (i := 7) (x := 5) (y := 8) (by simp) _).2 (.inr hinner))
  exact ((h.isWrapper (i := 6) (t := 8) (by simp)).inhabits_object_iff hs _).2
    ((h.inhabits_iff hs (i := 6) (x := 4) (y := 9) (by simp) _).2 (.inr hmiddle))

/-- Within the second alias there are numbers and boxes only. -/
theorem not_inhabits_boxedBoxes (h : BoxTable s) (hs : boxUniverse.Sound s) :
    ¬ boxUniverse.Inhabits s boxedBoxes ⟨13⟩ := by
  have hbox := h.isWrapper (i := 11) (t := 12) (by simp)
  have htext : ¬ boxUniverse.Inhabits s (.string "s") ⟨11⟩ := by
    rw [h.inhabits_iff hs (i := 11) (x := 5) (y := 12) (by simp),
      inhabits_intrinsic_iff hs h.number (by simp) (by simp)]
    rintro (h | h)
    · cases h
    · exact hbox.not_inhabits_string hs "s" h
  have hinner : ¬ boxUniverse.Inhabits s (.object [("v", .string "s")]) ⟨11⟩ := by
    rw [h.inhabits_iff hs (i := 11) (x := 5) (y := 12) (by simp),
      inhabits_intrinsic_iff hs h.number (by simp) (by simp), hbox.inhabits_object_iff hs]
    rintro (h | h)
    · cases h
    · exact htext h
  have hmiddle : ¬ boxUniverse.Inhabits s (.object [("v", .object [("v", .string "s")])]) ⟨10⟩ := by
    rw [h.inhabits_iff hs (i := 10) (x := 4) (y := 12) (by simp),
      inhabits_intrinsic_iff hs h.string (by simp) (by simp), hbox.inhabits_object_iff hs]
    rintro (h | h)
    · cases h
    · exact hinner h
  rw [boxedBoxes, (h.isWrapper (i := 10) (t := 13) (by simp)).inhabits_object_iff hs]
  exact hmiddle

end BoxTable

/-- **Types that share a node need not have the same data.**  The boxes of the two aliases have
equal keys and one node, but the box within the box within the box holds a text in the one case
and a number in the other. -/
theorem boxUniverse_shared : ∃ tr, boxUniverse.Pass tr ∧
    (∀ t, (tr.types.union? t).isSome = true → boxUniverse.leaves tr.types t ≠ []) ∧
    ∃ c ∈ tr.calls, ∃ d ∈ tr.calls, c.id = d.id ∧
      (∃ key key', boxUniverse.KeyAt tr.types c.type key tr.types ∧
        boxUniverse.KeyAt tr.types d.type key' tr.types ∧ key.isEqual key' = true) ∧
      boxUniverse.Inhabits tr.types boxedBoxes c.type ∧
      ¬ boxUniverse.Inhabits tr.types boxedBoxes d.type := by
  have hrun : (boxRun.map fun r =>
      (r.1.calls.map (fun c => (c.type, c.id)), decide (BoxTable r.2))) =
      some ([(⟨3⟩, ⟨0⟩), (⟨13⟩, ⟨1⟩), (⟨8⟩, ⟨1⟩), (⟨6⟩, ⟨2⟩), (⟨9⟩, ⟨4⟩), (⟨7⟩, ⟨5⟩), (⟨8⟩, ⟨1⟩),
        (⟨5⟩, ⟨6⟩), (⟨4⟩, ⟨3⟩)], true) := by decide +kernel
  obtain ⟨⟨tr, s⟩, hboxes, hfacts⟩ := Option.map_eq_some_iff.1 hrun
  simp only [Prod.mk.injEq, decide_eq_true_eq] at hfacts
  obtain ⟨hcalls, htable⟩ := hfacts
  unfold boxRun at hboxes
  obtain ⟨tr', htr, hboxes⟩ := Option.bind_eq_some_iff.1 hboxes
  obtain ⟨⟨_, s'⟩, hlist, hboxes⟩ := Option.bind_eq_some_iff.1 hboxes
  cases hboxes
  have hpass' : boxUniverse.Pass (tr.withTypes s) :=
    (pass_of_tracedSchema? htr).ask (listAll_reaches hlist)
  have hcoherent := hpass'.coherent.1
  have hs : boxUniverse.Sound s := hcoherent.sound
  -- the calls for the two boxes
  have hc : ((⟨8⟩ : TypeId), (⟨1⟩ : NodeId)) ∈ tr.calls.map (fun c => (c.type, c.id)) := by
    rw [hcalls]; decide
  have hd : ((⟨13⟩ : TypeId), (⟨1⟩ : NodeId)) ∈ tr.calls.map (fun c => (c.type, c.id)) := by
    rw [hcalls]; decide
  obtain ⟨c, hc, hcid⟩ := List.mem_map.1 hc
  obtain ⟨d, hd, hdid⟩ := List.mem_map.1 hd
  obtain ⟨hctype, hcid⟩ := Prod.mk.inj hcid
  obtain ⟨hdtype, hdid⟩ := Prod.mk.inj hdid
  have hid : c.id = d.id := hcid.trans hdid.symm
  refine ⟨tr.withTypes s, hpass', ?_, c, hc, d, hd, hid, ?_, ?_, ?_⟩
  · intro t ht
    have hhas : s.Has t := by
      by_contra hnot
      have ht : (s.union? t).isSome = true := ht
      rw [Interner.union?, Interner.data_of_not_has hnot] at ht
      cases ht
    refine htable.unions t.index ?_ ht
    rw [← htable.size]
    exact hhas
  · obtain ⟨key, hkey, -⟩ := (hcoherent.calls c hc).key_now
    obtain ⟨key', hkey', -⟩ := (hcoherent.calls d hd).key_now
    exact ⟨key, key', hkey, hkey', (hcoherent.id_eq_iff hc hd hkey hkey').1 hid⟩
  · rw [hctype]
    exact htable.inhabits_boxedBoxes hs
  · rw [hdtype]
    exact htable.not_inhabits_boxedBoxes hs

end Universe
end TypedJson
