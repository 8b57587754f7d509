import TypedJson.Proofs.Finished
import TypedJson.Proofs.Verdict
/-!
# Scalars and keys of objects

The literals that a node lists and the text that it is called by decide which scalars and
which object keys it admits.  In a pass over orderly types both say what the type says: a
node of a type without branches admits what the type admits (`OrderlyPass.fitsScalar_iff`,
`OrderlyPass.nodeAdmits_iff`), and the node of a union the literals among its leaves.
-/
namespace TypedJson

theorem Intrinsic.name_injective : ∀ i j : Intrinsic, i.name = j.name → i = j := by
  intro i j
  cases i <;> cases j <;> decide

theorem Intrinsic.name_ne_builtin (i : Intrinsic) : i.name ≠ "Date" ∧ i.name ≠ "RegExp" := by
  cases i <;> decide

theorem Intrinsic.name_of_admitsKey {i : Intrinsic} {key : String} (h : i.AdmitsKey key) :
    i.name ∈ Universe.reservedNames := by
  cases i with
  | string | number | any | unknown => decide
  | _ => cases h

/-- The keys that a node admits by its text are those of an intrinsic type of that name. -/
theorem Check.nodeAdmits_iff (n : SchemaNode) (key : String) :
    Check.nodeAdmits n key = true ↔
      (∃ value ∈ n.allowedValues.values, Check.literalAdmits key value = true) ∨
      ∃ i : Intrinsic, n.displayName = i.name ∧ i.AdmitsKey key := by
  unfold Check.nodeAdmits
  rw [Bool.or_eq_true, List.any_eq_true]
  refine or_congr_right ?_
  constructor
  · intro h
    split at h
    · rename_i hname
      exact ⟨.string, hname, trivial⟩
    · rename_i hname
      exact ⟨.any, hname, trivial⟩
    · rename_i hname
      exact ⟨.unknown, hname, trivial⟩
    · rename_i hname
      exact ⟨.number, hname, h⟩
    · cases h
  · rintro ⟨i, hname, hadmits⟩
    rw [hname]
    cases i with
    | number => exact hadmits
    | string | any | unknown => rfl
    | _ => cases hadmits

/-- The values that fit a name are those of an intrinsic type, dates or patterns. -/
theorem Scalar.fitsName_iff (name : String) (v : Json) :
    Scalar.FitsName name v ↔
      (∃ i : Intrinsic, name = i.name ∧ Scalar.matchesPrimitive i.name v = true) ∨
      (name = "Date" ∧ (Scalar.dateForm? v).isSome = true) ∨
      (name = "RegExp" ∧ (Scalar.isTaggedPattern v = true ∨ ∃ text, v = .string text)) := by
  unfold Scalar.FitsName
  refine or_congr_left ?_
  constructor
  · intro h
    have hname : name ∈ ["boolean", "string", "number", "bigint"] := by
      unfold Scalar.matchesPrimitive at h
      split at h
      · decide
      · decide
      · decide
      · decide
      · cases h
    simp only [List.mem_cons, List.not_mem_nil, or_false] at hname
    rcases hname with rfl | rfl | rfl | rfl
    · exact ⟨.boolean, rfl, h⟩
    · exact ⟨.string, rfl, h⟩
    · exact ⟨.number, rfl, h⟩
    · exact ⟨.bigint, rfl, h⟩
  · rintro ⟨i, rfl, h⟩
    exact h

theorem Intrinsic.name_of_matchesPrimitive {i : Intrinsic} {v : Json}
    (h : Scalar.matchesPrimitive i.name v = true) : i.name ∈ Universe.reservedNames := by
  have hname := Check.mem_primitiveNames_of_fitsName (.inl h)
  exact List.mem_append_left _ hname

namespace Universe

variable {u : Universe} {tr : Trace} {s : Interner}

/-! ## Leaves

A plain leaf is `null` or a literal.  So its data is known, and with it the answer to every
question about it. -/

theorem literal?_of_isEnum {t : TypeId} (h : u.isEnum s t = true) : s.literal? t = none := by
  unfold isEnum originOf? at h
  unfold Interner.literal?
  cases hdata : s.data t with
  | form f =>
    rw [hdata] at h
    cases f with
    | literal => cases h
    | _ => rfl
  | _ => rfl

theorem isEnum_of_union (hs : u.Sound s) {t : TypeId} (h : (s.union? t).isSome = true) :
    u.isEnum s t = false := by
  rw [Bool.eq_false_iff]
  intro henum
  have hbranches := branches?_eq hs t
  unfold branches? at hbranches
  rw [if_pos henum] at hbranches
  rw [← hbranches] at h
  cases h

namespace IsPlainLeaf

theorem data {r : TypeId} (h : IsPlainLeaf s r) :
    (∃ value, s.data r = .form (.literal value)) ∨ s.data r = .form (.intrinsic .null) := by
  rcases h with h | h
  · obtain ⟨value, hvalue⟩ := Option.ne_none_iff_exists'.1 h
    exact .inl ⟨value, TypeData.literal?_eq_some_iff.1 hvalue⟩
  · exact .inr (Interner.isNull_iff.1 h)

theorem isEnum {r : TypeId} (h : IsPlainLeaf s r) : u.isEnum s r = false := by
  unfold Universe.isEnum originOf?
  rcases h.data with ⟨value, hdata⟩ | hdata
  · rw [hdata]
    rfl
  · rw [hdata]
    rfl

theorem lists_iff {r : TypeId} (h : IsPlainLeaf s r) (value : Literal) :
    u.Lists s r value ↔ s.literal? r = some value := by
  simp [Lists, h.isEnum]

theorem leafAdmits_iff {r : TypeId} (h : IsPlainLeaf s r) (key : String) :
    u.LeafAdmits s r key ↔ ∃ value, s.literal? r = some value ∧ Check.literalAdmits key value = true := by
  unfold LeafAdmits
  simp only [h.lists_iff]
  refine or_iff_left ?_
  rintro ⟨i, hi, hadmits⟩
  rcases h.data with ⟨value, hdata⟩ | hdata
  · rw [Interner.intrinsic?, hdata] at hi
    cases hi
  · rw [Interner.intrinsic?, hdata] at hi
    cases hi
    cases hadmits

theorem isOfForm_iff {r : TypeId} (h : IsPlainLeaf s r) (v : Json) :
    u.IsOfForm s v r ↔ ∃ value, s.literal? r = some value ∧ value.matchesValue v = true := by
  unfold IsOfForm
  simp only [h.lists_iff]
  refine or_iff_left ?_
  rcases h.data with ⟨value, hdata⟩ | hdata
  · simp [Interner.intrinsic?, TypeData.intrinsic?, hdata]
  · simp [Interner.intrinsic?, TypeData.intrinsic?, hdata, Intrinsic.name, Scalar.matchesPrimitive]

end IsPlainLeaf

namespace OrderlyPass

/-! ## Texts

Conversely the display name tells an intrinsic type.  The names of the node and of the leaf
are the same text, and by `isNamed_of_display` a reserved one is borne by its own type only. -/

/-- A node is called by a reserved name exactly if it was made for the type of that name. -/
theorem displayName_eq_iff (h : u.OrderlyPass tr) {f : Call} (hf : f ∈ tr.calls)
    (hfresh : f.IsFresh) {name : String} (hname : name ∈ reservedNames) :
    (tr.table.node f.id).displayName = name ↔ IsNamed tr.types f.type name := by
  obtain ⟨fuel, hlast⟩ := (h.coherent.describes hf hfresh).displayName
  constructor
  · rintro rfl
    exact isNamed_of_display h.orderly h.coherent.sound fuel (h.has hf) hlast.now hname
  · exact fun hnamed => hnamed.display hlast.now

theorem displayName_intrinsic_iff (h : u.OrderlyPass tr) {f : Call} (hf : f ∈ tr.calls)
    (hfresh : f.IsFresh) {i : Intrinsic} (hi : i.name ∈ reservedNames) :
    (tr.table.node f.id).displayName = i.name ↔ tr.types.intrinsic? f.type = some i := by
  rw [h.displayName_eq_iff hf hfresh hi]
  constructor
  · rintro (⟨j, hj, hname⟩ | ⟨-, hname⟩ | ⟨-, hname⟩)
    · rw [hj, Intrinsic.name_injective j i hname]
    · exact absurd hname i.name_ne_builtin.1
    · exact absurd hname i.name_ne_builtin.2
  · exact fun hi => .inl ⟨i, hi, rfl⟩

theorem displayName_date_iff (h : u.OrderlyPass tr) {f : Call} (hf : f ∈ tr.calls)
    (hfresh : f.IsFresh) : (tr.table.node f.id).displayName = "Date" ↔
      tr.types.data f.type = .form (.reference ⟨.builtin .date, []⟩) := by
  rw [h.displayName_eq_iff hf hfresh (by decide)]
  constructor
  · rintro (⟨i, -, hname⟩ | ⟨hdata, -⟩ | ⟨-, hname⟩)
    · exact absurd hname i.name_ne_builtin.1
    · exact hdata
    · exact absurd hname (by decide)
  · exact fun hdata => .inr (.inl ⟨hdata, rfl⟩)

theorem displayName_pattern_iff (h : u.OrderlyPass tr) {f : Call} (hf : f ∈ tr.calls)
    (hfresh : f.IsFresh) : (tr.table.node f.id).displayName = "RegExp" ↔
      tr.types.data f.type = .form (.reference ⟨.builtin .pattern, []⟩) := by
  rw [h.displayName_eq_iff hf hfresh (by decide)]
  constructor
  · rintro (⟨i, -, hname⟩ | ⟨-, hname⟩ | ⟨hdata, -⟩)
    · exact absurd hname i.name_ne_builtin.2
    · exact absurd hname (by decide)
    · exact hdata
  · exact fun hdata => .inr (.inr ⟨hdata, rfl⟩)

theorem displayName_of_union (h : u.OrderlyPass tr) {f : Call} (hf : f ∈ tr.calls)
    (hfresh : f.IsFresh) (hunion : (tr.types.union? f.type).isSome = true) :
    (tr.table.node f.id).displayName ∉ reservedNames := by
  intro hname
  have hnamed := (h.displayName_eq_iff hf hfresh hname).1 rfl
  rw [hnamed.union?] at hunion
  cases hunion

/-! ## Literals -/

theorem mem_allowedValues_leaf (h : u.OrderlyPass tr) {f : Call} (hf : f ∈ tr.calls)
    (hfresh : f.IsFresh) (hunion : tr.types.union? f.type = none) (value : Literal) :
    value ∈ (tr.table.node f.id).allowedValues.values ↔ u.Lists tr.types f.type value := by
  rw [(h.coherent.describes hf hfresh).allowedValues, admittedValues, Lists]
  by_cases henum : u.isEnum tr.types f.type = true
  · rw [if_pos henum, LiteralSet.mem_ofList, literal?_of_isEnum henum]
    simp [henum]
  · rw [if_neg henum, LiteralSet.mem_ofList,
      leaves_of_not_union h.coherent.sound (h.has hf) hunion]
    simp [henum]

theorem mem_allowedValues_union (h : u.OrderlyPass tr) {f : Call} (hf : f ∈ tr.calls)
    (hfresh : f.IsFresh) (hunion : (tr.types.union? f.type).isSome = true) (value : Literal) :
    value ∈ (tr.table.node f.id).allowedValues.values ↔
      ∃ r ∈ u.leaves tr.types f.type, tr.types.literal? r = some value := by
  rw [(h.coherent.describes hf hfresh).allowedValues, admittedValues,
    isEnum_of_union h.coherent.sound hunion, if_neg (by decide), LiteralSet.mem_ofList,
    List.mem_filterMap]

/-- What the node of a union lists is what the literals among its leaves are. -/
theorem exists_allowedValue_union (h : u.OrderlyPass tr) {f : Call} (hf : f ∈ tr.calls)
    (hfresh : f.IsFresh) (hunion : (tr.types.union? f.type).isSome = true) (p : Literal → Prop) :
    (∃ value ∈ (tr.table.node f.id).allowedValues.values, p value) ↔
      ∃ r ∈ u.leaves tr.types f.type, IsPlainLeaf tr.types r ∧
        ∃ value, tr.types.literal? r = some value ∧ p value := by
  constructor
  · rintro ⟨value, hvalue, hp⟩
    obtain ⟨r, hr, hl⟩ := (h.mem_allowedValues_union hf hfresh hunion value).1 hvalue
    exact ⟨r, hr, .inl (by rw [hl]; simp), value, hl, hp⟩
  · rintro ⟨r, hr, -, value, hl, hp⟩
    exact ⟨value, (h.mem_allowedValues_union hf hfresh hunion value).2 ⟨r, hr, hl⟩, hp⟩

/-! ## Keys and scalars

A node of a type without branches is compared with that type, the node of a union with the
literals and enums among its leaves. -/

theorem nodeAdmits_leaf_iff (h : u.OrderlyPass tr) {f : Call} (hf : f ∈ tr.calls)
    (hfresh : f.IsFresh) (hunion : tr.types.union? f.type = none) (key : String) :
    Check.nodeAdmits (tr.table.node f.id) key = true ↔ u.LeafAdmits tr.types f.type key := by
  rw [Check.nodeAdmits_iff, LeafAdmits]
  simp only [h.mem_allowedValues_leaf hf hfresh hunion]
  refine or_congr_right (exists_congr fun i => and_congr_left fun hadmits => ?_)
  exact h.displayName_intrinsic_iff hf hfresh (Intrinsic.name_of_admitsKey hadmits)

theorem nodeAdmits_union_iff (h : u.OrderlyPass tr) {f : Call} (hf : f ∈ tr.calls)
    (hfresh : f.IsFresh) (hunion : (tr.types.union? f.type).isSome = true) (key : String) :
    Check.nodeAdmits (tr.table.node f.id) key = true ↔
      ∃ r ∈ u.leaves tr.types f.type, IsPlainLeaf tr.types r ∧ u.LeafAdmits tr.types r key := by
  rw [Check.nodeAdmits_iff, h.exists_allowedValue_union hf hfresh hunion, or_iff_left]
  · exact exists_congr fun r => and_congr_right fun _ => and_congr_right fun hplain =>
      (hplain.leafAdmits_iff key).symm
  · rintro ⟨i, hname, hadmits⟩
    have hreserved := Intrinsic.name_of_admitsKey hadmits
    rw [← hname] at hreserved
    exact h.displayName_of_union hf hfresh hunion hreserved

theorem fitsScalar_leaf_iff (h : u.OrderlyPass tr) {f : Call} (hf : f ∈ tr.calls)
    (hfresh : f.IsFresh) (hunion : tr.types.union? f.type = none) (v : Json) :
    (tr.table.node f.id).FitsScalar v ↔ u.IsOfForm tr.types v f.type := by
  rw [SchemaNode.FitsScalar, IsOfForm, Scalar.fitsName_iff, h.displayName_date_iff hf hfresh,
    h.displayName_pattern_iff hf hfresh]
  simp only [h.mem_allowedValues_leaf hf hfresh hunion]
  refine or_congr_right (or_congr_left (exists_congr fun i => and_congr_left fun hmatches => ?_))
  exact h.displayName_intrinsic_iff hf hfresh (Intrinsic.name_of_matchesPrimitive hmatches)

theorem fitsScalar_union_iff (h : u.OrderlyPass tr) {f : Call} (hf : f ∈ tr.calls)
    (hfresh : f.IsFresh) (hunion : (tr.types.union? f.type).isSome = true) (v : Json) :
    (tr.table.node f.id).FitsScalar v ↔
      ∃ r ∈ u.leaves tr.types f.type, IsPlainLeaf tr.types r ∧ u.IsOfForm tr.types v r := by
  rw [SchemaNode.FitsScalar, h.exists_allowedValue_union hf hfresh hunion, or_iff_left]
  · exact exists_congr fun r => and_congr_right fun _ => and_congr_right fun hplain =>
      (hplain.isOfForm_iff v).symm
  · intro hname
    have hprimitive := Check.mem_primitiveNames_of_fitsName hname
    exact h.displayName_of_union hf hfresh hunion (List.mem_append_left _ hprimitive)

end OrderlyPass
end Universe
end TypedJson
