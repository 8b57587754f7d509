import TypedJson.Proofs.Admission
/-!
# A node stands for the data of its type

In a pass over orderly types, a value passes the check against the node of a type exactly if
it belongs to the type (`Pass.ok_checkValue_iff_inhabits`).  The induction is on the value,
and at each value it is about all the calls of the pass at once.  For one call the node is
that of an equal key, so the type may be taken to be the one that the node was made for; of
that type, each leaf is either in the node itself, as a literal or as `null`, or is the type
of a branch.

The comparison goes field by field.  An array type is in the node by its element type, a
structure by its properties and signatures, whose nodes are those of the parts of the type
(`PropertyOf`, `SignatureOf`); each part of the value is smaller, so the induction applies
to it with the call that was made for the part.  Scalars need no induction: what a node
admits by its literals and its name was compared with the type before.
-/
namespace TypedJson

/-! ## Related lists

Properties stand in the order of the members that they were made for, and signatures in that
of the index signatures, so the lists are related one by one. -/

theorem forall₂_forall_iff {α β : Type} {R : α → β → Prop} {as : List α} {bs : List β}
    (h : List.Forall₂ R as bs) {P : α → Prop} {Q : β → Prop} (hPQ : ∀ a b, R a b → (P a ↔ Q b)) :
    (∀ b ∈ bs, Q b) ↔ ∀ a ∈ as, P a := by
  constructor
  · intro hall a ha
    obtain ⟨b, hb, hab⟩ := forall₂_mem_left h ha
    exact (hPQ a b hab).2 (hall b hb)
  · intro hall b hb
    obtain ⟨a, ha, hab⟩ := forall₂_mem_right h hb
    exact (hPQ a b hab).1 (hall a ha)

theorem forall₂_ne_nil_iff {α β : Type} {R : α → β → Prop} {as : List α} {bs : List β}
    (h : List.Forall₂ R as bs) : as ≠ [] ↔ bs ≠ [] := by
  cases h with
  | nil => simp
  | cons => simp

/-- The first element with a property is related to the first one with a related property. -/
theorem forall₂_first {α β : Type} {R : α → β → Prop} {P : α → Prop} {Q : β → Prop}
    (hPQ : ∀ a b, R a b → (P a ↔ Q b)) : ∀ {before : List α} {a : α} {after : List α} {bs : List β},
      List.Forall₂ R (before ++ a :: after) bs → P a → (∀ x ∈ before, ¬ P x) →
      ∃ before' b after', bs = before' ++ b :: after' ∧ R a b ∧ Q b ∧ ∀ y ∈ before', ¬ Q y
  | [], a, after, _, .cons hab _, ha, _ => ⟨[], _, _, rfl, hab, (hPQ _ _ hab).1 ha, by simp⟩
  | x :: before, a, after, _, .cons (b := y) hxy h, ha, hnot => by
    obtain ⟨before', b, after', rfl, hab, hb, hnot'⟩ := forall₂_first hPQ h ha
      fun z hz => hnot z (List.mem_cons_of_mem x hz)
    refine ⟨y :: before', b, after', rfl, hab, hb, ?_⟩
    intro z hz
    rcases List.mem_cons.1 hz with rfl | hz
    · exact fun hQ => hnot x List.mem_cons_self ((hPQ x z hxy).2 hQ)
    · exact hnot' z hz

namespace Universe

variable {u : Universe} {tr : Trace} {s : Interner}

/-! ## Members

The node of a type without branches shows members exactly if the type has the structure of
an object, and the node of a union shows none.  The first admitting signature is at the same
place in both lists, since the key types admit the same keys. -/

/-- The node of a type shows members exactly if the type is an interface, a declared object or
intersection, or a record. -/
theorem showsMembers_iff (hs : u.Sound s) {t : TypeId} (hunion : s.union? t = none) :
    u.showsMembers s t = true ↔ u.IsStructure (s.data t) := by
  have hliterals : isLiteralUnion s t = false := by
    unfold isLiteralUnion
    rw [hunion]
  have hlawful := hs.lawful t
  have halias : ∀ {symbol : Symbol}, u.IsAlias symbol →
      ((u.origin? symbol).any fun origin => hasProperties s t origin (decide (origin.kind = .enum))) =
        true := by
    rintro _ ⟨id, d, body, rfl, hd, hbody⟩
    simp [origin?, hd, hasProperties, hliterals, hbody, DeclarationBody.kind]
  unfold showsMembers originOf?
  unfold Interner.union? at hunion
  cases hdata : s.data t with
  | form f =>
    rw [hdata] at hunion hlawful
    cases f with
    | reference inst =>
      obtain ⟨symbol, args⟩ := inst
      -- a builtin without structure, or else a declared interface or enum
      rcases hlawful with ⟨b, rfl | rfl, hinst⟩ | ⟨id, d, hid, hd, hkind⟩
      · cases hinst
        simp [TypeData.instance?, origin?, hasProperties, IsStructure, Builtin.name]
      · cases hinst
        simp [TypeData.instance?, origin?, hasProperties, IsStructure, Builtin.name]
      · obtain rfl : symbol = .declared id := hid
        simp only [TypeData.instance?, origin?, hasProperties, IsStructure, hliterals, hd,
          Option.bind_some, Option.map_some, Option.any_some]
        cases hbody : DeclarationBody.kind d.body with
        | interface => simp [hbody, hd]
        | enum => simp [hbody, hd]
        | typeAlias => exact absurd hbody hkind
    | union branches => cases hunion
    | _ => exact iff_of_false (by simp [TypeData.instance?]) id
  | object origin shape =>
    rw [hdata] at hlawful
    cases origin with
    | none => exact iff_of_false (by simp [TypeData.instance?]) id
    | some origin =>
      cases shape with
      | record key value =>
        obtain rfl : origin = ⟨.builtin .record, [key, value]⟩ := hlawful
        simp [TypeData.instance?, origin?, hasProperties, IsStructure, Builtin.name, hliterals]
      | literal members indexes scope => exact iff_of_true (halias hlawful) trivial
      | intersection parts => exact iff_of_true (halias hlawful) trivial
  | namedUnion origin branches =>
    rw [hdata] at hunion
    cases hunion
  | reserved => exact iff_of_false (by simp [TypeData.instance?]) id

theorem exposes_iff_of_kept {t : TypeId} {ms : List TypeMember} {is : List TypeIndex}
    (hms : s.members? t = some ms) (his : s.indexes? t = some is) {ms' : List TypeMember}
    {is' : List TypeIndex} {s' : Interner} :
    u.Exposes s t ms' is' s' ↔ ms' = ms ∧ is' = is ∧ s' = s := by
  constructor
  · rintro ⟨fuel, s₁, hmembers, hindexes⟩
    cases fuel with
    | zero => cases hmembers
    | succ fuel =>
      rw [(members_of_kept hms fuel).now] at hmembers
      cases hmembers
      rw [(indexes_of_kept his fuel).now] at hindexes
      cases hindexes
      exact ⟨rfl, rfl, rfl⟩
  · rintro ⟨rfl, rfl, rfl⟩
    exact ⟨1, s', (members_of_kept hms 0).now, (indexes_of_kept his 0).now⟩

theorem IsNamed.not_isStructure {t : TypeId} {name : String} (h : IsNamed s t name) :
    ¬ u.IsStructure (s.data t) := by
  rcases h with ⟨i, hi, -⟩ | ⟨hdata, -⟩ | ⟨hdata, -⟩
  · rw [TypeData.intrinsic?_eq_some_iff.1 hi]
    exact id
  · rw [hdata]
    rintro ⟨_, _, h, -⟩
    cases h
  · rw [hdata]
    rintro ⟨_, _, h, -⟩
    cases h

theorem not_fits_of_element {t element : TypeId} (h : s.element? t = some element) (v : Json) :
    ¬ u.IsOfForm s v t ∧ ¬ u.IsStructure (s.data t) := by
  have hdata := TypeData.element?_eq_some_iff.1 h
  simp [IsOfForm, Lists, isEnum, originOf?, Interner.literal?, Interner.intrinsic?, hdata,
    TypeData.instance?, TypeData.literal?, TypeData.intrinsic?, IsStructure]

theorem union_spec {t : TypeId} (h : (s.union? t).isSome = true) :
    (s.data t).isBare = true ∧ s.element? t = none := by
  obtain ⟨branches, hbranches⟩ := Option.isSome_iff_exists.1 h
  unfold Interner.element?
  rcases TypeData.union?_eq_some_iff.1 hbranches with hdata | ⟨origin, hdata⟩
  · rw [hdata]
    exact ⟨rfl, rfl⟩
  · rw [hdata]
    exact ⟨rfl, rfl⟩

theorem IsPlainLeaf.fits_iff {r : TypeId} (h : IsPlainLeaf s r) {v : Json} (hv : v ≠ .null) :
    u.Fits s v r ↔ u.IsOfForm s v r := by
  have helement : s.element? r = none := by
    unfold Interner.element?
    rcases h.data with ⟨value, hdata⟩ | hdata
    · rw [hdata]
      rfl
    · rw [hdata]
      rfl
  have hstructure : ¬ u.IsStructure (s.data r) := by
    rcases h.data with ⟨value, hdata⟩ | hdata
    · rw [hdata]
      exact id
    · rw [hdata]
      exact id
  cases v with
  | null => exact absurd rfl hv
  | array items =>
    rw [h.isOfForm_iff]
    refine iff_of_false ?_ ?_
    · simp [Fits, helement]
    · rintro ⟨value, -, hmatches⟩
      cases value <;> cases hmatches
  | object fields => simp only [Fits, hstructure, false_and, or_false]
  | bool | number | string => simp only [Fits]

namespace OrderlyPass

/-- The check of every smaller value agrees with the types. -/
def AgreesBelow (u : Universe) (tr : Trace) (v : Json) : Prop :=
  ∀ j : Json, sizeOf j < sizeOf v → ∀ c ∈ tr.calls,
    (tr.table.Conforms j c.id ↔ u.Inhabits tr.types j c.type)

/-- The properties and index signatures of a node take the fields that the members and index
signatures of the type take. -/
theorem fields_iff (h : u.OrderlyPass tr) {ms : List TypeMember} {is : List TypeIndex}
    {n : SchemaNode} (hproperties : List.Forall₂ (PropertyOf tr.calls) (dataMembers ms) n.properties)
    (hindexes : List.Forall₂ (SignatureOf tr.calls) is n.indexes) {fields : List (String × Json)}
    (ih : AgreesBelow u tr (.object fields)) :
    tr.table.MembersConform n fields ↔ u.FieldsFit tr.types ms is fields := by
  unfold NodeTable.MembersConform FieldsFit
  refine and_congr ?_ (forall₂_congr fun f hf => ?_)
  · refine forall₂_forall_iff hproperties fun m p ⟨hname, hoptional, c, hc, htype, hid⟩ => ?_
    rw [hname, hoptional, ← hid, ← htype]
    refine and_congr_right fun _ => forall₂_congr fun j hj => ?_
    exact (ih j (Json.sizeOf_value_lt (Json.mem_of_member? hj)) c hc).symm
  · -- a key is undeclared for the node exactly if it is for the type, and the first signature
    -- that admits it stands at the same place in both lists
    have hdeclared : n.property? f.1 = none ↔ ∀ m ∈ dataMembers ms, m.1.name ≠ f.1 := by
      unfold SchemaNode.property?
      rw [List.find?_eq_none]
      refine forall₂_forall_iff hproperties fun m p hp => ?_
      rw [hp.1, beq_iff_eq]
    have hkey : ∀ x y, SignatureOf tr.calls x y →
        (u.AdmitsKey tr.types x.key f.1 ↔ tr.table.AdmitsKey y.keyType f.1) := by
      rintro x y ⟨⟨c, hc, htype, hid⟩, -⟩
      rw [← htype, ← hid]
      exact (h.admitsKey_iff hc f.1).symm
    have hvalue : ∀ x y, SignatureOf tr.calls x y →
        (tr.table.Conforms f.2 y.valueType ↔ u.Inhabits tr.types f.2 x.value) := by
      rintro x y ⟨-, c, hc, htype, hid⟩
      rw [← htype, ← hid]
      exact ih f.2 (Json.sizeOf_value_lt hf) c hc
    rw [hdeclared]
    refine imp_congr_right fun _ => ?_
    constructor
    · rintro hall x ⟨before, after, rfl, hadmits, hnot⟩
      obtain ⟨before', y, after', heq, hxy, hadmits', hnot'⟩ :=
        forall₂_first hkey hindexes hadmits hnot
      exact (hvalue x y hxy).1 (hall y ⟨before', after', heq, hadmits', hnot'⟩)
    · rintro hall y ⟨before, after, heq, hadmits, hnot⟩
      rw [heq] at hindexes
      obtain ⟨before', x, after', heq', hxy, hadmits', hnot'⟩ :=
        forall₂_first (R := flip (SignatureOf tr.calls)) (fun y x hxy => (hkey x y hxy).symm)
          hindexes.flip hadmits hnot
      exact (hvalue x y hxy).2 (hall x ⟨before', after', heq', hadmits', hnot'⟩)

theorem arrayOf_iff (h : u.OrderlyPass tr) {f : Call} (hf : f ∈ tr.calls) (hfresh : f.IsFresh) :
    (tr.types.element? f.type = none ∧ (tr.table.node f.id).arrayOf = none) ∨
    ∃ c ∈ tr.calls, tr.types.element? f.type = some c.type ∧
      (tr.table.node f.id).arrayOf = some c.id := by
  have harray := (h.coherent.describes hf hfresh).arrayOf
  cases helement : tr.types.element? f.type with
  | none =>
    cases hitem : (tr.table.node f.id).arrayOf with
    | none => exact .inl ⟨rfl, rfl⟩
    | some item =>
      rw [helement, hitem] at harray
      cases harray
  | some element =>
    cases hitem : (tr.table.node f.id).arrayOf with
    | none =>
      rw [helement, hitem] at harray
      cases harray
    | some item =>
      rw [helement, hitem] at harray
      cases harray with
      | cons hanswered =>
        obtain ⟨c, hc, rfl, rfl⟩ := hanswered
        exact .inr ⟨c, hc, rfl, rfl⟩

/-- The node of a type without branches describes the objects that the type describes. -/
theorem structure_iff (h : u.OrderlyPass tr) {f : Call} (hf : f ∈ tr.calls) (hfresh : f.IsFresh)
    (hunion : tr.types.union? f.type = none) {fields : List (String × Json)}
    (ih : AgreesBelow u tr (.object fields)) :
    ((tr.table.node f.id).IsStructure ∧ tr.table.MembersConform (tr.table.node f.id) fields) ↔
    (u.IsStructure (tr.types.data f.type) ∧ ∃ ms is s', u.Exposes tr.types f.type ms is s' ∧
      (dataMembers ms ≠ [] ∨ is ≠ []) ∧ u.FieldsFit s' ms is fields) := by
  obtain ⟨ms, is, hmembers⟩ := (h.coherent.describes hf hfresh).members
  rw [h.fields_iff hmembers.properties hmembers.indexes ih, SchemaNode.IsStructure,
    ← forall₂_ne_nil_iff hmembers.properties, ← forall₂_ne_nil_iff hmembers.indexes]
  have hshows := showsMembers_iff h.coherent.sound hunion
  by_cases hstructure : u.IsStructure (tr.types.data f.type)
  · obtain ⟨hms, his⟩ := hmembers.shown (hshows.2 hstructure)
    have hname : (tr.table.node f.id).displayName ∉ Scalar.primitiveNames := by
      intro hname
      have hnamed := (h.displayName_eq_iff hf hfresh (List.mem_append_left _ hname)).1 rfl
      exact hnamed.not_isStructure hstructure
    simp only [exposes_iff_of_kept hms his, hstructure, hname, not_false_eq_true, true_and]
    constructor
    · rintro ⟨hne, hfit⟩
      exact ⟨ms, is, tr.types, ⟨rfl, rfl, rfl⟩, hne, hfit⟩
    · rintro ⟨_, _, _, ⟨rfl, rfl, rfl⟩, hne, hfit⟩
      exact ⟨hne, hfit⟩
  · have hhidden : u.showsMembers tr.types f.type = false :=
      Bool.eq_false_iff.2 fun hshown => hstructure (hshows.1 hshown)
    obtain ⟨rfl, rfl⟩ := hmembers.hidden hhidden
    simp [dataMembers, hstructure]

theorem fits_leaf_iff (h : u.OrderlyPass tr) {v : Json} (hv : v ≠ .null)
    (ih : AgreesBelow u tr v) {f : Call} (hf : f ∈ tr.calls) (hfresh : f.IsFresh)
    (hunion : tr.types.union? f.type = none) :
    tr.table.Fits v f.id ↔ u.Fits tr.types v f.type := by
  have hscalar := h.fitsScalar_leaf_iff hf hfresh hunion v
  have harray : u.IsOfForm tr.types v f.type ∨ u.IsStructure (tr.types.data f.type) →
      (tr.table.node f.id).arrayOf = none := by
    intro hfits
    rcases h.arrayOf_iff hf hfresh with ⟨-, hitem⟩ | ⟨c, -, helement, -⟩
    · exact hitem
    · obtain ⟨hform, hstructure⟩ := not_fits_of_element (u := u) helement v
      exact absurd hfits (not_or.2 ⟨hform, hstructure⟩)
  cases v with
  | null => exact absurd rfl hv
  | array items =>
    simp only [NodeTable.Fits, Fits]
    rcases h.arrayOf_iff hf hfresh with ⟨helement, hitem⟩ | ⟨c, hc, helement, hitem⟩
    · simp [helement, hitem]
    · simp only [helement, hitem, Option.some.injEq, exists_eq_left']
      exact forall₂_congr fun j hj => ih j (Json.sizeOf_item_lt hj) c hc
  | object fields =>
    simp only [NodeTable.Fits, Fits]
    rw [hscalar, h.structure_iff hf hfresh hunion ih]
    exact and_iff_right_of_imp fun hfits => harray (hfits.imp_right And.left)
  | bool | number | string =>
    simp only [NodeTable.Fits, Fits]
    rw [hscalar]
    exact and_iff_right_of_imp fun hform => harray (.inl hform)

/-- The node of a union has no shape but its literals. -/
theorem fits_union_iff (h : u.OrderlyPass tr) {v : Json} (hv : v ≠ .null) {f : Call}
    (hf : f ∈ tr.calls) (hfresh : f.IsFresh) (hunion : (tr.types.union? f.type).isSome = true) :
    tr.table.Fits v f.id ↔
      ∃ r ∈ u.leaves tr.types f.type, IsPlainLeaf tr.types r ∧ u.Fits tr.types v r := by
  obtain ⟨hbare, helement⟩ := union_spec hunion
  have hitem : (tr.table.node f.id).arrayOf = none := by
    rcases h.arrayOf_iff hf hfresh with ⟨-, hitem⟩ | ⟨c, -, helement', -⟩
    · exact hitem
    · rw [helement] at helement'
      cases helement'
  have hstructure : ¬ (tr.table.node f.id).IsStructure := by
    obtain ⟨ms, is, hmembers⟩ := (h.coherent.describes hf hfresh).members
    obtain ⟨hms, his⟩ := h.coherent.sound.bare f.type hbare
    have hnil : ms = [] ∧ is = [] := by
      cases hshown : u.showsMembers tr.types f.type with
      | true => exact ⟨hms ms (hmembers.shown hshown).1, his is (hmembers.shown hshown).2⟩
      | false => exact hmembers.hidden hshown
    rintro ⟨-, hne⟩
    rw [← forall₂_ne_nil_iff hmembers.properties, ← forall₂_ne_nil_iff hmembers.indexes, hnil.1,
      hnil.2] at hne
    simp [dataMembers] at hne
  have hfits : tr.table.Fits v f.id ↔ (tr.table.node f.id).FitsScalar v := by
    cases v with
    | null => exact absurd rfl hv
    | array items =>
      refine iff_of_false ?_ (Check.fitsScalar_array _ items)
      simp [NodeTable.Fits, hitem]
    | object fields => simp only [NodeTable.Fits, hitem, hstructure, false_and, or_false, true_and]
    | bool | number | string => simp only [NodeTable.Fits, hitem, true_and]
  rw [hfits, h.fitsScalar_union_iff hf hfresh hunion v]
  exact exists_congr fun r => and_congr_right fun _ => and_congr_right fun hplain =>
    (hplain.fits_iff hv).symm

/-! ## The check

`null` is decided by the whole walk along the branches, any other value by the node and its
branches.  Either way the statement about one call follows from that about smaller values,
and the induction on the value is closed in `conforms_iff_inhabits`. -/

theorem isNullable_node_iff (h : u.OrderlyPass tr) {f : Call} (hf : f ∈ tr.calls)
    (hfresh : f.IsFresh) : (tr.table.node f.id).isNullable = true ↔
      ∃ r ∈ u.leaves tr.types f.type, tr.types.isNull r = true := by
  rw [(h.coherent.describes hf hfresh).isNullable, Bool.or_eq_true, List.any_eq_true,
    isNullable_iff h.coherent.sound (h.has hf), or_self]

theorem isNull_of_id_eq (h : u.OrderlyPass tr) {c d : Call} (hc : c ∈ tr.calls) (hd : d ∈ tr.calls)
    (hid : c.id = d.id) (hunion : tr.types.union? c.type = none)
    (hunion' : tr.types.union? d.type = none) (hnull : tr.types.isNull c.type = true) :
    tr.types.isNull d.type = true := by
  have hself := leaves_of_not_union h.coherent.sound (h.has hc) hunion
  have hself' := leaves_of_not_union h.coherent.sound (h.has hd) hunion'
  obtain ⟨r', hr', k, k', hk, hk', hsame⟩ := h.exists_leaf_of_id_eq hc hd hid c.type
    (by rw [hself]; exact List.mem_cons_self)
  rw [hself', List.mem_singleton] at hr'
  subst hr'
  rw [hk.eq_null hnull] at hsame
  exact hk'.isNull_of_same hsame.symm

theorem conforms_null_iff (h : u.OrderlyPass tr) {f : Call} (hf : f ∈ tr.calls)
    (hfresh : f.IsFresh) : tr.table.Conforms .null f.id ↔ u.Inhabits tr.types .null f.type := by
  rw [inhabits_null, isNullable_iff h.coherent.sound (h.has hf), NodeTable.Conforms]
  simp only [h.reaches_iff hf hfresh]
  refine h.exists_candidate_iff (P := fun b => (tr.table.node b).isNullable = true) ?_ ?_ ?_ hf hfresh
  · intro g hg hgfresh hunion
    rw [h.isNullable_node_iff hg hgfresh, leaves_of_not_union h.coherent.sound (h.has hg) hunion]
    simp
  · exact fun c hc d hd hid hunion hunion' => h.isNull_of_id_eq hc hd hid hunion hunion'
  · intro g hg hgfresh _
    rw [h.isNullable_node_iff hg hgfresh]
    exact exists_congr fun r => and_congr_right fun _ => ⟨fun hnull => ⟨.inr hnull, hnull⟩, And.right⟩

theorem conforms_step (h : u.OrderlyPass tr) {v : Json} (hv : v ≠ .null) (ih : AgreesBelow u tr v)
    {f : Call} (hf : f ∈ tr.calls) (hfresh : f.IsFresh) :
    tr.table.Conforms v f.id ↔ u.Inhabits tr.types v f.type := by
  have hself : ∀ d ∈ tr.calls, tr.types.union? d.type = none →
      (u.Inhabits tr.types v d.type ↔ u.Fits tr.types v d.type) := by
    intro d hd hunion
    rw [inhabits_iff_fits hv, leaves_of_not_union h.coherent.sound (h.has hd) hunion]
    simp
  rw [NodeTable.conforms_iff_fits, inhabits_iff_fits hv]
  refine h.exists_candidate_iff (P := fun b => tr.table.Fits v b)
    (fun g hg hgfresh hunion => h.fits_leaf_iff hv ih hg hgfresh hunion)
    (fun c hc d hd hid hunion hunion' hfits => ?_)
    (fun g hg hgfresh hunion => h.fits_union_iff hv hg hgfresh hunion) hf hfresh
  rw [← hself d hd hunion']
  exact (h.inhabits_congr hc hd hid v).1 ((hself c hc hunion).2 hfits)

/-- **A value conforms to the node of a call exactly if it belongs to the type.** -/
theorem conforms_iff_inhabits (h : u.OrderlyPass tr) (v : Json) :
    ∀ c ∈ tr.calls, (tr.table.Conforms v c.id ↔ u.Inhabits tr.types v c.type) := by
  intro c hc
  have ih : AgreesBelow u tr v := fun j hj => conforms_iff_inhabits h j
  -- the node was made for a type of an equal key, which has the same data
  obtain ⟨f, hf, hfresh, hid⟩ := h.fresh_of_call hc
  rw [← hid, ← h.inhabits_congr hf hc hid v]
  by_cases hv : v = .null
  · subst hv
    exact h.conforms_null_iff hf hfresh
  · exact h.conforms_step hv ih hf hfresh
termination_by sizeOf v

end OrderlyPass

/-- **The check of a value against the node of a type passes exactly if the value belongs to
the type**, whatever was built before and after, if the types are orderly. -/
theorem Pass.ok_checkValue_iff_inhabits (pass : u.Pass tr) (orderly : u.Orderly tr.types) {c : Call}
    (hc : c ∈ tr.calls) (v : Json) (place : Place) (strict : Bool) :
    (Check.checkValue (.ofArray tr.nodes) v place strict c.id).ok = true ↔
      u.Inhabits tr.types v c.type := by
  obtain ⟨hcoherent, hcomplete⟩ := pass.coherent
  have h : u.OrderlyPass tr := ⟨hcoherent, hcomplete, orderly⟩
  have hdecides := Check.ok_checkValue_iff (hcoherent.table_closed hcomplete) v
  exact (hdecides place strict c.id (hcoherent.call_lt hc)).trans (h.conforms_iff_inhabits v c hc)

/-! ## A test for orderly types

Orderliness speaks of all handles and all data.  For a table at hand it is enough that no two
types have one key: then the condition on types of one key holds with nothing to compare,
and the rest can be read off the table. -/

/-- The keys of the types are found with this fuel, and they differ. -/
def keysDiffer (u : Universe) (fuel : Nat) (s : Interner) (t t' : TypeId) : Bool :=
  match u.keyOfBranches fuel (u.leaves s t) s, u.keyOfBranches fuel (u.leaves s t') s with
  | some (key, _), some (key', _) => !key.isEqual key'
  | _, _ => false

/-- A test of one type for what is asked of the unions, the intersections and the keys. -/
def isOrderlyAt (u : Universe) (fuel : Nat) (s : Interner) (t : TypeId) : Bool :=
  ((s.union? t).isNone || decide (2 ≤ (u.leaves s t).length)) &&
  (match s.data t with
    | .object _ (.intersection parts) => decide (2 ≤ parts.length)
    | _ => true) &&
  (List.range s.slots.size).all fun i => decide (t.index = i) || u.keysDiffer fuel s t ⟨i⟩

/-- Types are orderly if no two of them have one key and nothing declared has a reserved name. -/
theorem orderly_of_isOrderlyAt (fuel : Nat)
    (htypes : (List.range s.slots.size).all (fun i => u.isOrderlyAt fuel s ⟨i⟩) = true)
    (hnames : ∀ d ∈ u.declarations, d.2.name ∉ reservedNames ∧ ∀ p ∈ d.2.typeParams, p ∉ reservedNames) :
    u.Orderly s := by
  have hat : ∀ t, s.Has t → u.isOrderlyAt fuel s t = true := fun t ht =>
    List.all_eq_true.1 htypes t.index (List.mem_range.2 ht)
  refine ⟨?_, ?_, fun d hd => (hnames d hd).1, fun d hd => (hnames d hd).2, ?_⟩
  · intro t hunion
    have ht : s.Has t := by
      by_contra hnot
      rw [Interner.union?, Interner.data_of_not_has hnot] at hunion
      cases hunion
    have htest := hat t ht
    simp only [isOrderlyAt, Bool.and_eq_true, Bool.or_eq_true, decide_eq_true_eq] at htest
    refine htest.1.1.resolve_left fun hnone => ?_
    rw [Option.isNone_iff_eq_none] at hnone
    rw [hnone] at hunion
    cases hunion
  · intro t origin parts hdata
    have ht : s.Has t := Interner.has_of_data_ne (by rw [hdata]; simp)
    have htest := hat t ht
    simp only [isOrderlyAt, hdata, Bool.and_eq_true, decide_eq_true_eq] at htest
    exact htest.1.2
  · intro t t' key key' ht ht' hkey hkey' hsame v
    have htest := hat t ht
    simp only [isOrderlyAt, Bool.and_eq_true, List.all_eq_true, Bool.or_eq_true,
      decide_eq_true_eq] at htest
    rcases htest.2 t'.index (List.mem_range.2 ht') with heq | hdiffer
    · rw [TypeId.index_injective heq]
    · unfold keysDiffer at hdiffer
      split at hdiffer
      · rename_i hrun hrun'
        obtain ⟨rfl, -⟩ := hkey.unique ⟨fuel, hrun⟩
        obtain ⟨rfl, -⟩ := hkey'.unique ⟨fuel, hrun'⟩
        rw [show key.isEqual key' = true from hsame] at hdiffer
        cases hdiffer
      · cases hdiffer

/-- One unit: an interface with an optional note that may be `null`, parts of its own kind,
and prices under any keys. -/
def itemUniverse : Universe where
  units := [⟨"item.ts", [
    { name := "Item", exported := true, line := none, typeParams := []
      body := .interface []
        [⟨"label", false, false, some (.name "string")⟩,
          ⟨"note", true, false, some (.union [.name "string", .name "null"])⟩,
          ⟨"parts", false, false, some (.array (.name "Item"))⟩,
          ⟨"prices", false, false, some (.generic "Record" [.name "string", .name "number"])⟩] [] }]⟩]
  distinct := by decide

/-- An item with one part of its own. -/
def itemValue (price : Json) : Json :=
  .object [("label", .string "box"), ("note", .null),
    ("parts", .array [.object [("label", .string "lid"), ("parts", .array []), ("prices", .object [])]]),
    ("prices", .object [("eur", price)])]

/-- An item belongs to the type, one with a text for a price does not. -/
theorem itemUniverse_inhabits : ∃ tr, itemUniverse.tracedSchema? 9 = some tr ∧
    itemUniverse.Orderly tr.types ∧ (∃ c ∈ tr.calls, c.type = ⟨0⟩) ∧
    itemUniverse.Inhabits tr.types (itemValue (.number (.int 3))) ⟨0⟩ ∧
    ¬ itemUniverse.Inhabits tr.types (itemValue (.string "3")) ⟨0⟩ := by
  have hsome : (itemUniverse.tracedSchema? 9).isSome = true := by decide +kernel
  obtain ⟨tr, htr⟩ := Option.isSome_iff_exists.1 hsome
  have htest : (itemUniverse.tracedSchema? 9).map (fun tr =>
      (List.range tr.types.slots.size).all fun i => itemUniverse.isOrderlyAt 9 tr.types ⟨i⟩) =
      some true := by decide +kernel
  have hcalls : (itemUniverse.tracedSchema? 9).map (fun tr =>
      decide (⟨⟨0⟩, ⟨0⟩⟩ ∈ tr.calls.map fun c => (c.type, c.id))) = some true := by decide +kernel
  have hpass : (itemUniverse.tracedSchema? 9).map (fun tr =>
      (Check.checkValue (.ofArray tr.nodes) (itemValue (.number (.int 3))) [] true ⟨0⟩).ok) =
      some true := by decide +kernel
  have hfail : (itemUniverse.tracedSchema? 9).map (fun tr =>
      (Check.checkValue (.ofArray tr.nodes) (itemValue (.string "3")) [] true ⟨0⟩).ok) =
      some false := by decide +kernel
  rw [htr] at htest hcalls hpass hfail
  have orderly := orderly_of_isOrderlyAt 9 (Option.some.inj htest) (u := itemUniverse) (by decide)
  obtain ⟨c, hc, hcid⟩ := List.mem_map.1 (of_decide_eq_true (Option.some.inj hcalls))
  obtain ⟨htype, hid⟩ := Prod.mk.inj hcid
  have hiff := fun v => (pass_of_tracedSchema? htr).ok_checkValue_iff_inhabits orderly hc v [] true
  rw [htype, hid] at hiff
  refine ⟨tr, htr, orderly, ⟨c, hc, htype⟩, (hiff _).1 (Option.some.inj hpass), fun hinhabits => ?_⟩
  cases ((hiff _).2 hinhabits).symm.trans (Option.some.inj hfail)

end Universe
end TypedJson
