import TypedJson.Proofs.Scalars
/-!
# Which object keys a type admits

An index signature is about the object keys that its key type admits.  A type admits keys
as a literal, an enum, or an intrinsic type, and the key by which it is identified in a
schema shows which of these it is (`leafAdmits_of_same`).  So it does not matter for which
of the types of one node the node was made: the node admits the keys of each
(`OrderlyPass.admitsKey_iff`).
-/
namespace TypedJson

namespace LeafKey

variable {s : Interner} {r r' : TypeId} {key key' : TypeKey}

theorem intrinsic_of_same {i : Intrinsic} (h : LeafKey s r key)
    (hsame : TypeKey.Same key (.intrinsic i)) : s.intrinsic? r = some i := by
  cases h with
  | intrinsic h =>
    simp only [TypeKey.Same, TypeKey.isEqual, beq_iff_eq] at hsame
    rw [h, hsame]
  | _ => cases hsame

/-- Types of one key that are neither intrinsic nor literal have one symbol. -/
theorem symbol_of_same (h : LeafKey s r key) (h' : LeafKey s r' key')
    (hsame : TypeKey.Same key key') {id : Symbol} (hi : s.intrinsic? r = none)
    (hl : s.literal? r = none) (hid : s.symbol? r = some id) : s.symbol? r' = some id := by
  cases h with
  | null hi' => rw [hi] at hi'; cases hi'
  | undefined hi' => rw [hi] at hi'; cases hi'
  | intrinsic hi' => rw [hi] at hi'; cases hi'
  | literal hl' => rw [hl] at hl'; cases hl'
  | text _ _ hnone => rw [hid] at hnone; cases hnone
  | symbol _ _ hsymbol =>
    cases h' with
    | symbol _ _ hsymbol' =>
      simp only [TypeKey.Same, TypeKey.isEqual, beq_iff_eq] at hsame
      rw [hsymbol', ← hsame, ← hsymbol, hid]
    | _ => cases hsame
  | generic _ _ hsymbol =>
    cases h' with
    | generic _ _ hsymbol' =>
      simp only [TypeKey.Same, TypeKey.isEqual, Bool.and_eq_true, beq_iff_eq] at hsame
      rw [hsymbol', ← hsame.1, ← hsymbol, hid]
    | _ => cases hsame

end LeafKey

namespace Universe

variable {u : Universe} {tr : Trace} {s : Interner}

/-! ## Enums

An enum is a type by its symbol, and its values stand in the declaration.  So two leaves of
one key that are enums list the same values. -/

/-- The declaration is an enum. -/
def DeclaresEnum (u : Universe) (id : DeclarationId) : Prop :=
  ∃ d, u.declaration? id = some d ∧ DeclarationBody.kind d.body = .enum

theorem declaresEnum_of_origin {symbol : Symbol} {origin : Origin}
    (h : u.origin? symbol = some origin) (hkind : origin.kind = .enum) :
    ∃ id, symbol = .declared id ∧ u.DeclaresEnum id := by
  cases symbol with
  | declared id =>
    obtain ⟨d, hd, rfl⟩ := Option.map_eq_some_iff.1 h
    exact ⟨id, rfl, d, hd, hkind⟩
  | builtin b =>
    cases h
    cases b <;> cases hkind
  | param => cases h
  | anonymous => cases h

theorem not_isAlias_of_declaresEnum {id : DeclarationId} (h : u.DeclaresEnum id) :
    ¬ u.IsAlias (.declared id) := by
  rintro ⟨id', d, body, heq, hd, hbody⟩
  cases heq
  obtain ⟨d', hd', hkind⟩ := h
  rw [hd] at hd'
  cases hd'
  rw [hbody] at hkind
  cases hkind

theorem data_of_declaresEnum (hs : u.Sound s) {t : TypeId} {id : DeclarationId}
    (hid : s.symbol? t = some (.declared id)) (henum : u.DeclaresEnum id) :
    ∃ args, s.data t = .form (.reference ⟨.declared id, args⟩) := by
  have hlawful := hs.lawful t
  unfold Interner.symbol? at hid
  generalize hdata : s.data t = data at hid hlawful
  unfold TypeData.symbol? at hid
  split at hid
  · cases hid
    obtain ⟨_, _, _, heq, -⟩ := hlawful
    cases heq
  · rename_i inst
    obtain ⟨symbol, args⟩ := inst
    cases hid
    exact ⟨args, rfl⟩
  · cases hid
  · have halias : u.IsAlias (.declared id) := Option.some.inj hid ▸ hlawful
    exact absurd halias (not_isAlias_of_declaresEnum henum)
  · rename_i origin shape
    have hsymbol : origin.symbol = .declared id := Option.some.inj hid
    cases shape with
    | record key value =>
      rw [hlawful] at hsymbol
      cases hsymbol
    | literal =>
      have halias : u.IsAlias (.declared id) := hsymbol ▸ hlawful
      exact absurd halias (not_isAlias_of_declaresEnum henum)
    | intersection =>
      have halias : u.IsAlias (.declared id) := hsymbol ▸ hlawful
      exact absurd halias (not_isAlias_of_declaresEnum henum)
  · cases hid
  · cases hid

theorem isEnum_iff (hs : u.Sound s) (t : TypeId) : u.isEnum s t = true ↔
    ∃ id args, s.data t = .form (.reference ⟨.declared id, args⟩) ∧ u.DeclaresEnum id := by
  constructor
  · intro h
    unfold isEnum at h
    split at h
    · rename_i origin horigin
      obtain ⟨inst, hinst, horigin⟩ := Option.bind_eq_some_iff.1 horigin
      obtain ⟨id, hid, henum⟩ := declaresEnum_of_origin horigin (of_decide_eq_true h)
      have hsymbol : s.symbol? t = some (.declared id) := by
        rw [Interner.symbol?, TypeData.symbol?_of_instance? t hinst, hid]
      obtain ⟨args, hdata⟩ := data_of_declaresEnum hs hsymbol henum
      exact ⟨id, args, hdata, henum⟩
    · cases h
  · rintro ⟨id, args, hdata, d, hd, hkind⟩
    simp [isEnum, originOf?, hdata, TypeData.instance?, origin?, hd, hkind]

theorem enum_of_symbol (hs : u.Sound s) {r r' : TypeId} (henum : u.isEnum s r = true)
    (hsymbol : ∀ id, s.symbol? r = some id → s.symbol? r' = some id) :
    u.isEnum s r' = true ∧ u.enumValues s r' = u.enumValues s r := by
  obtain ⟨id, args, hdata, hdeclares⟩ := (isEnum_iff hs r).1 henum
  have hid := hsymbol (.declared id) (by rw [Interner.symbol?, hdata]; rfl)
  obtain ⟨args', hdata'⟩ := data_of_declaresEnum hs hid hdeclares
  refine ⟨(isEnum_iff hs r').2 ⟨id, args', hdata', hdeclares⟩, ?_⟩
  unfold enumValues
  rw [hdata, hdata']

/-! ## Leaves of one key -/

theorem lists_of_same (hs : u.Sound s) {r r' : TypeId} {k k' : TypeKey} (hk : LeafKey s r k)
    (hk' : LeafKey s r' k') (hsame : TypeKey.Same k k') {value : Literal}
    (h : u.Lists s r value) : u.Lists s r' value := by
  rcases h with hl | ⟨henum, hvalue⟩
  · rw [hk.eq_literal hl] at hsame
    exact .inl (hk'.literal_of_same hsame.symm)
  · have hl := literal?_of_isEnum henum
    obtain ⟨id, args, hdata, -⟩ := (isEnum_iff hs r).1 henum
    have hi : s.intrinsic? r = none := by rw [Interner.intrinsic?, hdata]; rfl
    obtain ⟨henum', hvalues⟩ := enum_of_symbol hs henum fun id hid =>
      hk.symbol_of_same hk' hsame hi hl hid
    rw [← hvalues] at hvalue
    exact .inr ⟨henum', hvalue⟩

/-- Leaves of one key admit the same object keys. -/
theorem leafAdmits_of_same (hs : u.Sound s) {r r' : TypeId} {k k' : TypeKey} (hk : LeafKey s r k)
    (hk' : LeafKey s r' k') (hsame : TypeKey.Same k k') {key : String}
    (h : u.LeafAdmits s r key) : u.LeafAdmits s r' key := by
  rcases h with ⟨value, hvalue, hadmits⟩ | ⟨i, hi, hadmits⟩
  · exact .inl ⟨value, lists_of_same hs hk hk' hsame hvalue, hadmits⟩
  · have hnull : i ≠ .null := by
      rintro rfl
      cases hadmits
    have hundefined : i ≠ .undefined := by
      rintro rfl
      cases hadmits
    rw [hk.eq_intrinsic hi, Intrinsic.key_of_ne hnull hundefined] at hsame
    exact .inr ⟨i, hk'.intrinsic_of_same hsame.symm, hadmits⟩

namespace OrderlyPass

theorem admitsKey_of_id_eq (h : u.OrderlyPass tr) {c d : Call} (hc : c ∈ tr.calls)
    (hd : d ∈ tr.calls) (hid : c.id = d.id) {key : String}
    (hadmits : u.AdmitsKey tr.types c.type key) : u.AdmitsKey tr.types d.type key := by
  obtain ⟨r, hr, hadmits⟩ := hadmits
  obtain ⟨r', hr', k, k', hk, hk', hsame⟩ := h.exists_leaf_of_id_eq hc hd hid r hr
  exact ⟨r', hr', leafAdmits_of_same h.coherent.sound hk hk' hsame hadmits⟩

/-- **A node admits the object keys of its type.** -/
theorem admitsKey_iff (h : u.OrderlyPass tr) {c : Call} (hc : c ∈ tr.calls) (key : String) :
    tr.table.AdmitsKey c.id key ↔ u.AdmitsKey tr.types c.type key := by
  obtain ⟨f, hf, hfresh, hid⟩ := h.fresh_of_call hc
  have hself : ∀ d ∈ tr.calls, tr.types.union? d.type = none →
      (u.AdmitsKey tr.types d.type key ↔ u.LeafAdmits tr.types d.type key) := by
    intro d hd hunion
    rw [AdmitsKey, leaves_of_not_union h.coherent.sound (h.has hd) hunion]
    simp
  have hcandidates : tr.table.AdmitsKey f.id key ↔
      ∃ b ∈ tr.table.candidates f.id, Check.nodeAdmits (tr.table.node b) key = true := by
    rw [NodeTable.AdmitsKey]
    simp only [h.reaches_iff hf hfresh]
  have hf_iff : tr.table.AdmitsKey f.id key ↔ u.AdmitsKey tr.types f.type key := by
    rw [hcandidates]
    refine h.exists_candidate_iff (P := fun b => Check.nodeAdmits (tr.table.node b) key = true)
      (fun g hg hgfresh hunion => h.nodeAdmits_leaf_iff hg hgfresh hunion key)
      (fun d hd e he hde hunion hunion' hadmits => ?_)
      (fun g hg hgfresh hunion => h.nodeAdmits_union_iff hg hgfresh hunion key) hf hfresh
    rw [← hself e he hunion']
    exact h.admitsKey_of_id_eq hd he hde ((hself d hd hunion).2 hadmits)
  rw [← hid, hf_iff]
  exact ⟨h.admitsKey_of_id_eq hf hc hid, h.admitsKey_of_id_eq hc hf hid.symm⟩

end OrderlyPass
end Universe
end TypedJson
