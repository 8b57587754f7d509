import TypedJson.Proofs.RenamedSchemas
import TypedJson.Proofs.Scalars
import TypedJson.Proofs.Listing
/-!
# Acceptance after a renaming

A check of data reads of a node's text only whether it is a word of the language, so tables whose
nodes differ in their names only accept the same values (`NodeTable.Renamed.conforms_iff`).
Therefore a renaming that keeps apart what texts keep apart does not change what the schemas accept
(`Universe.Renaming.accepts_alike`).

None of the conditions can be dropped.  A declaration may have the name of a builtin, but a check
takes its text for the builtin's (`Universe.dateRenaming_accepts_more`).  A union that comes up
within itself is known by its text, in which declarations of one name are the same
(`Universe.twinRenaming_accepts_fewer`).  What is left of a circular alias is known by its name as
well (`Universe.circleRenaming_accepts_more`).
-/
namespace TypedJson

open Universe (reservedNames)

namespace SameWord

variable {x x' : String}

theorem eq_iff (h : SameWord x x') {word : String} (hword : word ∈ reservedNames) :
    x = word ↔ x' = word := by
  rcases h with rfl | ⟨hx, hx'⟩
  · exact .rfl
  · exact iff_of_false (fun heq => hx (heq ▸ hword)) fun heq => hx' (heq ▸ hword)

theorem mem_primitiveNames_iff (h : SameWord x x') :
    x ∈ Scalar.primitiveNames ↔ x' ∈ Scalar.primitiveNames := by
  rcases h with rfl | ⟨hx, hx'⟩
  · exact .rfl
  · exact iff_of_false (fun hmem => hx (List.mem_append_left _ hmem))
      fun hmem => hx' (List.mem_append_left _ hmem)

theorem fitsName_iff (h : SameWord x x') (v : Json) :
    Scalar.FitsName x v ↔ Scalar.FitsName x' v := by
  rcases h with rfl | ⟨hx, hx'⟩
  · exact .rfl
  · exact iff_of_false
      (fun hfits => hx (List.mem_append_left _ (Check.mem_primitiveNames_of_fitsName hfits)))
      fun hfits => hx' (List.mem_append_left _ (Check.mem_primitiveNames_of_fitsName hfits))

end SameWord

namespace Universe.Renaming.NodeBecomes

variable {n n' : SchemaNode}

theorem symm (h : NodeBecomes n n') : NodeBecomes n' n := by
  obtain ⟨name, displayName, rfl, hword⟩ := h
  exact ⟨n.name, n.displayName, rfl, hword.symm⟩

theorem nodeAdmits_iff (h : NodeBecomes n n') (key : String) :
    Check.nodeAdmits n' key = true ↔ Check.nodeAdmits n key = true := by
  obtain ⟨name, displayName, rfl, hword⟩ := h
  rw [Check.nodeAdmits_iff, Check.nodeAdmits_iff]
  exact or_congr_right (exists_congr fun i => and_congr_left fun hadmits =>
    (hword.eq_iff (Intrinsic.name_of_admitsKey hadmits)).symm)

theorem fitsScalar_iff (h : NodeBecomes n n') (v : Json) : n'.FitsScalar v ↔ n.FitsScalar v := by
  obtain ⟨name, displayName, rfl, hword⟩ := h
  exact or_congr_right (hword.fitsName_iff v).symm

theorem isStructure_iff (h : NodeBecomes n n') : n'.IsStructure ↔ n.IsStructure := by
  obtain ⟨name, displayName, rfl, hword⟩ := h
  exact and_congr_left' (not_congr hword.mem_primitiveNames_iff.symm)

end Universe.Renaming.NodeBecomes

namespace NodeTable

open Universe.Renaming (NodeBecomes)

/-- The tables have the same nodes under other names. -/
def Renamed (t t' : NodeTable) : Prop := ∀ id, NodeBecomes (t.node id) (t'.node id)

namespace Renamed

variable {t t' : NodeTable}

theorem symm (h : t.Renamed t') : t'.Renamed t := fun id => (h id).symm

theorem field {α : Type} (h : t.Renamed t') (f : SchemaNode → α)
    (hf : ∀ n name displayName, f { n with name, displayName } = f n) (id : NodeId) :
    f (t'.node id) = f (t.node id) := by
  obtain ⟨name, displayName, heq, -⟩ := h id
  rw [heq, hf]

theorem arrayOf (h : t.Renamed t') (id : NodeId) : (t'.node id).arrayOf = (t.node id).arrayOf :=
  h.field SchemaNode.arrayOf (fun _ _ _ => rfl) id

theorem unionOf (h : t.Renamed t') (id : NodeId) : (t'.node id).unionOf = (t.node id).unionOf :=
  h.field SchemaNode.unionOf (fun _ _ _ => rfl) id

theorem reaches_iff (h : t.Renamed t') {a b : NodeId} : t'.Reaches a b ↔ t.Reaches a b := by
  unfold Reaches
  simp only [h.unionOf]

theorem admitsKey_iff (h : t.Renamed t') (id : NodeId) (key : String) :
    t'.AdmitsKey id key ↔ t.AdmitsKey id key := by
  unfold AdmitsKey
  simp only [h.reaches_iff, (h _).nodeAdmits_iff]

theorem firstAdmitting_iff (h : t.Renamed t') (c : NodeId) (key : String) (x : IndexSignature) :
    t'.FirstAdmitting (t'.node c) key x ↔ t.FirstAdmitting (t.node c) key x := by
  unfold FirstAdmitting
  rw [h.field SchemaNode.indexes fun _ _ _ => rfl]
  simp only [h.admitsKey_iff]

theorem fits (h : t.Renamed t') {v : Json} (hparts : ∀ j, sizeOf j < sizeOf v →
    ∀ id, t.Conforms j id → t'.Conforms j id) {c : NodeId} (hfits : t.Fits v c) : t'.Fits v c := by
  cases v with
  | null =>
    obtain ⟨b, hb, hnull⟩ := hfits
    exact ⟨b, h.reaches_iff.2 hb, (h.field SchemaNode.isNullable (fun _ _ _ => rfl) b).trans hnull⟩
  | array items =>
    obtain ⟨item, hitem, hall⟩ := hfits
    exact ⟨item, (h.arrayOf c).trans hitem, fun j hj =>
      hparts j (Json.sizeOf_item_lt hj) item (hall j hj)⟩
  | object members =>
    obtain ⟨hitem, hscalar | ⟨hstructure, hproperties, hothers⟩⟩ := hfits
    · exact ⟨(h.arrayOf c).trans hitem, .inl (((h c).fitsScalar_iff _).2 hscalar)⟩
    · refine ⟨(h.arrayOf c).trans hitem, .inr ⟨(h c).isStructure_iff.2 hstructure, ?_, ?_⟩⟩
      · rw [h.field SchemaNode.properties fun _ _ _ => rfl]
        exact fun p hp => ⟨(hproperties p hp).1, fun j hj =>
          hparts j (Json.sizeOf_value_lt (Json.mem_of_member? hj)) _ ((hproperties p hp).2 j hj)⟩
      · intro m hm hnone x hx
        rw [h.field (·.property? m.1) fun _ _ _ => rfl] at hnone
        exact hparts m.2 (Json.sizeOf_value_lt hm) _
          (hothers m hm hnone x ((h.firstAdmitting_iff c m.1 x).1 hx))
  | bool | number | string =>
    exact ⟨(h.arrayOf c).trans hfits.1, ((h c).fitsScalar_iff _).2 hfits.2⟩

theorem conforms (h : t.Renamed t') (v : Json) (id : NodeId) (hv : t.Conforms v id) :
    t'.Conforms v id := by
  rw [conforms_iff_fits] at hv ⊢
  obtain ⟨c, hc, hfits⟩ := hv
  refine ⟨c, ?_, h.fits (fun j _ => h.conforms j) hfits⟩
  unfold candidates
  rw [h.unionOf]
  exact hc
termination_by sizeOf v

/-- **What a value conforms to does not depend on names.** -/
theorem conforms_iff (h : t.Renamed t') (v : Json) (id : NodeId) :
    t'.Conforms v id ↔ t.Conforms v id :=
  ⟨h.symm.conforms v id, h.conforms v id⟩

theorem ok_checkValue (h : t.Renamed t') (closed : t.Closed) (closed' : t'.Closed) {id : NodeId}
    (hid : id.index < t.size) (hid' : id.index < t'.size) (v : Json) (place : Place) (strict : Bool) :
    (Check.checkValue t' v place strict id).ok = (Check.checkValue t v place strict id).ok := by
  rw [Bool.eq_iff_iff, Check.ok_checkValue_iff closed' v place strict id hid',
    Check.ok_checkValue_iff closed v place strict id hid]
  exact h.conforms_iff v id

end Renamed

theorem forall₂_getD {α β : Type} {R : α → β → Prop} {a : α} {b : β} (hab : R a b) :
    ∀ {xs : List α} {ys : List β}, List.Forall₂ R xs ys → ∀ i : Nat, R (xs[i]?.getD a) (ys[i]?.getD b)
  | _, _, .nil, _ => hab
  | _, _, .cons h _, 0 => h
  | _, _, .cons _ hrest, i + 1 => forall₂_getD hab hrest i

theorem ofArray_renamed {nodes nodes' : Array SchemaNode}
    (h : List.Forall₂ NodeBecomes nodes.toList nodes'.toList) :
    (ofArray nodes).Renamed (ofArray nodes') := by
  intro id
  have hnode := forall₂_getD (NodeBecomes.refl .placeholder) h id.index
  rw [Array.getElem?_toList, Array.getElem?_toList, ← Array.getD_eq_getD_getElem?,
    ← Array.getD_eq_getD_getElem?] at hnode
  exact hnode

end NodeTable
namespace Universe
namespace Renaming

variable {u : Universe} {r : u.Renaming} {tr tr' : Trace}

/-- The passes gave the same numbers to the same types, and under each number they accept the same
values. -/
structure AcceptAlike (r : u.Renaming) (tr tr' : Trace) : Prop where
  types : tr'.types = r.table tr.types
  calls : tr'.calls.map (fun c => (c.type, c.id)) = tr.calls.map fun c => (c.type, c.id)
  ok : ∀ c ∈ tr.calls, ∀ v place strict,
    (Check.checkValue tr'.table v place strict c.id).ok =
      (Check.checkValue tr.table v place strict c.id).ok

theorem InStep.acceptAlike (h : r.InStep tr tr') (pass : u.Pass tr) (pass' : r.target.Pass tr') :
    r.AcceptAlike tr tr' := by
  have hcalls : tr'.calls.map (fun c => (c.type, c.id)) = tr.calls.map fun c => (c.type, c.id) := by
    rw [← List.forall₂_eq_eq_eq, List.forall₂_map_left_iff, List.forall₂_map_right_iff]
    exact h.calls.flip.imp fun c' c hc => Prod.ext hc.1.symm hc.2.symm
  refine ⟨h.types.table, hcalls, fun c hc v place strict => ?_⟩
  have hmem : (c.type, c.id) ∈ tr'.calls.map fun c => (c.type, c.id) := by
    rw [hcalls]
    exact List.mem_map_of_mem hc
  obtain ⟨c', hc', heq⟩ := List.mem_map.1 hmem
  have hid : c'.id = c.id := congrArg Prod.snd heq
  have hlt' : c.id.index < tr'.table.size := hid ▸ pass'.coherent.1.call_lt hc'
  exact (NodeTable.ofArray_renamed h.nodes).ok_checkValue
    (pass.coherent.1.table_closed pass.coherent.2) (pass'.coherent.1.table_closed pass'.coherent.2)
    (pass.coherent.1.call_lt hc) hlt' v place strict

/-- **Names carry no meaning**, as long as neither is that of a builtin which is known by its text,
no other circular alias has the old one, and the texts in keys stay as distinct as they were.  If the
schema of the exported declarations is built before the renaming, it is built after it with as much
fuel, and every pass has its counterpart; the nodes of a type and of its counterpart accept the same
values. -/
theorem accepts_alike (r : u.Renaming) (hcircles : r.KeepsCircles) (hwords : r.KeepsWords)
    (htexts : r.KeepsTexts) :
    (∀ fuel tr, u.tracedSchema? fuel = some tr →
      ∃ tr', r.target.tracedSchema? fuel = some tr' ∧ r.AcceptAlike tr tr') ∧
    ∀ tr, u.Pass tr → ∃ tr', r.target.Pass tr' ∧ r.AcceptAlike tr tr' := by
  constructor
  · intro fuel tr h
    obtain ⟨tr', h', hstep⟩ := tracedSchema?_inStep hcircles hwords htexts h
    exact ⟨tr', h', hstep.acceptAlike (pass_of_tracedSchema? h) (pass_of_tracedSchema? h')⟩
  · intro tr pass
    obtain ⟨tr', pass', hstep⟩ := pass_inStep hcircles hwords htexts pass
    exact ⟨tr', pass', hstep.acceptAlike pass pass'⟩

end Renaming

open Renaming

/-! ## One declaration that refers to itself

For an interface of this form all keys that can come up are known: symbols and intrinsic
types, and at most one text.  `OnChain` is the invariant that says so.  It is what it takes to
meet the condition on texts in an example. -/

def chainDeclaration (name : String) : Declaration where
  name := name
  exported := true
  line := none
  typeParams := []
  body := .interface [] [⟨"label", false, false, some (.name "string")⟩,
    ⟨"next", true, false, some (.name name)⟩] []

def chainUniverse (name : String) : Universe where
  units := [⟨"chain.ts", [chainDeclaration name]⟩]
  distinct := by simp [SourceUnit.names]

section Chain

variable {u : Universe} {s s' : Interner} {name : String}

theorem chain_declaration {i : DeclarationId} {d : Declaration}
    (h : (chainUniverse name).declaration? i = some d) : i = ⟨0, 0⟩ ∧ d = chainDeclaration name := by
  have hmem := mem_declarations_iff.2 h
  simpa [declarations, chainUniverse] using hmem

theorem chain_find? (name : String) : (chainUniverse name).find? name 0 = some ⟨0, 0⟩ := by
  simp [find?, declarations, chainUniverse, chainDeclaration]

/-- What the types are that come up. -/
inductive ChainData : TypeData → Prop
  | reserved : ChainData .reserved
  | string : ChainData (.form (.intrinsic .string))
  | link : ChainData (.form (.reference ⟨.declared ⟨0, 0⟩, []⟩))

def OnChain (s : Interner) : Prop := ∀ t, ChainData (s.data t)

/-! Nothing but the interface itself and `string` is ever resolved in such a unit, and both are
on the chain.  The lemmas follow a question from the resolver to the lists. -/

theorem OnChain.intern (hs : OnChain s) {f : Form} (hf : ChainData (.form f)) :
    After s (Session.intern f) fun _ s' => OnChain s' := by
  intro t s' hrun
  cases hfind : s.find? f with
  | some t =>
    simp only [Session.intern, Interner.intern, hfind] at hrun
    cases hrun
    exact hs
  | none =>
    simp only [Session.intern, Interner.intern, hfind] at hrun
    cases hrun
    intro x
    show ChainData ((s.push (.form f)).2.data x)
    rw [Interner.data_push]
    split
    · exact hf
    · exact hs x

theorem OnChain.instantiate (hs : OnChain s) {self : Resolver} :
    After s ((chainUniverse name).instantiate self ⟨0, 0⟩ []) fun _ s' => OnChain s' :=
  hs.intern .link

theorem OnChain.resolve (hs : OnChain s) (hname : ¬ IsReserved name) {n : String}
    (hn : n = "string" ∨ n = name) : ∀ fuel,
    After s ((chainUniverse name).resolve fuel ⟨0, []⟩ (.name n)) fun _ s' => OnChain s'
  | 0 => fun _ _ hrun => by cases hrun
  | fuel + 1 => by
    rcases hn with rfl | rfl
    · exact hs.intern .string
    · have hintrinsic : Intrinsic.ofName? n = none := Classical.not_not.1 fun h => hname (.inl h)
      have htrue : n ≠ "true" := fun h => hname (.inr (.inl h))
      have hfalse : n ≠ "false" := fun h => hname (.inr (.inr h))
      show After s ((chainUniverse n).resolveName _ ⟨0, []⟩ n []) _
      simp only [resolveName, List.isEmpty_nil, if_true, List.find?_nil, hintrinsic, htrue, hfalse,
        if_false, List.mapM_nil, pure_bind, chain_find?]
      exact hs.instantiate

theorem OnChain.resolveMembers (hs : OnChain s) (hname : ¬ IsReserved name) (fuel : Nat) :
    After s (Universe.resolveMembers ((chainUniverse name).resolve fuel) ⟨0, []⟩
      [⟨"label", false, false, some (.name "string")⟩, ⟨"next", true, false, some (.name name)⟩])
      fun _ s' => OnChain s' := by
  refine (After.mapM (R := fun _ s' => OnChain s') (P := fun _ _ _ => True) (fun _ h => h)
    (fun _ _ => trivial) _ hs (fun _ h => h) fun m hm s₁ hs₁ => ?_).mono fun _ _ h => h.1
  have htype : ∃ n, m.type = some (.name n) ∧ m.method = false ∧ (n = "string" ∨ n = name) := by
    rcases List.mem_cons.1 hm with rfl | hm
    · exact ⟨_, rfl, rfl, .inl rfl⟩
    · rw [List.mem_singleton.1 hm]
      exact ⟨_, rfl, rfl, .inr rfl⟩
  obtain ⟨n, htype, hmethod, hn⟩ := htype
  unfold memberType
  rw [htype, hmethod]
  exact (hs₁.resolve hname hn fuel).map.bind fun _ _ hs₂ => .pure ⟨hs₂, trivial⟩

theorem OnChain.compute (hs : OnChain s) (hname : ¬ IsReserved name) (fuel : Nat) (k : Listing)
    (listOf : TypeId → Session (List k.Item)) (t : TypeId) :
    After s ((chainUniverse name).compute ((chainUniverse name).resolve fuel) k listOf t)
      fun _ s' => OnChain s' := by
  have ht := hs t
  cases k with
  | members =>
    show After s (computeMembers _ _ _ t) _
    unfold computeMembers
    rintro ms s' hrun
    rw [Session.query_bind] at hrun
    generalize s.data t = d at ht hrun
    cases ht with
    | reserved | string =>
      cases hrun
      exact hs
    | link =>
      exact After.bind (Q := fun _ s' => OnChain s') (hs.resolveMembers hname fuel)
        (fun _ _ hs₁ => .pure hs₁) ms s' hrun
  | indexes =>
    show After s (computeIndexes _ _ _ t) _
    unfold computeIndexes
    rintro is s' hrun
    rw [Session.query_bind] at hrun
    generalize s.data t = d at ht hrun
    cases ht with
    | reserved | string | link =>
      cases hrun
      exact hs

theorem OnChain.list (hs : OnChain s) (hname : ¬ IsReserved name) (fuel : Nat) (k : Listing)
    (t : TypeId) : After s ((chainUniverse name).list fuel k t) fun _ s' => OnChain s' := by
  have hkeep : ∀ {s : Interner} {l : List k.Item}, OnChain s → OnChain (s.keep k t l) := by
    intro s l hs x
    rw [Interner.data_keep]
    exact hs x
  cases fuel with
  | zero =>
    cases k with
    | members | indexes => exact fun _ _ hrun => by cases hrun
  | succ fuel =>
    intro l s' hrun
    rcases list_succ_cases hrun with ⟨hkept, rfl⟩ | ⟨hkept, s₂, hcompute, rfl⟩
    · exact hs
    · exact hkeep ((hkeep hs).compute hname fuel k _ t _ _ hcompute)

theorem onChain_of_looks (hname : ¬ IsReserved name)
    (h : Relation.ReflTransGen (chainUniverse name).Looks (chainUniverse name).start s) :
    OnChain s := by
  induction h with
  | refl => exact fun _ => .reserved
  | tail _ hlook hs =>
    cases hlook with
    | instantiate hd run =>
      obtain ⟨rfl, -⟩ := chain_declaration hd
      exact hs.instantiate _ _ run
    | members run => exact hs.list hname _ .members _ _ _ run
    | indexes run => exact hs.list hname _ .indexes _ _ _ run

/-! On such a table a key is read off the data: the two types have keys without a text, and only
an open handle is keyed by its text, which is empty.  So no two texts are there to be told
apart. -/

theorem OnChain.keyOf (hs : OnChain s) {fuel : Nat} {t : TypeId} {key : TypeKey}
    (hrun : u.keyOf fuel t s = some (key, s')) :
    key = .intrinsic .string ∨ key = .symbol (.declared ⟨0, 0⟩) ∨ key = .opaqueText "" := by
  have ht := hs t
  cases fuel with
  | zero => cases hrun
  | succ fuel =>
    unfold Universe.keyOf keyWithin at hrun
    rw [Session.query_bind] at hrun
    generalize hd : s.data t = d at ht hrun
    cases ht with
    | reserved =>
      obtain ⟨text, s₁, hdisplay, hrun⟩ := bind_eq_some.1 hrun
      cases hrun
      cases fuel with
      | zero => cases hdisplay
      | succ fuel =>
        unfold display at hdisplay
        rw [Session.query_bind, hd] at hdisplay
        cases hdisplay
        exact .inr (.inr rfl)
    | string =>
      cases hrun
      exact .inl rfl
    | link =>
      cases hrun
      exact .inr (.inl rfl)

theorem OnChain.table (hs : OnChain s) (r : u.Renaming) : OnChain (r.table s) := by
  intro t
  have ht := hs t
  rw [data_table]
  generalize s.data t = d at ht
  cases ht with
  | reserved => exact .reserved
  | string => exact .string
  | link => exact .link

theorem chain_keepsTexts (hname : ¬ IsReserved name) (r : (chainUniverse name).Renaming) :
    r.KeepsTexts := by
  have hempty : ∀ {x x' : String}, r.TextBecomes x x' → x = "" ∧ x' = "" := by
    rintro x x' ⟨s, t, fuel, key, s₁, key', s₁', hlooks, hrun, hrun', hacross⟩
    have hs := onChain_of_looks hname hlooks
    have hkey := hs.keyOf hrun
    have hkey' := (hs.table r).keyOf hrun'
    cases hacross with
    | here =>
      simp only [TypeKey.opaqueText.injEq, reduceCtorEq, false_or] at hkey hkey'
      exact ⟨hkey, hkey'⟩
    | argument | branch => simp at hkey
  intro x x' y y' hx hy
  obtain ⟨rfl, rfl⟩ := hempty hx
  obtain ⟨rfl, rfl⟩ := hempty hy
  exact Iff.rfl

end Chain

/-- A chain of two. -/
def chainValue : Json := .object [("label", .string "a"), ("next", .object [("label", .string "b")])]

def boxRenaming : (chainUniverse "Box").Renaming :=
  toUnused (d := chainDeclaration "Box") ⟨0, 0⟩ rfl "Crate" (by decide) (by decide) (by decide)

/-- A box may as well be called a crate. -/
theorem boxRenaming_accepts_alike :
    boxRenaming.KeepsCircles ∧ boxRenaming.KeepsWords ∧ boxRenaming.KeepsTexts ∧
    ∃ tr tr', (chainUniverse "Box").tracedSchema? 6 = some tr ∧
      boxRenaming.target.tracedSchema? 6 = some tr' ∧ boxRenaming.AcceptAlike tr tr' ∧
      ∃ c ∈ tr.calls, (Check.checkValue tr.table chainValue [] false c.id).ok = true ∧
        (Check.checkValue tr'.table chainValue [] false c.id).ok = true := by
  have hcircles : boxRenaming.KeepsCircles := .of_not_transparent (by decide)
  have hwords : boxRenaming.KeepsWords := ⟨by decide, by decide⟩
  have htexts : boxRenaming.KeepsTexts := chain_keepsTexts (by decide) _
  have hsome : ((chainUniverse "Box").tracedSchema? 6).isSome = true := by decide +kernel
  obtain ⟨tr, htr⟩ := Option.isSome_iff_exists.1 hsome
  have haccepts : ((chainUniverse "Box").tracedSchema? 6).map (fun tr => tr.calls.any fun c =>
      (Check.checkValue tr.table chainValue [] false c.id).ok) = some true := by decide +kernel
  rw [htr] at haccepts
  obtain ⟨c, hc, hok⟩ := List.any_eq_true.1 (Option.some.inj haccepts)
  obtain ⟨tr', htr', halike⟩ := (accepts_alike boxRenaming hcircles hwords htexts).1 6 tr htr
  exact ⟨hcircles, hwords, htexts, tr, tr', htr, htr', halike, c, hc, hok,
    (halike.ok c hc chainValue [] false).trans hok⟩

/-! ## Renamings that do change what is accepted

One example for each condition, in which the others hold. -/

/-- What the schema of the exported declarations says to a value of a declared type. -/
def verdict? (u : Universe) (fuel : Nat) (id : DeclarationId) (v : Json) : Option Bool := do
  let tr ← u.tracedSchema? fuel
  let c ← tr.calls.find? fun c => decide (tr.types.symbol? c.type = some (.declared id))
  pure (Check.checkValue tr.table v [] false c.id).ok

def dateRenaming : (chainUniverse "Date").Renaming :=
  toUnused (d := chainDeclaration "Date") ⟨0, 0⟩ rfl "Day" (by decide) (by decide) (by decide)

/-- The values of an interface that is called like a builtin are taken for the builtin's. -/
theorem dateRenaming_accepts_more :
    dateRenaming.KeepsCircles ∧ dateRenaming.KeepsTexts ∧
      (chainUniverse "Date").verdict? 6 ⟨0, 0⟩ chainValue = some false ∧
      dateRenaming.target.verdict? 6 ⟨0, 0⟩ chainValue = some true :=
  ⟨.of_not_transparent (by decide), chain_keepsTexts (by decide) _, by decide +kernel,
    by decide +kernel⟩

/-- Two files with an alias of the same name, and boxes of unions that go round through them. -/
def twinUniverse : Universe where
  units := [
    ⟨"a.ts", [
      ⟨"Box", true, none, ["T"], .interface [] [⟨"item", false, false, some (.name "T")⟩] []⟩,
      ⟨"N", true, none, [], .typeAlias (.union [.name "string", .name "boolean",
        .generic "Box" [.union [.name "N", .name "number"]]])⟩,
      ⟨"M", true, none, [], .typeAlias (.union [.name "string",
        .generic "Box" [.union [.name "N", .name "number"]]])⟩,
      ⟨"Left", true, none, [], .interface []
        [⟨"v", false, false, some (.generic "Box" [.union [.name "M", .name "number"]])⟩] []⟩]⟩,
    ⟨"b.ts", [
      ⟨"N", true, none, [], .typeAlias (.union [.name "string",
        .generic "Box" [.union [.name "Q", .name "number"]]])⟩,
      ⟨"Q", true, none, [], .typeAlias (.union [.name "string", .name "boolean",
        .generic "Box" [.union [.name "N", .name "number"]]])⟩,
      ⟨"Right", true, none, [], .interface []
        [⟨"v", false, false, some (.generic "Box" [.union [.name "N", .name "number"]])⟩] []⟩]⟩]
  distinct := by decide

def twinRenaming : twinUniverse.Renaming :=
  toUnused ⟨1, 0⟩ rfl "K" (by decide) (by decide) (by decide)

def twinValue : Json :=
  .object [("v", .object [("item", .object [("item", .object [("item", .bool true)])])])]

/-- The unions are shown alike where they come up within themselves, so the one box is taken for
the other. -/
theorem twinRenaming_accepts_fewer :
    twinRenaming.KeepsCircles ∧ twinRenaming.KeepsWords ∧
      twinUniverse.verdict? 20 ⟨1, 2⟩ twinValue = some true ∧
      twinRenaming.target.verdict? 20 ⟨1, 2⟩ twinValue = some false :=
  ⟨.of_not_transparent (by decide), ⟨by decide, by decide⟩, by decide +kernel, by decide +kernel⟩

/-- Two files with a circular alias of the same name, and a union of both. -/
def circleUniverse : Universe where
  units := [
    ⟨"a.ts", [
      ⟨"A", false, none, [], .typeAlias (.array (.name "A"))⟩,
      ⟨"X", false, none, [], .typeAlias (.name "A")⟩]⟩,
    ⟨"b.ts", [
      ⟨"A", false, none, [], .typeAlias (.array (.name "A"))⟩,
      ⟨"Holder", true, none, [], .interface []
        [⟨"v", false, false, some (.union [.name "X", .name "A"])⟩] []⟩]⟩]
  distinct := by decide

def circleRenaming : circleUniverse.Renaming :=
  toUnused ⟨1, 0⟩ rfl "B" (by decide) (by decide) (by decide)

/-- What is left of both aliases is one type, and the node of its union is its own branch. -/
theorem circleRenaming_accepts_more :
    circleRenaming.KeepsWords ∧
      circleUniverse.verdict? 9 ⟨1, 1⟩ (.object [("v", .array [])]) = some false ∧
      circleRenaming.target.verdict? 9 ⟨1, 1⟩ (.object [("v", .array [])]) = some true :=
  ⟨⟨by decide, by decide⟩, by decide +kernel, by decide +kernel⟩

end Universe
end TypedJson
