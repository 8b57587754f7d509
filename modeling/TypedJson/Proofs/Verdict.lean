import TypedJson.Proofs.Conformance
/-!
# What the check of a value decides

The verdict of a check is conformance, in a strict check as on trial (`ok_checkValue_iff`).
Its findings say the same: a trial finds no errors, and a strict check finds one exactly
when it fails (`checkValue_reports`), provided that the node of a failing value has a shape
to fail.  Together they say what a report without errors means
(`hasErrors_eq_false_iff_conforms`).

The two statements have one shape for every outcome that the check puts together.  An outcome
`Reports` if it holds an error exactly when it is strict and fails; the combinations `both`
and `all` preserve that, so each kind of node needs a lemma on its verdict and one on its
report, and the recursion over the value joins them.

The condition on shapes is needed for the reports only.  A node without any shape fails every
value and has nothing to say about it; what a strict check goes on to must not be such a
node, what is only tried may be.
-/
namespace TypedJson

namespace Outcome

def hasErrors (o : Outcome) : Bool := o.findings.any (·.isError)

/-- The outcome holds an error exactly if a strict check failed. -/
def Reports (strict : Bool) (o : Outcome) : Prop := o.hasErrors = (strict && !o.ok)

/-! A finding with which a strict check fails is an error, and one that comes with a pass is
none; so `Reports` holds of the outcomes that are made of a single finding, and it is kept
as they are joined. -/

theorem reports_pass (strict : Bool) : pass.Reports strict := by cases strict <;> rfl

theorem Reports.both {strict : Bool} {a b : Outcome} (ha : a.Reports strict)
    (hb : b.Reports strict) : (a.both b).Reports strict := by
  unfold Reports hasErrors at *
  rw [Outcome.both, List.any_append, ha, hb]
  cases strict <;> cases a.ok <;> cases b.ok <;> rfl

theorem reports_all {strict : Bool} : ∀ os : List Outcome, (∀ o ∈ os, o.Reports strict) →
    (all os).Reports strict
  | [], _ => reports_pass strict
  | o :: os, h =>
    (h o List.mem_cons_self).both (reports_all os fun x hx => h x (List.mem_cons_of_mem _ hx))

theorem ok_both (a b : Outcome) : (a.both b).ok = true ↔ a.ok = true ∧ b.ok = true := by
  rw [both, Bool.and_eq_true]

theorem ok_all : ∀ os : List Outcome, (all os).ok = true ↔ ∀ o ∈ os, o.ok = true
  | [] => by simp [all, pass]
  | o :: os => by
    rw [show all (o :: os) = o.both (all os) from rfl, ok_both, ok_all os]
    simp

end Outcome

namespace Check

theorem failWith_reports (strict : Bool) {f : Finding} (h : f.isError = true) :
    (failWith strict f).Reports strict := by
  cases strict <;> simp [Outcome.Reports, Outcome.hasErrors, failWith, h]

theorem passWith_reports (strict : Bool) {f : Finding} (h : f.isError = false) :
    (passWith f).Reports strict := by
  simp [Outcome.Reports, Outcome.hasErrors, passWith, h]

@[simp] theorem ok_failWith (strict : Bool) (f : Finding) : (failWith strict f).ok = false := rfl

@[simp] theorem ok_passWith (f : Finding) : (passWith f).ok = true := rfl

/-! ## Scalars

Dates and patterns accept a text as well, with a finding that is no error.  Unknown
properties are noted in a strict check only, and are no error either. -/

theorem ok_dateOutcome (place : Place) (strict : Bool) (n : SchemaNode) (v : Json) :
    (dateOutcome place strict n v).ok = (Scalar.dateForm? v).isSome := by
  unfold dateOutcome
  split <;> rename_i h <;> rw [h] <;> rfl

theorem dateOutcome_reports (place : Place) (strict : Bool) (n : SchemaNode) (v : Json) :
    (dateOutcome place strict n v).Reports strict := by
  unfold dateOutcome
  split
  · exact passWith_reports strict rfl
  · exact Outcome.reports_pass strict
  · exact failWith_reports strict rfl

theorem ok_patternOutcome_iff (place : Place) (strict : Bool) (n : SchemaNode) (v : Json) :
    (patternOutcome place strict n v).ok = true ↔
      Scalar.isTaggedPattern v = true ∨ ∃ s, v = .string s := by
  unfold patternOutcome
  split
  · rename_i h
    simp [h, Outcome.pass]
  · rename_i h
    split
    · simp
    · rename_i hs
      simp only [ok_failWith, Bool.false_eq_true, false_iff, not_or, not_exists]
      exact ⟨h, hs⟩

theorem patternOutcome_reports (place : Place) (strict : Bool) (n : SchemaNode) (v : Json) :
    (patternOutcome place strict n v).Reports strict := by
  unfold patternOutcome
  split
  · exact Outcome.reports_pass strict
  · split
    · exact passWith_reports strict rfl
    · exact failWith_reports strict rfl

theorem unknownOutcome_reports (place : Place) (strict : Bool) (n : SchemaNode) (v : Json)
    (keys : List String) : (unknownOutcome place strict n v keys).Reports strict := by
  unfold unknownOutcome
  split
  · exact passWith_reports strict rfl
  · exact Outcome.reports_pass strict

theorem ok_unknownOutcome (place : Place) (strict : Bool) (n : SchemaNode) (v : Json)
    (keys : List String) : (unknownOutcome place strict n v keys).ok = true := by
  unfold unknownOutcome
  split <;> rfl

/-! ## Objects

The parts of a value are checked by a list of checkers; the lemmas assume what the checker
of each part decides, which the induction over the value supplies. -/

section Parts
variable {t : NodeTable} {S : NodeId → Prop}

/-- The checker of a value decides conformance. -/
def Decides (t : NodeTable) (v : Json) (check : Checker) : Prop :=
  ∀ place strict id, id.index < t.size → ((check place strict id).ok = true ↔ t.Conforms v id)

/-- The checker finds an error exactly if a strict check fails. -/
def Truthful (t : NodeTable) (check : Checker) : Prop :=
  ∀ place strict id, id.index < t.size → (check place strict id).Reports strict

/-- The nodes in question have a shape, and so have those that a strict check of one of them
goes on to.  A node with a union ends such a check, as its branches are only tried. -/
def ShapedWithin (t : NodeTable) (S : NodeId → Prop) : Prop :=
  ∀ c, c.index < t.size → S c →
    (t.node c).HasShape ∧ ∀ r ∈ (t.node c).checkedParts, (t.node r).unionOf = [] → S r

/-- The same of strict checks of the nodes in question only, and of trials of all nodes. -/
def TruthfulWithin (t : NodeTable) (S : NodeId → Prop) (check : Checker) : Prop :=
  ∀ place strict id, id.index < t.size → (strict = true → (t.node id).unionOf = [] → S id) →
    (check place strict id).Reports strict

theorem signatureFor?_eq_some_iff (closed : t.Closed) {c : NodeId} (hc : c.index < t.size)
    (key : String) (x : IndexSignature) :
    signatureFor? t (t.node c) key = some x ↔ t.FirstAdmitting (t.node c) key x := by
  have hkey : ∀ y ∈ (t.node c).indexes, (admitsKey t y.keyType key = true ↔ t.AdmitsKey y.keyType key) := by
    intro y hy
    exact NodeTable.anyBranch_iff closed (closed.signature hc hy).1
  unfold signatureFor? NodeTable.FirstAdmitting
  rw [List.find?_eq_some_iff_append]
  constructor
  · rintro ⟨hx, before, after, hsplit, hbefore⟩
    have hmem : ∀ y ∈ before, y ∈ (t.node c).indexes := fun y hy => by rw [hsplit]; simp [hy]
    refine ⟨before, after, hsplit, (hkey x (by rw [hsplit]; simp)).1 hx, ?_⟩
    intro y hy hadm
    have hno := hbefore y hy
    rw [(hkey y (hmem y hy)).2 hadm] at hno
    cases hno
  · rintro ⟨before, after, hsplit, hx, hbefore⟩
    have hmem : ∀ y ∈ before, y ∈ (t.node c).indexes := fun y hy => by rw [hsplit]; simp [hy]
    refine ⟨(hkey x (by rw [hsplit]; simp)).2 hx, before, after, hsplit, ?_⟩
    intro y hy
    have hno : ¬ admitsKey t y.keyType key = true := fun h => hbefore y hy ((hkey y (hmem y hy)).1 h)
    simp [hno]

/-! Each part of the check of an object gets two lemmas: when it passes, and that it reports
truthfully.  The first rests on what the checks of the values decide, the second on what they
report alone, so that it can be used where they do not decide. -/

theorem member?_map {α β : Type} (f : α → β) (name : String) (members : List (String × α)) :
    Json.member? name (members.map fun m => (m.1, f m.2)) = (Json.member? name members).map f := by
  simp only [Json.member?, List.find?_map, Option.map_map, Function.comp_def]

/-- Members of the same names, with values that are related. -/
theorem member?_rel {α β : Type} {R : α → β → Prop} {members : List (String × α)}
    {members' : List (String × β)}
    (h : List.Forall₂ (fun m m' => m.1 = m'.1 ∧ R m.2 m'.2) members members') (name : String) :
    Option.Rel R (Json.member? name members) (Json.member? name members') := by
  unfold Json.member?
  induction h with
  | nil => exact .none
  | @cons m m' _ _ hm _ ih =>
    rw [List.find?_cons, List.find?_cons, hm.1]
    cases m'.1 == name with
    | true => exact .some hm.2
    | false => exact ih

theorem ok_checkAbsent_iff (place : Place) (strict optional : Bool) (id : NodeId) :
    (checkAbsent t place strict optional id).ok = true ↔ optional = true := by
  unfold checkAbsent
  cases optional with
  | true => simp [Outcome.pass]
  | false => simp only [Bool.false_eq_true, if_false, iff_false]; split <;> simp

theorem checkAbsent_reports (place : Place) (strict optional : Bool) (id : NodeId) :
    (checkAbsent t place strict optional id).Reports strict := by
  unfold checkAbsent
  split
  · exact Outcome.reports_pass strict
  · split
    · exact failWith_reports strict rfl
    · exact failWith_reports strict rfl

theorem ok_propertyOutcome_iff {members : List (String × Json)}
    (decides : ∀ m ∈ members, Decides t m.2 (checkValue t m.2)) (place : Place) (strict : Bool)
    (p : Property) (hp : p.type.index < t.size) :
    (propertyOutcome t place strict (checkMembers t members) p).ok = true ↔
      (Json.member? p.name members = none → p.isOptional = true) ∧
      ∀ j, Json.member? p.name members = some j → t.Conforms j p.type := by
  unfold propertyOutcome
  rw [checkMembers_eq_map, member?_map]
  cases hm : Json.member? p.name members with
  | none =>
    rw [Option.map_none, ok_checkAbsent_iff]
    simp
  | some j =>
    rw [Option.map_some, decides _ (Json.mem_of_member? hm) _ _ _ hp]
    simp

theorem propertyOutcome_reports {members : List (String × Json)}
    (truthful : ∀ m ∈ members, TruthfulWithin t S (checkValue t m.2)) (place : Place) (strict : Bool)
    (p : Property) (hp : p.type.index < t.size)
    (hS : strict = true → (t.node p.type).unionOf = [] → S p.type) :
    (propertyOutcome t place strict (checkMembers t members) p).Reports strict := by
  unfold propertyOutcome
  rw [checkMembers_eq_map, member?_map]
  cases hm : Json.member? p.name members with
  | none => exact checkAbsent_reports _ strict p.isOptional p.type
  | some j => exact truthful _ (Json.mem_of_member? hm) _ _ _ hp hS

theorem roleOf_eq_signature_iff (n : SchemaNode) (key : String) (x : IndexSignature) :
    roleOf t n key = .signature x ↔ n.property? key = none ∧ signatureFor? t n key = some x := by
  unfold roleOf
  cases hp : n.property? key with
  | some p => simp
  | none =>
    cases hs : signatureFor? t n key with
    | none => simp
    | some y => simp

theorem ok_memberOutcome_iff (closed : t.Closed) {c : NodeId} (hc : c.index < t.size)
    {m : String × Json} (decides : Decides t m.2 (checkValue t m.2)) (place : Place) (strict : Bool) :
    (memberOutcome t (t.node c) place strict (m.1, checkValue t m.2)).ok = true ↔
      ((t.node c).property? m.1 = none →
        ∀ x, t.FirstAdmitting (t.node c) m.1 x → t.Conforms m.2 x.valueType) := by
  unfold memberOutcome
  cases hr : roleOf t (t.node c) m.1 with
  | signature x =>
    obtain ⟨hp, hs⟩ := (roleOf_eq_signature_iff _ _ _).1 hr
    have hfirst := (signatureFor?_eq_some_iff closed hc m.1 x).1 hs
    have hx : x ∈ (t.node c).indexes := List.mem_of_find?_eq_some hs
    rw [decides _ _ _ (closed.signature hc hx).2]
    constructor
    · intro h _ y hy
      rw [← signatureFor?_eq_some_iff closed hc, hs] at hy
      cases hy
      exact h
    · exact fun h => h hp x hfirst
  -- a declared key is checked as a property, and here it passes as it is
  | declared =>
    refine iff_of_true rfl ?_
    intro hp x hx
    rw [(roleOf_eq_signature_iff _ _ x).2 ⟨hp, (signatureFor?_eq_some_iff closed hc m.1 x).2 hx⟩] at hr
    cases hr
  -- no signature admits the key, so there is none for it to conform to
  | unknown =>
    refine iff_of_true rfl ?_
    intro hp x hx
    rw [(roleOf_eq_signature_iff _ _ x).2 ⟨hp, (signatureFor?_eq_some_iff closed hc m.1 x).2 hx⟩] at hr
    cases hr

theorem memberOutcome_reports (closed : t.Closed) {c : NodeId} (hc : c.index < t.size)
    {m : String × Json} (truthful : TruthfulWithin t S (checkValue t m.2)) (place : Place)
    (strict : Bool)
    (hS : strict = true → ∀ r ∈ (t.node c).checkedParts, (t.node r).unionOf = [] → S r) :
    (memberOutcome t (t.node c) place strict (m.1, checkValue t m.2)).Reports strict := by
  unfold memberOutcome
  split
  · rename_i x hr
    obtain ⟨-, hs⟩ := (roleOf_eq_signature_iff _ _ _).1 hr
    have hx : x ∈ (t.node c).indexes := List.mem_of_find?_eq_some hs
    exact truthful _ _ _ (closed.signature hc hx).2 fun h => hS h _ (SchemaNode.mem_checkedParts_of_signature hx)
  · exact Outcome.reports_pass strict

theorem ok_objectOutcome_iff (closed : t.Closed) {c : NodeId} (hc : c.index < t.size)
    {members : List (String × Json)} (decides : ∀ m ∈ members, Decides t m.2 (checkValue t m.2))
    (place : Place) (strict : Bool) (v : Json) :
    (objectOutcome t place strict (t.node c) v (checkMembers t members)).ok = true ↔
      t.MembersConform (t.node c) members := by
  have hprops : (∀ o ∈ (t.node c).properties.map (propertyOutcome t place strict
      (checkMembers t members)), o.ok = true) ↔ ∀ p ∈ (t.node c).properties,
        (Json.member? p.name members = none → p.isOptional = true) ∧
        ∀ j, Json.member? p.name members = some j → t.Conforms j p.type := by
    rw [List.forall_mem_map]
    exact forall₂_congr fun p hp => ok_propertyOutcome_iff decides place strict p (closed.property hc hp)
  have hmembers : (∀ o ∈ (checkMembers t members).map (memberOutcome t (t.node c) place strict),
      o.ok = true) ↔ ∀ m ∈ members, (t.node c).property? m.1 = none →
        ∀ x, t.FirstAdmitting (t.node c) m.1 x → t.Conforms m.2 x.valueType := by
    rw [checkMembers_eq_map, List.map_map, List.forall_mem_map]
    exact forall₂_congr fun m hm => ok_memberOutcome_iff closed hc (decides m hm) place strict
  unfold objectOutcome
  rw [Outcome.ok_both, Outcome.ok_both, Outcome.ok_all, Outcome.ok_all, hprops, hmembers,
    ok_unknownOutcome, NodeTable.MembersConform]
  simp only [and_true]

theorem objectOutcome_reports (closed : t.Closed) {c : NodeId} (hc : c.index < t.size)
    {members : List (String × Json)} (truthful : ∀ m ∈ members, TruthfulWithin t S (checkValue t m.2))
    (place : Place) (strict : Bool)
    (hS : strict = true → ∀ r ∈ (t.node c).checkedParts, (t.node r).unionOf = [] → S r) (v : Json) :
    (objectOutcome t place strict (t.node c) v (checkMembers t members)).Reports strict := by
  have hprops : (Outcome.all ((t.node c).properties.map (propertyOutcome t place strict
      (checkMembers t members)))).Reports strict := by
    refine Outcome.reports_all _ (List.forall_mem_map.2 fun p hp => ?_)
    exact propertyOutcome_reports truthful place strict p (closed.property hc hp)
      fun h => hS h _ (SchemaNode.mem_checkedParts_of_property hp)
  have hmembers : (Outcome.all ((checkMembers t members).map
      (memberOutcome t (t.node c) place strict))).Reports strict := by
    rw [checkMembers_eq_map, List.map_map]
    refine Outcome.reports_all _ (List.forall_mem_map.2 fun m hm => ?_)
    exact memberOutcome_reports closed hc (truthful m hm) place strict hS
  exact hprops.both (hmembers.both (unknownOutcome_reports place strict _ v _))

theorem ok_itemOutcomes_iff (place : Place) (strict : Bool) {item : NodeId}
    (hitem : item.index < t.size) : ∀ (items : List Json) (i : Nat),
      (∀ j ∈ items, Decides t j (checkValue t j)) →
      ((∀ o ∈ itemOutcomes place strict item i (checkItems t items), o.ok = true) ↔
        ∀ j ∈ items, t.Conforms j item)
  | [], _, _ => by simp [checkItems, itemOutcomes]
  | j :: rest, i, decides => by
    rw [checkItems, itemOutcomes, List.forall_mem_cons, List.forall_mem_cons,
      decides j List.mem_cons_self _ _ _ hitem,
      ok_itemOutcomes_iff place strict hitem rest (i + 1)
        fun x hx => decides x (List.mem_cons_of_mem _ hx)]

theorem itemOutcomes_reports (place : Place) (strict : Bool) {item : NodeId}
    (hitem : item.index < t.size) (hS : strict = true → (t.node item).unionOf = [] → S item) :
    ∀ (items : List Json) (i : Nat), (∀ j ∈ items, TruthfulWithin t S (checkValue t j)) →
      ∀ o ∈ itemOutcomes place strict item i (checkItems t items), o.Reports strict
  | [], _, _ => by simp [checkItems, itemOutcomes]
  | j :: rest, i, truthful => by
    rw [checkItems, itemOutcomes, List.forall_mem_cons]
    exact ⟨truthful j List.mem_cons_self _ _ _ hitem hS,
      itemOutcomes_reports place strict hitem hS rest (i + 1)
        fun x hx => truthful x (List.mem_cons_of_mem _ hx)⟩

/-! ## Values

The branches set apart, `null` is decided by nullability and an array by the element type.
What is left is plain, and is held against the literals, the display name and the members of
the node, in that order; `FitsScalar` covers the first two. -/

theorem mem_primitiveNames_of_fitsName {name : String} {v : Json} (h : Scalar.FitsName name v) :
    name ∈ Scalar.primitiveNames := by
  rcases h with h | ⟨rfl, -⟩ | ⟨rfl, -⟩
  · unfold Scalar.matchesPrimitive at h
    split at h <;> simp_all [Scalar.primitiveNames]
  · simp [Scalar.primitiveNames]
  · simp [Scalar.primitiveNames]

theorem fitsScalar_iff_of_no_literal {n : SchemaNode} {v : Json}
    (h : ¬ n.allowedValues.values.any (·.matchesValue v) = true) :
    n.FitsScalar v ↔ Scalar.FitsName n.displayName v := by
  have hno : ¬ ∃ l ∈ n.allowedValues.values, l.matchesValue v = true := by
    simpa [List.any_eq_true] using h
  simp only [SchemaNode.FitsScalar, hno, false_or]

theorem fitsScalar_array (n : SchemaNode) (items : List Json) : ¬ n.FitsScalar (.array items) := by
  rintro (⟨l, -, h⟩ | h | ⟨-, h⟩ | ⟨-, h | ⟨s, h⟩⟩)
  · cases l <;> cases h
  · unfold Scalar.matchesPrimitive at h
    split at h <;> simp_all [Scalar.isIntegral]
  · cases h
  · cases h
  · cases h

theorem ok_plainOutcome_iff (place : Place) (strict : Bool) (n : SchemaNode) (v : Json)
    (members : List (String × Checker)) :
    (plainOutcome t place strict n v members).ok = true ↔ n.FitsScalar v ∨
      (n.IsStructure ∧ ∃ ms, v = .object ms ∧ (objectOutcome t place strict n v members).ok = true) := by
  have named : n.displayName ∈ Scalar.primitiveNames → ¬ n.IsStructure := fun h hs => hs.1 h
  unfold plainOutcome
  split
  · rename_i hlit
    obtain ⟨l, hl, hv⟩ := List.any_eq_true.1 hlit
    exact iff_of_true rfl (.inl (.inl ⟨l, hl, hv⟩))
  · rename_i hlit
    rw [fitsScalar_iff_of_no_literal hlit]
    split
    case h_5 hname =>
      rw [ok_dateOutcome]
      simp [named (by simp [hname, Scalar.primitiveNames]), Scalar.FitsName, hname,
        Scalar.matchesPrimitive]
    case h_6 hname =>
      rw [ok_patternOutcome_iff]
      simp [named (by simp [hname, Scalar.primitiveNames]), Scalar.FitsName, hname,
        Scalar.matchesPrimitive]
    case h_7 h1 h2 h3 h4 h5 h6 =>
      -- no primitive name: the node describes objects if it has anything to say of them
      have hname : n.displayName ∉ Scalar.primitiveNames := by
        simp only [Scalar.primitiveNames, List.mem_cons, List.not_mem_nil, or_false, not_or]
        exact ⟨h1, h2, h3, h4, h5, h6⟩
      have hno : ¬ Scalar.FitsName n.displayName v := fun h => hname (mem_primitiveNames_of_fitsName h)
      have hstruct : n.IsStructure ↔ (!n.properties.isEmpty || !n.indexes.isEmpty) = true := by
        simp [SchemaNode.IsStructure, hname]
      rw [hstruct]
      simp only [hno, false_or]
      split
      · rename_i hparts
        simp only [hparts, true_and]
        cases v <;> simp
      · split <;> simp [Outcome.fail, *]
    all_goals
      rename_i hname
      have hprim : n.displayName ∈ Scalar.primitiveNames := by simp [hname, Scalar.primitiveNames]
      simp only [named hprim, false_and, or_false, Scalar.FitsName, hname]
      split <;> simp_all [Outcome.pass]

/-- A strict check is made of a node without a union only, and such a node has a shape of
its own; so it never fails without a finding. -/
theorem plainOutcome_reports (place : Place) (strict : Bool) (n : SchemaNode) (v : Json)
    (members : List (String × Checker)) (harray : n.arrayOf = none)
    (shaped : strict = true → n.unionOf = [] ∧ n.HasShape)
    (hobject : ∀ ms, v = .object ms → (objectOutcome t place strict n v members).Reports strict) :
    (plainOutcome t place strict n v members).Reports strict := by
  unfold plainOutcome
  split
  · exact Outcome.reports_pass strict
  · split
    case h_5 => exact dateOutcome_reports place strict n v
    case h_6 => exact patternOutcome_reports place strict n v
    case h_7 h1 h2 h3 h4 h5 h6 =>
      split
      · split
        · exact hobject _ rfl
        · exact failWith_reports strict rfl
      · rename_i hparts
        split
        · exact failWith_reports strict rfl
        · rename_i hliteral
          cases strict with
          | false => rfl
          | true =>
            obtain ⟨hunion, hshape⟩ := shaped rfl
            simp only [Bool.or_eq_true, Bool.not_eq_true', List.isEmpty_eq_false_iff, not_or,
              not_not] at hparts
            simp_all [SchemaNode.HasShape, SchemaNode.isLiteralOnly, LiteralSet.isEmpty,
              Scalar.primitiveNames]
    all_goals
      split
      · exact Outcome.reports_pass strict
      · exact failWith_reports strict rfl

theorem ok_shapeOutcome_null_iff (closed : t.Closed) (items : List Checker)
    (members : List (String × Checker)) (place : Place) (strict : Bool) {c : NodeId}
    (hc : c.index < t.size) :
    (shapeOutcome t .null items members place strict c).ok = true ↔ t.Fits .null c := by
  unfold shapeOutcome
  simp only [NodeTable.Fits, ← NodeTable.isNullable_iff closed hc]
  split <;> simp_all [Outcome.pass]

theorem shapeOutcome_null_reports (items : List Checker) (members : List (String × Checker))
    (place : Place) (strict : Bool) (c : NodeId) :
    (shapeOutcome t .null items members place strict c).Reports strict := by
  unfold shapeOutcome
  dsimp only
  split
  · exact Outcome.reports_pass strict
  · exact failWith_reports strict rfl

theorem ok_shapeOutcome_array_iff (closed : t.Closed) {items : List Json}
    (decides : ∀ j ∈ items, Decides t j (checkValue t j)) (place : Place) (strict : Bool)
    {c : NodeId} (hc : c.index < t.size) :
    (shapeOutcome t (.array items) (checkItems t items) [] place strict c).ok = true ↔
      t.Fits (.array items) c := by
  unfold NodeTable.Fits
  cases harray : (t.node c).arrayOf with
  | none => simp [shapeOutcome, harray]
  | some item =>
    simp only [shapeOutcome, harray, Option.some.injEq, exists_eq_left']
    rw [Outcome.ok_all, ok_itemOutcomes_iff place strict (closed.item hc harray) items 0 decides]

theorem shapeOutcome_array_reports (closed : t.Closed) {items : List Json}
    (truthful : ∀ j ∈ items, TruthfulWithin t S (checkValue t j)) (place : Place) (strict : Bool)
    {c : NodeId} (hc : c.index < t.size)
    (hS : strict = true → ∀ r ∈ (t.node c).checkedParts, (t.node r).unionOf = [] → S r) :
    (shapeOutcome t (.array items) (checkItems t items) [] place strict c).Reports strict := by
  cases harray : (t.node c).arrayOf with
  | none =>
    simp only [shapeOutcome, harray]
    exact failWith_reports strict rfl
  | some item =>
    simp only [shapeOutcome, harray]
    exact Outcome.reports_all _ (itemOutcomes_reports place strict (closed.item hc harray)
      (fun h => hS h _ (SchemaNode.mem_checkedParts_of_item harray)) items 0 truthful)

/-- Neither `null` nor an array. -/
def IsPlain (v : Json) : Prop := v ≠ .null ∧ ∀ items, v ≠ .array items

theorem shapeOutcome_plain {v : Json} (hv : IsPlain v) (items : List Checker)
    (members : List (String × Checker)) (place : Place) (strict : Bool) (c : NodeId)
    (harray : (t.node c).arrayOf = none) :
    shapeOutcome t v items members place strict c =
      plainOutcome t place strict (t.node c) v members := by
  unfold shapeOutcome
  simp only [harray]
  cases v with
  | null => exact absurd rfl hv.1
  | array items => exact absurd rfl (hv.2 items)
  | _ => rfl

theorem shapeOutcome_of_array {v : Json} (hv : IsPlain v) (items : List Checker)
    (members : List (String × Checker)) (place : Place) (strict : Bool) (c item : NodeId)
    (harray : (t.node c).arrayOf = some item) :
    ∃ f, f.isError = true ∧ shapeOutcome t v items members place strict c = failWith strict f := by
  unfold shapeOutcome
  simp only [harray]
  cases v with
  | null => exact absurd rfl hv.1
  | array items => exact absurd rfl (hv.2 items)
  | _ => exact ⟨_, rfl, rfl⟩

theorem ok_shapeOutcome_plain_iff {v : Json} (hv : IsPlain v) (items : List Checker)
    (members : List (String × Checker)) (place : Place) (strict : Bool) {c : NodeId}
    (hobject : ∀ ms, v = .object ms →
      ((objectOutcome t place strict (t.node c) v members).ok = true ↔
        t.MembersConform (t.node c) ms)) :
    (shapeOutcome t v items members place strict c).ok = true ↔ t.Fits v c := by
  cases harray : (t.node c).arrayOf with
  | some item =>
    obtain ⟨f, -, heq⟩ := shapeOutcome_of_array hv items members place strict c item harray
    rw [heq]
    cases v with
    | null => exact absurd rfl hv.1
    | array js => exact absurd rfl (hv.2 js)
    | _ => simp [NodeTable.Fits, harray]
  | none =>
    rw [shapeOutcome_plain hv items members place strict c harray, ok_plainOutcome_iff]
    cases v with
    | null => exact absurd rfl hv.1
    | array js => exact absurd rfl (hv.2 js)
    | object ms =>
      rw [hobject ms rfl]
      simp [NodeTable.Fits, harray]
    | _ => simp [NodeTable.Fits, harray]

theorem shapeOutcome_plain_reports {v : Json} (hv : IsPlain v) (items : List Checker)
    (members : List (String × Checker)) (place : Place) (strict : Bool) {c : NodeId}
    (shaped : strict = true → (t.node c).unionOf = [] ∧ (t.node c).HasShape)
    (hobject : ∀ ms, v = .object ms →
      (objectOutcome t place strict (t.node c) v members).Reports strict) :
    (shapeOutcome t v items members place strict c).Reports strict := by
  cases harray : (t.node c).arrayOf with
  | some item =>
    obtain ⟨f, herror, heq⟩ := shapeOutcome_of_array hv items members place strict c item harray
    rw [heq]
    exact failWith_reports strict herror
  | none =>
    rw [shapeOutcome_plain hv items members place strict c harray]
    exact plainOutcome_reports place strict _ v members harray shaped hobject

/-! ## Unions

The branches are only ever tried, in their order.  So a union has the verdict that one of its
candidates gives on trial, and its report is one finding of its own when all of them fail. -/

theorem firstAccepted?_eq_some {shape : Checker} {place : Place} : ∀ {cs : List NodeId} {o : Outcome},
    firstAccepted? shape place cs = some o → o.ok = true ∧ ∃ c ∈ cs, shape place false c = o
  | c :: cs, o, h => by
    rw [firstAccepted?] at h
    split at h
    · rename_i hok
      cases h
      exact ⟨hok, c, List.mem_cons_self, rfl⟩
    · obtain ⟨hok, x, hx, heq⟩ := firstAccepted?_eq_some h
      exact ⟨hok, x, List.mem_cons_of_mem _ hx, heq⟩

theorem firstAccepted?_eq_none {shape : Checker} {place : Place} : ∀ {cs : List NodeId},
    firstAccepted? shape place cs = none → ∀ c ∈ cs, ¬ (shape place false c).ok = true
  | [], _ => by simp
  | c :: cs, h => by
    rw [firstAccepted?] at h
    split at h
    · cases h
    · rename_i hok
      intro x hx
      rcases List.mem_cons.1 hx with rfl | hx
      · exact hok
      · exact firstAccepted?_eq_none h x hx

theorem candidates_lt (closed : t.Closed) {id : NodeId} (hid : id.index < t.size) :
    ∀ c ∈ t.candidates id, c.index < t.size := by
  intro c hc
  rcases List.mem_cons.1 hc with rfl | hc
  · exact hid
  · exact closed.branch hid hc

theorem unionOutcome_decides (closed : t.Closed) {v : Json} {shape : Checker}
    (hshape : ∀ place strict c, c.index < t.size →
      ((shape place strict c).ok = true ↔ t.Fits v c)) :
    Decides t v (unionOutcome t v shape) := by
  intro place strict id hid
  have hcand := candidates_lt closed hid
  rw [NodeTable.conforms_iff_fits]
  unfold unionOutcome
  split
  · rename_i hunion
    rw [hshape place strict id hid]
    simp [NodeTable.candidates, hunion]
  · split
    · rename_i trial hfirst
      obtain ⟨hok, c, hc, rfl⟩ := firstAccepted?_eq_some hfirst
      exact iff_of_true hok ⟨c, hc, (hshape place false c (hcand c hc)).1 hok⟩
    · rename_i hfirst
      refine iff_of_false (by simp) ?_
      rintro ⟨c, hc, hfit⟩
      exact firstAccepted?_eq_none hfirst c hc ((hshape place false c (hcand c hc)).2 hfit)

theorem unionOutcome_truthful (closed : t.Closed) {v : Json} {shape : Checker}
    (hshape : ∀ place strict c, c.index < t.size → (strict = true → (t.node c).unionOf = [] ∧ S c) →
      (shape place strict c).Reports strict) :
    TruthfulWithin t S (unionOutcome t v shape) := by
  intro place strict id hid hS
  have hcand := candidates_lt closed hid
  unfold unionOutcome
  split
  · rename_i hunion
    exact hshape place strict id hid fun h => ⟨hunion, hS h hunion⟩
  · split
    · rename_i trial hfirst
      obtain ⟨hok, c, hc, rfl⟩ := firstAccepted?_eq_some hfirst
      have htrial := hshape place false c (hcand c hc) (fun h => by cases h)
      unfold Outcome.Reports at htrial ⊢
      rw [htrial, hok]
      cases strict <;> rfl
    · exact failWith_reports strict rfl

end Parts

/-! ## The check as a whole -/

variable {t : NodeTable}

/-- **The verdict is conformance**, in a strict check as on trial. -/
theorem ok_checkValue_iff (closed : t.Closed) : ∀ v : Json, Decides t v (checkValue t v)
  | .null => by
    rw [checkValue]
    exact unionOutcome_decides closed fun place strict c hc =>
      ok_shapeOutcome_null_iff closed [] [] place strict hc
  | .array items => by
    have decides : ∀ j ∈ items, Decides t j (checkValue t j) := fun j _ => ok_checkValue_iff closed j
    rw [checkValue]
    exact unionOutcome_decides closed fun place strict c hc =>
      ok_shapeOutcome_array_iff closed decides place strict hc
  | .object members => by
    have decides : ∀ m ∈ members, Decides t m.2 (checkValue t m.2) :=
      fun m _ => ok_checkValue_iff closed m.2
    rw [checkValue]
    refine unionOutcome_decides closed fun place strict c hc => ?_
    refine ok_shapeOutcome_plain_iff ⟨by simp, by simp⟩ [] _ place strict ?_
    rintro ms ⟨⟩
    exact ok_objectOutcome_iff closed hc decides place strict (.object members)
  | .bool _ | .number _ | .string _ => by
    rw [checkValue]
    exact unionOutcome_decides closed fun place strict c _ =>
      ok_shapeOutcome_plain_iff ⟨by simp, by simp⟩ [] [] place strict (by simp)
termination_by v => sizeOf v
decreasing_by
  · exact Json.sizeOf_item_lt ‹_›
  · exact Json.sizeOf_value_lt ‹_›

/-- **The findings agree with the verdict** as far as the nodes have a shape: a trial finds no
errors, and a strict check finds one exactly if the value fails. -/
theorem checkValue_truthfulWithin (closed : t.Closed) {S : NodeId → Prop} (shaped : ShapedWithin t S) :
    ∀ v : Json, TruthfulWithin t S (checkValue t v)
  | .null => by
    rw [checkValue]
    exact unionOutcome_truthful closed fun place strict c _ _ =>
      shapeOutcome_null_reports [] [] place strict c
  | .array items => by
    have truthful : ∀ j ∈ items, TruthfulWithin t S (checkValue t j) :=
      fun j _ => checkValue_truthfulWithin closed shaped j
    rw [checkValue]
    exact unionOutcome_truthful closed fun place strict c hc hS =>
      shapeOutcome_array_reports closed truthful place strict hc fun h => (shaped c hc (hS h).2).2
  | .object members => by
    have truthful : ∀ m ∈ members, TruthfulWithin t S (checkValue t m.2) :=
      fun m _ => checkValue_truthfulWithin closed shaped m.2
    rw [checkValue]
    refine unionOutcome_truthful closed fun place strict c hc hS => ?_
    refine shapeOutcome_plain_reports ⟨by simp, by simp⟩ [] _ place strict
      (fun h => ⟨(hS h).1, (shaped c hc (hS h).2).1⟩) ?_
    intro _ _
    exact objectOutcome_reports closed hc truthful place strict
      (fun h => (shaped c hc (hS h).2).2) (.object members)
  | .bool _ | .number _ | .string _ => by
    rw [checkValue]
    exact unionOutcome_truthful closed fun place strict c hc hS =>
      shapeOutcome_plain_reports ⟨by simp, by simp⟩ [] [] place strict
        (fun h => ⟨(hS h).1, (shaped c hc (hS h).2).1⟩) (by simp)
termination_by v => sizeOf v
decreasing_by
  · exact Json.sizeOf_item_lt ‹_›
  · exact Json.sizeOf_value_lt ‹_›

theorem checkValue_truthful (closed : t.Closed)
    (shaped : ∀ id : NodeId, id.index < t.size → (t.node id).HasShape) (v : Json) :
    Truthful t (checkValue t v) := by
  have hall : ShapedWithin t fun _ => True := fun c hc _ => ⟨shaped c hc, fun _ _ _ => trivial⟩
  exact fun place strict id hid =>
    checkValue_truthfulWithin closed hall v place strict id hid fun _ _ => trivial

end Check

/-- **What a report without errors means**: in a closed table whose nodes all have a shape, the
report of a value holds no error exactly if the value conforms to the node. -/
theorem hasErrors_eq_false_iff_conforms (t : NodeTable) (closed : t.Closed)
    (shaped : ∀ id : NodeId, id.index < t.size → (t.node id).HasShape) (id : NodeId)
    (hid : id.index < t.size) (v : Json) :
    (Report.ofNode t id v).hasErrors = false ↔ t.Conforms v id := by
  rw [← Check.ok_checkValue_iff closed v [] true id hid]
  have h : (Report.ofNode t id v).hasErrors = (true && !(Check.checkValue t v [] true id).ok) :=
    Check.checkValue_truthful closed shaped v [] true id hid
  rw [h]
  cases (Check.checkValue t v [] true id).ok <;> simp

/-- A tree with an optional subtree, which may be `null`. -/
def treeTable : NodeTable := .ofArray #[
  { SchemaNode.plain "Tree" with
    properties := [⟨"value", false, ⟨2⟩⟩, ⟨"next", true, ⟨1⟩⟩] },
  { SchemaNode.plain "Tree | null" with isNullable := true, unionOf := [⟨0⟩] },
  SchemaNode.plain "string"]

theorem conforms_treeTable :
    treeTable.Closed ∧ (∀ id : NodeId, id.index < treeTable.size → (treeTable.node id).HasShape) ∧
      treeTable.Conforms
        (.object [("value", .string "a"), ("next", .object [("value", .string "b"), ("next", .null)])])
        ⟨0⟩ := by
  have closed : treeTable.Closed := by decide
  have shaped : ∀ id : NodeId, id.index < treeTable.size → (treeTable.node id).HasShape :=
    NodeId.forall_lt_iff.2 (by decide)
  exact ⟨closed, shaped,
    (hasErrors_eq_false_iff_conforms treeTable closed shaped ⟨0⟩ (by decide) _).1 (by decide)⟩

/-- An array type that also lists a literal. -/
def literalArrayTable : NodeTable := .ofArray #[
  { SchemaNode.plain "Names" with arrayOf := some ⟨1⟩, allowedValues := .ofList [.str "none"] },
  SchemaNode.plain "string"]

/-- **A listed literal does not suffice**: an array type takes arrays only, even where the value
is one of the literals that the node lists. -/
theorem literalArrayTable_rejects_literal :
    literalArrayTable.Closed ∧
      (∀ id : NodeId, id.index < literalArrayTable.size → (literalArrayTable.node id).HasShape) ∧
      (∀ id : NodeId, id.index < literalArrayTable.size → (literalArrayTable.node id).unionOf = []) ∧
      (∃ l ∈ (literalArrayTable.node ⟨0⟩).allowedValues.values,
        l.matchesValue (.string "none") = true) ∧
      (Report.ofNode literalArrayTable ⟨0⟩ (.string "none")).hasErrors = true := by
  refine ⟨by decide, NodeId.forall_lt_iff.2 (by decide), NodeId.forall_lt_iff.2 (by decide),
    by decide, by decide⟩

end TypedJson
