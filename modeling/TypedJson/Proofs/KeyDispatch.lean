import TypedJson.Proofs.ErrorPaths
import TypedJson.Proofs.KeyText
/-!
# What becomes of the keys of an object

`NodeTable.Handles` says what a node does with a key of an object: a declared property is checked as
such; any other key is held against the first index signature whose key type takes it, itself or in
a node that union branches lead to; a key that no signature takes is unknown.  A key is handled in
one of these ways only, and the check of the object is made up accordingly
(`object_keys_dispatched`): what it finds below a key is what the one check of that key finds, and
the unknown keys are named in one warning and otherwise leave no trace.

The statement is about findings below a key and not about calls: what a check calls is not
to be seen in its outcome, but where its findings are is.  Parts under different keys have
findings at different places, so what is found below one key can be told apart from the
rest.
-/
namespace TypedJson

/-- The node itself takes the key: it stands for all texts, or for numbers while the key is the text
of one, or it lists the key. -/
def SchemaNode.TakesKey (n : SchemaNode) (key : String) : Prop :=
  n.displayName ∈ ["string", "any", "unknown"] ∨
    (n.displayName = "number" ∧ ∃ d : Double, key = d.plainText) ∨
    ∃ l ∈ n.allowedValues.values, l.IsKey key

namespace NodeTable

/-- The key type takes the key, itself or in a node that union branches lead to. -/
def TakesKey (t : NodeTable) (id : NodeId) (key : String) : Prop :=
  ∃ b, Relation.ReflTransGen (fun a b => b ∈ (t.node a).unionOf) id b ∧ (t.node b).TakesKey key

/-- The ways in which a node handles a key. -/
inductive Handles (t : NodeTable) (n : SchemaNode) (key : String) : Check.KeyRole → Prop
  | declared {p : Property} : p ∈ n.properties → p.name = key → Handles t n key .declared
  | signature {before after : List IndexSignature} {x : IndexSignature} :
      (∀ p ∈ n.properties, p.name ≠ key) → n.indexes = before ++ x :: after →
      t.TakesKey x.keyType key → (∀ y ∈ before, ¬ t.TakesKey y.keyType key) →
      Handles t n key (.signature x)
  | unknown : (∀ p ∈ n.properties, p.name ≠ key) → (∀ x ∈ n.indexes, ¬ t.TakesKey x.keyType key) →
      Handles t n key .unknown

end NodeTable

namespace Check

theorem nodeAdmits_iff_takesKey {n : SchemaNode} {key : String} :
    nodeAdmits n key = true ↔ n.TakesKey key := by
  unfold nodeAdmits SchemaNode.TakesKey
  rw [Bool.or_eq_true, List.any_eq_true]
  simp only [literalAdmits_iff, ← Scalar.isSome_numericKey?_iff]
  split
  case h_1 hname | h_2 hname | h_3 hname => exact iff_of_true (.inr rfl) (.inl (by simp [hname]))
  case h_4 hname => simp [hname, or_comm]
  case h_5 _ hstring hany hunknown hnumber =>
    have hother : n.displayName ∉ ["string", "any", "unknown"] := by
      simp only [List.mem_cons, List.not_mem_nil, or_false, not_or]
      exact ⟨hstring, hany, hunknown⟩
    rw [or_iff_left Bool.false_ne_true, or_iff_right hother, or_iff_right fun h => hnumber h.1]

variable {t : NodeTable}

theorem admitsKey_iff_takesKey (t : NodeTable) (id : NodeId) (key : String) :
    t.AdmitsKey id key ↔ t.TakesKey id key := by
  unfold NodeTable.AdmitsKey NodeTable.TakesKey
  simp only [nodeAdmits_iff_takesKey]
  rfl

theorem property?_eq_none_iff {n : SchemaNode} {key : String} :
    n.property? key = none ↔ ∀ p ∈ n.properties, p.name ≠ key := by
  simp [SchemaNode.property?, List.find?_eq_none]

/-- The node handles the key as the check does. -/
theorem handles_iff (closed : t.Closed) {c : NodeId} (hc : c.index < t.size) {key : String}
    {role : KeyRole} : t.Handles (t.node c) key role ↔ role = roleOf t (t.node c) key := by
  have hfirst := signatureFor?_eq_some_iff closed hc key
  have hnone : signatureFor? t (t.node c) key = none ↔
      ∀ x ∈ (t.node c).indexes, ¬ t.TakesKey x.keyType key := by
    unfold signatureFor?
    rw [List.find?_eq_none]
    refine forall₂_congr fun x hx => not_congr ?_
    rw [← admitsKey_iff_takesKey]
    exact NodeTable.anyBranch_iff closed (closed.signature hc hx).1
  simp only [NodeTable.FirstAdmitting, admitsKey_iff_takesKey] at hfirst
  unfold roleOf
  constructor
  · intro h
    cases h with
    | declared hp hname =>
      have hsome : ((t.node c).property? key).isSome = true := by
        rw [SchemaNode.property?, List.find?_isSome]
        exact ⟨_, hp, beq_iff_eq.2 hname⟩
      rw [if_pos hsome]
    | @signature before after x hother hsplit hx hbefore =>
      rw [property?_eq_none_iff.2 hother, (hfirst x).2 ⟨before, after, hsplit, hx, hbefore⟩]
      rfl
    | unknown hother hall =>
      rw [property?_eq_none_iff.2 hother, hnone.2 hall]
      rfl
  · rintro rfl
    cases hp : (t.node c).property? key with
    | some p =>
      exact .declared (List.mem_of_find?_eq_some hp) (by simpa using List.find?_some hp)
    | none =>
      have hother := property?_eq_none_iff.1 hp
      cases hs : signatureFor? t (t.node c) key with
      | none => exact .unknown hother (hnone.1 hs)
      | some x =>
        obtain ⟨before, after, hsplit, hx, hbefore⟩ := (hfirst x).1 hs
        exact .signature hother hsplit hx hbefore

/-! ## Where the findings of the parts lie

`findingsBelow` and `warningsAt` cut the findings of an object by their place.  A part
contributes to what is below its own key only, so a sum over the parts comes down to one of
them. -/

/-- Every finding is at the place or below it. -/
def LiesBelow (place : Place) (o : Outcome) : Prop := ∀ f ∈ o.findings, place.reverse <+: f.path

/-- The findings at the place and below it. -/
def findingsBelow (place : Place) (o : Outcome) : List Finding :=
  o.findings.filter fun f => place.reverse.isPrefixOf f.path

/-- The warnings of unknown properties at the place itself. -/
def warningsAt (place : Place) (o : Outcome) : List Finding :=
  o.findings.filter fun f => decide (f.kind = .unknownProperty ∧ f.path = place.reverse)

theorem findings_all : ∀ os : List Outcome, (Outcome.all os).findings = os.flatMap (·.findings)
  | [] => rfl
  | o :: os => congrArg (o.findings ++ ·) (findings_all os)

theorem findingsBelow_self {place : Place} {o : Outcome} (h : LiesBelow place o) :
    findingsBelow place o = o.findings :=
  List.filter_eq_self.2 fun f hf => List.isPrefixOf_iff_prefix.2 (h f hf)

theorem findingsBelow_other {place : Place} {s s' : Segment} (hne : s ≠ s') {o : Outcome}
    (h : LiesBelow (s' :: place) o) : findingsBelow (s :: place) o = [] := by
  refine List.filter_eq_nil_iff.2 fun f hf hs => ?_
  have hapart := Segment.apart_of_below hne (List.isPrefixOf_iff_prefix.1 hs) (h f hf)
  exact hapart.1 (List.prefix_refl _)

theorem ne_of_liesBelow {place : Place} {s : Segment} {o : Outcome} (h : LiesBelow (s :: place) o) :
    ∀ f ∈ o.findings, f.path ≠ place.reverse := by
  intro f hf heq
  have hle := (h f hf).length_le
  rw [heq, List.length_reverse, List.length_reverse, List.length_cons] at hle
  omega

section Parts

variable {α : Type} (place : Place) (name : α → String) (outcome : α → Outcome) (parts : List α)

theorem findingsBelow_all (h : ∀ a ∈ parts, LiesBelow (.key (name a) :: place) (outcome a))
    (key : String) : findingsBelow (.key key :: place) (.all (parts.map outcome)) =
      (parts.filter (name · == key)).flatMap fun a => (outcome a).findings := by
  induction parts with
  | nil => rfl
  | cons a parts ih =>
    obtain ⟨ha, hrest⟩ := List.forall_mem_cons.1 h
    have hsplit : findingsBelow (.key key :: place) (.all ((a :: parts).map outcome)) =
        findingsBelow (.key key :: place) (outcome a) ++
          findingsBelow (.key key :: place) (.all (parts.map outcome)) :=
      List.filter_append ..
    rw [hsplit, ih hrest, List.filter_cons]
    by_cases hkey : name a = key
    · rw [if_pos (beq_iff_eq.2 hkey), List.flatMap_cons, ← hkey, findingsBelow_self ha]
    · have hne : Segment.key key ≠ .key (name a) := fun heq => hkey (Segment.key.inj heq).symm
      rw [if_neg fun heq => hkey (beq_iff_eq.1 heq), findingsBelow_other hne ha, List.nil_append]

theorem warningsAt_all (h : ∀ a ∈ parts, LiesBelow (.key (name a) :: place) (outcome a)) :
    warningsAt place (.all (parts.map outcome)) = [] := by
  refine List.filter_eq_nil_iff.2 fun f hf hwarning => ?_
  rw [findings_all, List.mem_flatMap] at hf
  obtain ⟨o, ho, hf⟩ := hf
  obtain ⟨a, ha, rfl⟩ := List.mem_map.1 ho
  exact ne_of_liesBelow (h a ha) f hf (of_decide_eq_true hwarning).2

end Parts

variable {members : List (String × Json)} {place : Place} {strict : Bool}

theorem checkValue_liesBelow {v : Json} (hnames : v.DistinctNames) (place : Place) (strict : Bool)
    (id : NodeId) : LiesBelow place (checkValue t v place strict id) := by
  intro f hf
  obtain ⟨path, hpath, -⟩ := (checkValue_finds t v hnames place strict id f hf).located
  exact ⟨path, hpath.symm⟩

theorem checkAbsent_liesBelow (optional : Bool) (id : NodeId) :
    LiesBelow place (checkAbsent t place strict optional id) := by
  unfold checkAbsent
  split
  · exact fun f hf => absurd hf List.not_mem_nil
  · split <;>
    · unfold failWith
      cases strict with
      | false => exact fun f hf => absurd hf List.not_mem_nil
      | true => exact fun f hf => List.mem_singleton.1 hf ▸ List.prefix_refl _

theorem propertyOutcome_liesBelow (hnames : ∀ m ∈ members, m.2.DistinctNames) (p : Property) :
    LiesBelow (.key p.name :: place)
      (propertyOutcome t place strict (checkMembers t members) p) := by
  unfold propertyOutcome
  rw [checkMembers_eq_map, member?_map]
  cases hm : Json.member? p.name members with
  | none => exact checkAbsent_liesBelow _ _
  | some j => exact checkValue_liesBelow (hnames _ (Json.mem_of_member? hm)) _ _ _

theorem memberOutcome_liesBelow (n : SchemaNode) {m : String × Json} (hnames : m.2.DistinctNames) :
    LiesBelow (.key m.1 :: place) (memberOutcome t n place strict (m.1, checkValue t m.2)) := by
  unfold memberOutcome
  split
  · exact checkValue_liesBelow hnames _ _ _
  · exact fun f hf => absurd hf List.not_mem_nil

theorem isPlain_object (members : List (String × Json)) : IsPlain (.object members) :=
  ⟨fun h => Json.noConfusion h, fun _ h => Json.noConfusion h⟩

/-! ## The check of an object

The check of the members and properties of one node, with the branches set apart; this is
what the keys are dispatched by. -/

/-- The check of an object against the node itself, branches apart. -/
def objectCheck (t : NodeTable) (place : Place) (strict : Bool) (c : NodeId)
    (members : List (String × Json)) : Outcome :=
  shapeOutcome t (.object members) [] (checkMembers t members) place strict c

theorem objectCheck_eq {c : NodeId} (harray : (t.node c).arrayOf = none)
    (hstructure : (t.node c).IsStructure) (place : Place) (strict : Bool)
    (members : List (String × Json)) : objectCheck t place strict c members =
      objectOutcome t place strict (t.node c) (.object members) (checkMembers t members) := by
  have hliteral :
      (t.node c).allowedValues.values.any (·.matchesValue (.object members)) = false := by
    refine List.any_eq_false.2 fun l _ => ?_
    cases l <;> exact Bool.false_ne_true
  have hparts : (!(t.node c).properties.isEmpty || !(t.node c).indexes.isEmpty) = true := by
    simpa [List.isEmpty_iff, or_iff_not_imp_left] using hstructure.2
  have hname := hstructure.1
  simp only [Scalar.primitiveNames, List.mem_cons, List.not_mem_nil, or_false, not_or] at hname
  obtain ⟨hboolean, hstring, hnumber, hbigint, hdate, hpattern⟩ := hname
  unfold objectCheck
  rw [shapeOutcome_plain (isPlain_object members) [] _ place strict c harray, plainOutcome,
    if_neg (by rw [hliteral]; exact Bool.false_ne_true)]
  split
  case h_7 => rw [if_pos hparts]
  all_goals contradiction

/-- The other members of an object, each by its role. -/
def memberChecks (t : NodeTable) (place : Place) (strict : Bool) (n : SchemaNode)
    (members : List (String × Json)) : List Outcome :=
  members.map fun m => memberOutcome t n place strict (m.1, checkValue t m.2)

theorem memberChecks_eq (n : SchemaNode) : memberChecks t place strict n members =
    (checkMembers t members).map (memberOutcome t n place strict) := by
  rw [memberChecks, checkMembers_eq_map, List.map_map]
  rfl

theorem findingsBelow_both (a b : Outcome) :
    findingsBelow place (a.both b) = findingsBelow place a ++ findingsBelow place b :=
  List.filter_append ..

theorem warningsAt_both (a b : Outcome) :
    warningsAt place (a.both b) = warningsAt place a ++ warningsAt place b :=
  List.filter_append ..

theorem findingsBelow_unknownOutcome (n : SchemaNode) (v : Json) (keys : List String)
    (key : String) :
    findingsBelow (.key key :: place) (unknownOutcome place strict n v keys) = [] := by
  unfold unknownOutcome
  split
  · refine List.filter_eq_nil_iff.2 fun f hf hbelow => ?_
    rw [List.mem_singleton.1 hf] at hbelow
    have hle := (List.isPrefixOf_iff_prefix.1 hbelow).length_le
    have hpath : ∀ {message : String}, (finding place message .unknownProperty (some v)
      (some n)).path.length = place.length := List.length_reverse
    rw [hpath, List.length_reverse, List.length_cons] at hle
    omega
  · rfl

theorem warningsAt_unknownOutcome (n : SchemaNode) (v : Json) (keys : List String) :
    warningsAt place (unknownOutcome place strict n v keys) =
      (unknownOutcome place strict n v keys).findings := by
  unfold unknownOutcome
  split
  · exact List.filter_eq_self.2 fun f hf => by
      rw [List.mem_singleton.1 hf]
      exact decide_eq_true ⟨rfl, rfl⟩
  · rfl

end Check

open Check

/-- The keys of an object are handled one by one. -/
structure KeysDispatched (t : NodeTable) (c : NodeId) (members : List (String × Json))
    (place : Place) (strict : Bool) : Prop where
  /-- The check of an object against a node without branches is the one described here. -/
  whole : (t.node c).unionOf = [] →
    checkValue t (.object members) place strict c = objectCheck t place strict c members
  /-- No key is handled in two ways, and none is left out. -/
  single : ∀ key, ∃! role, t.Handles (t.node c) key role
  /-- The verdict is that on the properties and on the members that a signature takes. -/
  verdict : (objectCheck t place strict c members).ok = true ↔
    (∀ p ∈ (t.node c).properties,
      (Json.member? p.name members = none → p.isOptional = true) ∧
      ∀ j, Json.member? p.name members = some j →
        (checkValue t j (.key p.name :: place) strict p.type).ok = true) ∧
    ∀ m ∈ members, ∀ x, t.Handles (t.node c) m.1 (.signature x) →
      (checkValue t m.2 (.key m.1 :: place) strict x.valueType).ok = true
  /-- Below a declared key is found what the check of the property finds. -/
  declared : ∀ m ∈ members, t.Handles (t.node c) m.1 .declared →
    findingsBelow (.key m.1 :: place) (objectCheck t place strict c members) =
      ((t.node c).properties.filter (·.name == m.1)).flatMap fun p =>
        (checkValue t m.2 (.key m.1 :: place) strict p.type).findings
  /-- Below a key that a signature takes is found what the check of the value type finds. -/
  signature : ∀ m ∈ members, ∀ x, t.Handles (t.node c) m.1 (.signature x) →
    findingsBelow (.key m.1 :: place) (objectCheck t place strict c members) =
      (checkValue t m.2 (.key m.1 :: place) strict x.valueType).findings
  /-- Below an unknown key nothing is found. -/
  unknown : ∀ m ∈ members, t.Handles (t.node c) m.1 .unknown →
    findingsBelow (.key m.1 :: place) (objectCheck t place strict c members) = []
  /-- Without a member of an unknown key the verdict is the same. -/
  unaffected : ∀ before m after, members = before ++ m :: after →
    t.Handles (t.node c) m.1 .unknown → (objectCheck t place strict c members).ok =
      (objectCheck t place strict c (before ++ after)).ok
  /-- A strict check names the unknown keys, if there are any, in one warning. -/
  warning : ∃ unknown, unknown.Sublist (members.map (·.1)) ∧
    (∀ key ∈ members.map (·.1), key ∈ unknown ↔ t.Handles (t.node c) key .unknown) ∧
    warningsAt place (objectCheck t place strict c members) =
      if strict && !unknown.isEmpty then
        [finding place ("Unknown properties: " ++ ", ".intercalate unknown) .unknownProperty
          (some (.object members)) (some (t.node c))]
      else []

namespace Check

variable {c : NodeId}

theorem ok_propertyOutcome (p : Property) :
    (propertyOutcome t place strict (checkMembers t members) p).ok = true ↔
      (Json.member? p.name members = none → p.isOptional = true) ∧
      ∀ j, Json.member? p.name members = some j →
        (checkValue t j (.key p.name :: place) strict p.type).ok = true := by
  unfold propertyOutcome
  rw [checkMembers_eq_map, member?_map]
  cases hm : Json.member? p.name members with
  | none => simp [ok_checkAbsent_iff]
  | some j => simp

theorem ok_memberOutcome (n : SchemaNode) (m : String × Json) :
    (memberOutcome t n place strict (m.1, checkValue t m.2)).ok = true ↔
      ∀ x, .signature x = roleOf t n m.1 →
        (checkValue t m.2 (.key m.1 :: place) strict x.valueType).ok = true := by
  unfold memberOutcome
  cases roleOf t n m.1 with
  | declared => exact iff_of_true rfl fun _ h => KeyRole.noConfusion h
  | unknown => exact iff_of_true rfl fun _ h => KeyRole.noConfusion h
  | signature x =>
    refine ⟨fun h y hy => ?_, fun h => h x rfl⟩
    cases hy
    exact h

theorem objectCheck_ok (closed : t.Closed) (hc : c.index < t.size)
    (harray : (t.node c).arrayOf = none) (hstructure : (t.node c).IsStructure) (place : Place)
    (strict : Bool) (members : List (String × Json)) :
    (objectCheck t place strict c members).ok = true ↔
      (∀ p ∈ (t.node c).properties,
        (Json.member? p.name members = none → p.isOptional = true) ∧
        ∀ j, Json.member? p.name members = some j →
          (checkValue t j (.key p.name :: place) strict p.type).ok = true) ∧
      ∀ m ∈ members, ∀ x, t.Handles (t.node c) m.1 (.signature x) →
        (checkValue t m.2 (.key m.1 :: place) strict x.valueType).ok = true := by
  rw [objectCheck_eq harray hstructure, objectOutcome, Outcome.ok_both, Outcome.ok_both,
    Outcome.ok_all, Outcome.ok_all, ok_unknownOutcome, ← memberChecks_eq, memberChecks,
    List.forall_mem_map, List.forall_mem_map]
  simp only [ok_propertyOutcome, ok_memberOutcome, handles_iff closed hc, and_true]

theorem filter_name_eq {α : Type} : ∀ {members : List (String × α)} {m : String × α},
    (members.map (·.1)).Nodup → m ∈ members → members.filter (·.1 == m.1) = [m]
  | first :: rest, m, hnodup, hm => by
    rw [List.map_cons, List.nodup_cons] at hnodup
    rw [List.filter_cons]
    rcases List.mem_cons.1 hm with rfl | hm
    · have hnone : rest.filter (·.1 == m.1) = [] :=
        List.filter_eq_nil_iff.2 fun x hx heq =>
          hnodup.1 (beq_iff_eq.1 heq ▸ List.mem_map_of_mem hx)
      rw [if_pos (beq_self_eq_true _), hnone]
    · have hne : ¬ (first.1 == m.1) = true := fun heq =>
        hnodup.1 (beq_iff_eq.1 heq ▸ List.mem_map_of_mem hm)
      rw [if_neg hne, filter_name_eq hnodup.2 hm]

theorem filter_properties_eq_nil {n : SchemaNode} {key : String}
    (hother : ∀ p ∈ n.properties, p.name ≠ key) : n.properties.filter (·.name == key) = [] :=
  List.filter_eq_nil_iff.2 fun p hp heq => hother p hp (beq_iff_eq.1 heq)

theorem unknownKeys_sublist (n : SchemaNode) :
    (unknownKeys t n (checkMembers t members)).Sublist (members.map (·.1)) := by
  rw [unknownKeys, checkMembers_eq_map, List.map_map]
  exact List.filter_sublist

theorem mem_unknownKeys_iff (n : SchemaNode) {key : String} (hkey : key ∈ members.map (·.1)) :
    key ∈ unknownKeys t n (checkMembers t members) ↔ .unknown = roleOf t n key := by
  have hkeys : (checkMembers t members).map (·.1) = members.map (·.1) := by
    rw [checkMembers_eq_map, List.map_map]
    rfl
  rw [unknownKeys, hkeys, List.mem_filter, and_iff_right hkey]
  cases roleOf t n key <;> simp

/-- What is found below the key of a member: what its property checks find, and what is found by
its role. -/
theorem findingsBelow_key (harray : (t.node c).arrayOf = none)
    (hstructure : (t.node c).IsStructure) (hnames : (Json.object members).DistinctNames)
    {m : String × Json} (hm : m ∈ members) :
    findingsBelow (.key m.1 :: place) (objectCheck t place strict c members) =
      (((t.node c).properties.filter (·.name == m.1)).flatMap fun p =>
        (checkValue t m.2 (.key m.1 :: place) strict p.type).findings) ++
      (memberOutcome t (t.node c) place strict (m.1, checkValue t m.2)).findings := by
  have hinner := Json.distinctNames_of_member hnames.2
  have hproperties := findingsBelow_all place (·.name)
    (propertyOutcome t place strict (checkMembers t members)) (t.node c).properties
    (fun p _ => propertyOutcome_liesBelow hinner p) m.1
  have hmembers := findingsBelow_all place (·.1)
    (fun m => memberOutcome t (t.node c) place strict (m.1, checkValue t m.2)) members
    (fun m hm => memberOutcome_liesBelow _ (hinner m hm)) m.1
  rw [objectCheck_eq harray hstructure, objectOutcome, ← memberChecks_eq, findingsBelow_both,
    findingsBelow_both, findingsBelow_unknownOutcome, hproperties, memberChecks, hmembers,
    filter_name_eq hnames.1 hm, List.append_nil, List.flatMap_singleton]
  congr 1
  refine List.flatMap_congr fun p hp => ?_
  have hname : p.name = m.1 := beq_iff_eq.1 (List.mem_filter.1 hp).2
  have hfound : Json.member? p.name members = some m.2 := hname ▸ Json.member?_of_mem hnames.1 hm
  rw [propertyOutcome, checkMembers_eq_map, member?_map, hfound, hname]
  rfl

theorem objectCheck_warnings (harray : (t.node c).arrayOf = none)
    (hstructure : (t.node c).IsStructure) (hnames : (Json.object members).DistinctNames) :
    warningsAt place (objectCheck t place strict c members) =
      (unknownOutcome place strict (t.node c) (.object members)
        (unknownKeys t (t.node c) (checkMembers t members))).findings := by
  have hinner := Json.distinctNames_of_member hnames.2
  have hproperties := warningsAt_all place (·.name)
    (propertyOutcome t place strict (checkMembers t members)) (t.node c).properties
    (fun p _ => propertyOutcome_liesBelow hinner p)
  have hmembers := warningsAt_all place (·.1)
    (fun m => memberOutcome t (t.node c) place strict (m.1, checkValue t m.2)) members
    (fun m hm => memberOutcome_liesBelow _ (hinner m hm))
  rw [objectCheck_eq harray hstructure, objectOutcome, ← memberChecks_eq, warningsAt_both,
    warningsAt_both, warningsAt_unknownOutcome, hproperties, memberChecks, hmembers]
  rfl

theorem member?_drop {before after : List (String × Json)} {m : String × Json} {name : String}
    (hne : name ≠ m.1) :
    Json.member? name (before ++ m :: after) = Json.member? name (before ++ after) := by
  have hother : (m.1 == name) = false := beq_eq_false_iff_ne.2 hne.symm
  rw [Json.member?, Json.member?, List.find?_append, List.find?_append, List.find?_cons, hother]

theorem objectCheck_drop (closed : t.Closed) (hc : c.index < t.size)
    (harray : (t.node c).arrayOf = none) (hstructure : (t.node c).IsStructure)
    {before after : List (String × Json)} {m : String × Json}
    (hrole : t.Handles (t.node c) m.1 .unknown) :
    (objectCheck t place strict c (before ++ m :: after)).ok =
      (objectCheck t place strict c (before ++ after)).ok := by
  have hmember : ∀ p ∈ (t.node c).properties,
      Json.member? p.name (before ++ m :: after) = Json.member? p.name (before ++ after) := by
    intro p hp
    cases hrole with
    | unknown hother _ => exact member?_drop (hother p hp)
  have hvacuous : ∀ y, ¬ t.Handles (t.node c) m.1 (.signature y) := fun y hy =>
    KeyRole.noConfusion (((handles_iff closed hc).1 hy).trans ((handles_iff closed hc).1 hrole).symm)
  rw [Bool.eq_iff_iff, objectCheck_ok closed hc harray hstructure,
    objectCheck_ok closed hc harray hstructure]
  refine and_congr (forall₂_congr fun p hp => by rw [hmember p hp]) ?_
  simp only [List.forall_mem_append, List.forall_mem_cons, hvacuous, false_imp_iff, implies_true,
    true_and]

end Check

/-- **Every key of an object is handled once**: as a declared property, or against the first
signature whose key type takes it, or as unknown.  The verdict rests on the first two alone, and the
unknown keys are named in the one warning of that object, in the order of the data. -/
theorem object_keys_dispatched (t : NodeTable) (closed : t.Closed) (c : NodeId)
    (hc : c.index < t.size) (harray : (t.node c).arrayOf = none)
    (hstructure : (t.node c).IsStructure) (members : List (String × Json))
    (hnames : (Json.object members).DistinctNames) (place : Place) (strict : Bool) :
    KeysDispatched t c members place strict where
  whole := fun hunion => by
    rw [checkValue, unionOutcome, hunion]
    rfl
  single := fun key => ⟨_, (handles_iff closed hc).2 rfl, fun _ h => (handles_iff closed hc).1 h⟩
  verdict := objectCheck_ok closed hc harray hstructure place strict members
  declared := fun m hm hrole => by
    rw [findingsBelow_key harray hstructure hnames hm, memberOutcome,
      ← (handles_iff closed hc).1 hrole]
    exact List.append_nil _
  signature := fun m hm x hrole => by
    rw [findingsBelow_key harray hstructure hnames hm, memberOutcome,
      ← (handles_iff closed hc).1 hrole]
    cases hrole with
    | signature hother _ _ _ =>
      rw [filter_properties_eq_nil hother, List.flatMap_nil, List.nil_append]
  unknown := fun m hm hrole => by
    rw [findingsBelow_key harray hstructure hnames hm, memberOutcome,
      ← (handles_iff closed hc).1 hrole]
    cases hrole with
    | unknown hother _ =>
      rw [filter_properties_eq_nil hother]
      rfl
  unaffected := fun before m after hsplit hrole => by
    rw [hsplit]
    exact objectCheck_drop closed hc harray hstructure hrole
  warning := by
    refine ⟨unknownKeys t (t.node c) (checkMembers t members), unknownKeys_sublist _,
      fun key hkey => ?_, ?_⟩
    · rw [mem_unknownKeys_iff _ hkey, handles_iff closed hc]
    · rw [objectCheck_warnings harray hstructure hnames, unknownOutcome]
      split <;> rfl

/-- An `id`, texts under the keys `x` and `2`, and truth values under the keys that spell numbers.
The first key type is a union that holds itself. -/
def ledgerTable : NodeTable := .ofArray #[
  { SchemaNode.plain "Ledger" with
    properties := [⟨"id", false, ⟨1⟩⟩], indexes := [⟨⟨2⟩, ⟨1⟩⟩, ⟨⟨4⟩, ⟨5⟩⟩] },
  SchemaNode.plain "string",
  { SchemaNode.plain "Column" with unionOf := [⟨3⟩, ⟨2⟩] },
  { SchemaNode.plain "\"x\" | 2" with
    unionOf := [⟨2⟩]
    allowedValues := .ofList [.str "x", .ofDouble ((Double.ofInt? 2).getD .zero)] },
  SchemaNode.plain "number",
  SchemaNode.plain "boolean"]

def ledgerFields : List (String × Json) :=
  [("y", .null), ("2", .string "b"), ("id", .string "a"), ("-7.5", .bool true), ("07", .null)]

/-- The key `2` is a text by the first signature, `-7.5` is a number, and `07` spells none. -/
theorem ledgerTable_dispatches : ledgerTable.Closed ∧
    (⟨0⟩ : NodeId).index < ledgerTable.size ∧ (ledgerTable.node ⟨0⟩).arrayOf = none ∧
    (ledgerTable.node ⟨0⟩).IsStructure ∧ (Json.object ledgerFields).DistinctNames ∧
    KeysDispatched ledgerTable ⟨0⟩ ledgerFields [] true ∧
    (checkValue ledgerTable (.object ledgerFields) [] true ⟨0⟩).ok = true ∧
    (checkValue ledgerTable (.object ledgerFields) [] true ⟨0⟩).findings.map
      (fun f => (f.path, f.kind, f.message)) =
      [([], .unknownProperty, "Unknown properties: y, 07")] := by
  have closed : ledgerTable.Closed := by decide +kernel
  have hstructure : (ledgerTable.node ⟨0⟩).IsStructure :=
    ⟨by decide, .inl (List.cons_ne_nil _ _)⟩
  have hnames : (Json.object ledgerFields).DistinctNames :=
    ⟨by decide, trivial, trivial, trivial, trivial, trivial, trivial⟩
  exact ⟨closed, by decide, rfl, hstructure, hnames,
    object_keys_dispatched ledgerTable closed ⟨0⟩ (by decide) rfl hstructure ledgerFields hnames
      [] true, by decide +kernel, by decide +kernel⟩

end TypedJson
