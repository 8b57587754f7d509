import TypedJson.Proofs.Recording
import TypedJson.Proofs.Session
/-!
# Two runs of a check side by side

What a check finds depends on its place, on its mode and on the value.  To see how, two runs of it
are compared that differ in one of these only (`Check.Comparison`).  A comparison says where the
runs may be, what they may be made on, and how their outcomes compare.  If it is kept by the few
ways in which a check puts outcomes together, and holds of single findings, it holds of whole checks
(`Check.Comparison.Lawful.candidateOutcome`, `Check.Comparison.Lawful.valueOutcome`).

What is common to the statements on modes, on places and on the order of members is the walk
through the check, which each of them would have to make.  It is made here once.  `Lawful`
lists what a comparison has to satisfy: how it is kept as outcomes are put together, and
that it holds of each kind of single finding.
-/
namespace TypedJson
namespace Check

/-- What two runs of a check may differ in, and how their outcomes compare. -/
structure Comparison where
  /-- The place and the mode of the one run, then those of the other. -/
  At : Place → Bool → Place → Bool → Prop
  Values : Json → Json → Prop
  Outcomes : Outcome → Outcome → Prop

namespace Comparison

variable (c : Comparison)

/-- The checkers compare wherever they are used. -/
def Checkers (check check' : Checker) : Prop :=
  ∀ {place place' : Place} {strict strict' : Bool}, c.At place strict place' strict' →
    ∀ id, c.Outcomes (check place strict id) (check' place' strict' id)

/-- What a check looks at in the members of two objects compares. -/
structure Members (fields fields' : List (String × Json)) : Prop where
  dateForm? : Scalar.dateForm? (.object fields) = Scalar.dateForm? (.object fields')
  isTaggedPattern : Scalar.isTaggedPattern (.object fields) = Scalar.isTaggedPattern (.object fields')
  member? : ∀ name, Option.Rel c.Values (Json.member? name fields) (Json.member? name fields')
  all : ∀ {outcome outcome' : String × Json → Outcome},
    (∀ m ∈ fields, ∀ m' ∈ fields', m.1 = m'.1 → c.Values m.2 m'.2 →
      c.Outcomes (outcome m) (outcome' m')) →
    c.Outcomes (.all (fields.map outcome)) (.all (fields'.map outcome'))
  unknown : ∀ {place place' : Place} {strict strict' : Bool}, c.At place strict place' strict' →
    ∀ (n : SchemaNode) (isUnknown : String → Bool),
      c.Outcomes
        (unknownOutcome place strict n (.object fields) ((fields.map (·.1)).filter isUnknown))
        (unknownOutcome place' strict' n (.object fields') ((fields'.map (·.1)).filter isUnknown))

/-- The two values are the same scalar, or their parts compare. -/
inductive Alike : Json → Json → Prop
  | scalar {v : Json} (hitems : ∀ items, v ≠ .array items) (hfields : ∀ fields, v ≠ .object fields) :
    Alike v v
  | array {items items' : List Json} (h : List.Forall₂ c.Values items items') :
    Alike (.array items) (.array items')
  | object {fields fields' : List (String × Json)} (h : c.Members fields fields') :
    Alike (.object fields) (.object fields')

/-- The comparison is kept as outcomes are put together. -/
structure Joins : Prop where
  pass : c.Outcomes .pass .pass
  both : ∀ {a a' b b'}, c.Outcomes a a' → c.Outcomes b b' → c.Outcomes (a.both b) (a'.both b')

/-- The comparison holds of single findings, and it is kept. -/
structure Lawful : Prop extends c.Joins where
  step : ∀ {place place' strict strict'} (s : Segment), c.At place strict place' strict' →
    c.At (s :: place) strict (s :: place') strict'
  trial : ∀ {place place' strict strict'}, c.At place strict place' strict' →
    c.At place false place' false
  ok : ∀ {o o'}, c.Outcomes o o' → o.ok = o'.ok
  fail : c.Outcomes .fail .fail
  failWith : ∀ {place place' strict strict' value value'}, c.At place strict place' strict' →
    Option.Rel c.Values value value' →
    ∀ (message : Option Json → String) (kind : FindingKind) (node : Option SchemaNode),
      c.Outcomes (Check.failWith strict (finding place (message value) kind value node))
        (Check.failWith strict' (finding place' (message value') kind value' node))
  passWith : ∀ {place place' strict strict' v v'}, c.At place strict place' strict' →
    c.Values v v' → ∀ (message : Json → String) (kind : FindingKind), kind.severity = .hint →
    ∀ node : Option SchemaNode,
      c.Outcomes (Check.passWith (finding place (message v) kind (some v) node))
        (Check.passWith (finding place' (message v') kind (some v') node))
  alike : ∀ {v v'}, c.Values v v' → c.Alike v v'

variable {c}

theorem Joins.all (h : c.Joins) {os os' : List Outcome} (hos : List.Forall₂ c.Outcomes os os') :
    c.Outcomes (.all os) (.all os') := by
  induction hos with
  | nil => exact h.pass
  | cons ho _ ih => exact h.both ho ih

theorem rel_self (hvalues : ∀ v, c.Values v v) : ∀ value : Option Json,
    Option.Rel c.Values value value
  | some v => .some (hvalues v)
  | none => .none

theorem Joins.alike_self (h : c.Joins) (hvalues : ∀ v, c.Values v v)
    (hunknown : ∀ {place place' strict strict'}, c.At place strict place' strict' → ∀ n v names,
      c.Outcomes (unknownOutcome place strict n v names) (unknownOutcome place' strict' n v names))
    (v : Json) : c.Alike v v := by
  cases v with
  | array items => exact .array (List.forall₂_same.2 fun j _ => hvalues j)
  | object fields =>
    refine .object ⟨rfl, rfl, fun _ => rel_self hvalues _, fun houtcome => h.all ?_, fun hat n _ =>
      hunknown hat n _ _⟩
    rw [List.forall₂_map_left_iff, List.forall₂_map_right_iff, List.forall₂_same]
    exact fun m hm => houtcome m hm m hm rfl (hvalues m.2)
  | null | bool | number | string => exact .scalar (fun _ h => by cases h) fun _ h => by cases h

namespace Lawful

variable {t : NodeTable} (h : c.Lawful) {place place' : Place} {strict strict' : Bool}

include h

/-! ## Parts

The parts of a check, from one item to a whole object; the members of two objects are
compared as a set, so that another order of them is covered. -/

theorem itemOutcomes (hat : c.At place strict place' strict') (item : NodeId) :
    ∀ {checks checks' : List Checker} {i : Nat}, List.Forall₂ c.Checkers checks checks' →
      List.Forall₂ c.Outcomes (itemOutcomes place strict item i checks)
        (itemOutcomes place' strict' item i checks')
  | _, _, _, .nil => .nil
  | _, _, _, .cons hcheck hrest => .cons (hcheck (h.step _ hat) item) (itemOutcomes hat item hrest)

theorem absentOutcome (optional : Bool) :
    c.Checkers (Recorder.absentOutcome t optional) (Recorder.absentOutcome t optional) := by
  intro place place' strict strict' hat id
  unfold Recorder.absentOutcome
  split
  · exact h.pass
  · exact h.failWith hat .none (fun _ => "Required \"" ++ (t.node id).displayName ++ "\" expected")
      .missingProperty _

/-! A union is tried at itself first and then at its branches.  A trial is not strict, whatever
the mode is, so the two runs try the same candidates and accept the same one. -/

theorem firstAccepted? {shape shape' : Checker} (hshape : c.Checkers shape shape')
    (hat : c.At place strict place' strict') : ∀ candidates : List NodeId,
      Option.Rel c.Outcomes (firstAccepted? shape place candidates)
        (firstAccepted? shape' place' candidates)
  | [] => .none
  | id :: candidates => by
    have htrial := hshape (h.trial hat) id
    rw [Check.firstAccepted?, Check.firstAccepted?, ← h.ok htrial]
    split
    · exact .some htrial
    · exact firstAccepted? hshape hat candidates

theorem candidatesOutcome {shape shape' : Checker} (hshape : c.Checkers shape shape')
    {value value' : Option Json} (hvalue : Option.Rel c.Values value value') :
    c.Checkers (Recorder.candidatesOutcome t value shape)
      (Recorder.candidatesOutcome t value' shape') := by
  intro place place' strict strict' hat id
  by_cases hunion : (t.node id).unionOf = []
  · unfold Recorder.candidatesOutcome
    rw [hunion]
    exact hshape hat id
  · rw [Recorder.candidatesOutcome_of_union hunion, Recorder.candidatesOutcome_of_union hunion]
    have hfirst := h.firstAccepted? hshape hat (id :: (t.node id).unionOf)
    generalize Check.firstAccepted? shape place _ = o, Check.firstAccepted? shape' place' _ = o'
      at hfirst ⊢
    cases hfirst with
    | some htrial => exact htrial
    | none =>
      exact h.failWith hat hvalue (fun value => "Expected a value matching `" ++ t.describe id ++
        "`, encountered " ++ Json.typeName value) _ _

theorem checkAbsent (hat : c.At place strict place' strict') (optional : Bool) (id : NodeId) :
    c.Outcomes (checkAbsent t place strict optional id) (checkAbsent t place' strict' optional id) := by
  have habsent : c.Checkers (Recorder.candidatesOutcome t none _)
      (Recorder.candidatesOutcome t none _) :=
    h.candidatesOutcome (h.absentOutcome (t := t) optional) .none
  rw [Recorder.candidatesOutcome_absent] at habsent
  exact habsent hat id

theorem propertyOutcome {members members' : List (String × Checker)} {p : Property}
    (hmember : Option.Rel c.Checkers (Json.member? p.name members) (Json.member? p.name members'))
    (hat : c.At place strict place' strict') :
    c.Outcomes (propertyOutcome t place strict members p)
      (propertyOutcome t place' strict' members' p) := by
  unfold Check.propertyOutcome
  dsimp only
  generalize Json.member? p.name members = found, Json.member? p.name members' = found' at hmember ⊢
  cases hmember with
  | some hchecks => exact hchecks (h.step _ hat) p.type
  | none => exact h.checkAbsent (h.step _ hat) p.isOptional p.type

theorem memberOutcome {name : String} {check check' : Checker} (hchecks : c.Checkers check check')
    (hat : c.At place strict place' strict') (n : SchemaNode) :
    c.Outcomes (memberOutcome t n place strict (name, check))
      (memberOutcome t n place' strict' (name, check')) := by
  unfold Check.memberOutcome
  dsimp only
  cases roleOf t n name with
  | signature x => exact hchecks (h.step _ hat) x.valueType
  | declared => exact h.pass
  | unknown => exact h.pass

theorem objectOutcome {fields fields' : List (String × Json)} (hfields : c.Members fields fields')
    (hchecks : ∀ m ∈ fields, ∀ m' ∈ fields', c.Values m.2 m'.2 →
      c.Checkers (checkValue t m.2) (checkValue t m'.2))
    (hat : c.At place strict place' strict') (n : SchemaNode) :
    c.Outcomes (objectOutcome t place strict n (.object fields) (checkMembers t fields))
      (objectOutcome t place' strict' n (.object fields') (checkMembers t fields')) := by
  have hmember : ∀ name, Option.Rel c.Checkers (Json.member? name (checkMembers t fields))
      (Json.member? name (checkMembers t fields')) := by
    intro name
    rw [checkMembers_eq_map, checkMembers_eq_map, member?_map, member?_map]
    have hfound := hfields.member? name
    cases hm : Json.member? name fields <;> cases hm' : Json.member? name fields'
    all_goals
      rw [hm, hm'] at hfound
      cases hfound
    · exact .none
    · rename_i hv
      exact .some (hchecks _ (Json.mem_of_member? hm) _ (Json.mem_of_member? hm') hv)
  have hdeclared := h.all (List.forall₂_map_left_iff.2 (List.forall₂_map_right_iff.2
    (List.forall₂_same.2 fun p (_ : p ∈ n.properties) =>
      h.propertyOutcome (t := t) (hmember p.name) hat)))
  -- the members may stand in another order, and they are paired by name
  have hothers : c.Outcomes (.all ((checkMembers t fields).map (Check.memberOutcome t n place strict)))
      (.all ((checkMembers t fields').map (Check.memberOutcome t n place' strict'))) := by
    rw [checkMembers_eq_map, checkMembers_eq_map, List.map_map, List.map_map]
    refine hfields.all fun m hm m' hm' hname hv => ?_
    simp only [Function.comp_apply, hname]
    exact h.memberOutcome (hchecks m hm m' hm' hv) hat n
  have hnames : ∀ fields : List (String × Json),
      (checkMembers t fields).map (·.1) = fields.map (·.1) := fun fields => by
    rw [checkMembers_eq_map, List.map_map]
    rfl
  unfold Check.objectOutcome unknownKeys
  rw [hnames, hnames]
  exact h.both hdeclared (h.both hothers (hfields.unknown hat n _))

/-! ## Scalars -/

variable {v v' : Json}

theorem mismatch (hat : c.At place strict place' strict') (hv : c.Values v v') (n : SchemaNode)
    (encountered : Json → String) :
    c.Outcomes (Check.failWith strict (mismatch place n v (encountered v)))
      (Check.failWith strict' (mismatch place' n v' (encountered v'))) :=
  h.failWith hat (.some hv) (fun value => "A " ++ n.displayName ++ " value expected, encountered " ++
    (value.map encountered).getD "") _ _

theorem dateOutcome (hat : c.At place strict place' strict') (hv : c.Values v v')
    (hdate : Scalar.dateForm? v = Scalar.dateForm? v') (n : SchemaNode) :
    c.Outcomes (dateOutcome place strict n v) (dateOutcome place' strict' n v') := by
  unfold Check.dateOutcome
  rw [← hdate]
  split
  · exact h.passWith hat hv (fun v => "A Date expected but string \"" ++ v.plainText ++
      "\" is encountered. " ++ "Would be better to convert the string pattern to Date instance")
      .stringToDate rfl _
  · exact h.pass
  · exact h.mismatch hat hv n Json.plainText

theorem patternOutcome (hat : c.At place strict place' strict') (hv : c.Values v v')
    (hpattern : Scalar.isTaggedPattern v = Scalar.isTaggedPattern v') (n : SchemaNode) :
    c.Outcomes (patternOutcome place strict n v) (patternOutcome place' strict' n v') := by
  have hmismatch := h.mismatch hat hv n fun v => Json.typeName (some v)
  unfold Check.patternOutcome
  rw [← hpattern]
  split
  · exact h.pass
  · cases h.alike hv with
    | array => exact hmismatch
    | object => exact hmismatch
    | scalar =>
      split
      · rename_i s _ _ _
        exact h.passWith hat hv (fun _ => "A RegExp expected but string \"" ++ s ++
          "\" is encountered. " ++
          "Would be better to convert the string pattern to RegExp instance") .stringToPattern rfl _
      · exact hmismatch

/-! ## Values

By recursion on the value.  A value compares with another one if it is the same scalar or has
parts that compare, and what holds of the checks of the parts holds of the whole. -/

theorem matchesValue_eq (hv : c.Values v v') (l : Literal) : l.matchesValue v = l.matchesValue v' := by
  cases h.alike hv with
  | scalar => rfl
  | array => cases l <;> rfl
  | object => cases l <;> rfl

omit h in
theorem matchesPrimitive_array (name : String) (items : List Json) :
    Scalar.matchesPrimitive name (.array items) = false := by
  unfold Scalar.matchesPrimitive
  split <;> simp_all [Scalar.isIntegral]

omit h in
theorem matchesPrimitive_object (name : String) (fields : List (String × Json)) :
    Scalar.matchesPrimitive name (.object fields) = false := by
  unfold Scalar.matchesPrimitive
  split <;> simp_all [Scalar.isIntegral]

theorem matchesPrimitive_eq (hv : c.Values v v') (name : String) :
    Scalar.matchesPrimitive name v = Scalar.matchesPrimitive name v' := by
  cases h.alike hv with
  | scalar => rfl
  | array => rw [matchesPrimitive_array, matchesPrimitive_array]
  | object => rw [matchesPrimitive_object, matchesPrimitive_object]

theorem plainOutcome {members members' : List (String × Checker)}
    (hat : c.At place strict place' strict') (hv : c.Values v v') (n : SchemaNode)
    (hdate : Scalar.dateForm? v = Scalar.dateForm? v')
    (hpattern : Scalar.isTaggedPattern v = Scalar.isTaggedPattern v')
    (hobject : ∀ fields fields', v = .object fields → v' = .object fields' →
      c.Outcomes (Check.objectOutcome t place strict n v members)
        (Check.objectOutcome t place' strict' n v' members')) :
    c.Outcomes (plainOutcome t place strict n v members)
      (plainOutcome t place' strict' n v' members') := by
  unfold Check.plainOutcome
  simp only [h.matchesValue_eq hv, h.matchesPrimitive_eq hv]
  split
  · exact h.pass
  · split
    case h_5 => exact h.dateOutcome hat hv hdate n
    case h_6 => exact h.patternOutcome hat hv hpattern n
    case h_7 =>
      split
      · have hmismatch := h.failWith hat (.some hv)
          (fun value => "Expected object, got " ++ Json.typeName value) .objectExpected (some n)
        cases h.alike hv with
        | array => exact hmismatch
        | object => exact hobject _ _ rfl rfl
        | scalar hitems hfields =>
          split
          · exact absurd rfl (hfields _)
          · exact hmismatch
      · split
        · exact h.mismatch hat hv n Json.plainText
        · exact h.fail
    all_goals
      split
      · exact h.pass
      · exact h.mismatch hat hv n fun v => Json.typeName (some v)

theorem shapeOf (hv : c.Values v v')
    (hitems : ∀ {items items'}, v = .array items → v' = .array items' →
      List.Forall₂ c.Checkers (checkItems t items) (checkItems t items'))
    (hfields : ∀ {fields fields'}, v = .object fields → v' = .object fields' →
      ∀ m ∈ fields, ∀ m' ∈ fields', c.Values m.2 m'.2 →
        c.Checkers (checkValue t m.2) (checkValue t m'.2)) :
    c.Checkers (Recorder.shapeOf t v) (Recorder.shapeOf t v') := by
  intro place place' strict strict' hat id
  -- the same finding for whatever is no array
  have hnotArray : ∀ item : NodeId, c.Outcomes
      (Check.failWith strict (finding place ("Array of " ++ (t.node item).displayName ++
        " expected, encountered scalar " ++ Json.typeName (some v)) .arrayExpected (some v)
        (some (t.node id))))
      (Check.failWith strict' (finding place' ("Array of " ++ (t.node item).displayName ++
        " expected, encountered scalar " ++ Json.typeName (some v')) .arrayExpected (some v')
        (some (t.node id)))) := fun item =>
    h.failWith hat (.some hv) (fun value => "Array of " ++ (t.node item).displayName ++
      " expected, encountered scalar " ++ Json.typeName value) _ _
  cases h.alike hv with
  | array =>
    unfold Recorder.shapeOf shapeOutcome
    dsimp only
    cases (t.node id).arrayOf with
    | some item => exact h.all (h.itemOutcomes hat item (hitems rfl rfl))
    | none =>
      exact h.failWith hat (.some hv) (fun _ => "A scalar " ++ (t.node id).displayName ++
        " expected, encountered an array") _ _
  | object hmembers =>
    unfold Recorder.shapeOf shapeOutcome
    dsimp only
    cases (t.node id).arrayOf with
    | some item => exact hnotArray item
    | none =>
      refine h.plainOutcome hat hv _ hmembers.dateForm? hmembers.isTaggedPattern fun _ _ _ _ => ?_
      exact h.objectOutcome hmembers (hfields rfl rfl) hat _
  | scalar hnoItems hnoFields =>
    have hplain : c.Outcomes (Check.plainOutcome t place strict (t.node id) v [])
        (Check.plainOutcome t place' strict' (t.node id) v []) :=
      h.plainOutcome hat hv _ rfl rfl fun _ _ hv _ => absurd hv (hnoFields _)
    unfold Recorder.shapeOf
    cases v with
    | array items => exact absurd rfl (hnoItems items)
    | object fields => exact absurd rfl (hnoFields fields)
    | null =>
      unfold shapeOutcome
      dsimp only
      split
      · exact h.pass
      · exact h.failWith hat (.some hv) (fun _ => "Required \"" ++ (t.node id).displayName ++
          "\" expected") .missingProperty _
    | bool | number | string =>
      unfold shapeOutcome
      dsimp only
      cases (t.node id).arrayOf with
      | some item => exact hnotArray item
      | none => exact hplain

theorem checkValue (hv : c.Values v v')
    (hshape : c.Checkers (Recorder.shapeOf t v) (Recorder.shapeOf t v')) :
    c.Checkers (checkValue t v) (checkValue t v') := by
  rw [Recorder.checkValue_eq, Recorder.checkValue_eq]
  exact h.candidatesOutcome hshape (.some hv)

/-- **The comparison holds of the checks of values that compare.** -/
theorem shapeOf_of_values (v v' : Json) (hv : c.Values v v') :
    c.Checkers (Recorder.shapeOf t v) (Recorder.shapeOf t v') := by
  -- the recursion is on the first value: every part of it has a counterpart that it compares with
  refine h.shapeOf hv (fun {items items'} heq heq' => ?_) fun {_ _} heq _ m hm m' _ hmm' => ?_
  · have hitems : List.Forall₂ c.Values items items' := by
      have halike := h.alike hv
      rw [heq, heq'] at halike
      cases halike with
      | scalar hnoItems => exact absurd rfl (hnoItems items)
      | array hitems => exact hitems
    rw [checkItems_eq_map, checkItems_eq_map, List.forall₂_map_left_iff, List.forall₂_map_right_iff]
    exact forall₂_imp_mem hitems fun j hj j' _ hjj' => h.checkValue hjj' (shapeOf_of_values j j' hjj')
  · exact h.checkValue hmm' (shapeOf_of_values m.2 m'.2 hmm')
termination_by sizeOf v
decreasing_by
  · exact heq ▸ Json.sizeOf_item_lt hj
  · exact heq ▸ Json.sizeOf_value_lt hm

theorem candidateOutcome {value value' : Option Json} (hvalue : Option.Rel c.Values value value')
    (optional : Bool) :
    c.Checkers (Recorder.candidateOutcome t value optional)
      (Recorder.candidateOutcome t value' optional) := by
  cases hvalue with
  | some hv => exact h.shapeOf_of_values _ _ hv
  | none => exact h.absentOutcome optional

theorem valueOutcome {value value' : Option Json} (hvalue : Option.Rel c.Values value value')
    (optional : Bool) :
    c.Checkers (Recorder.valueOutcome t value optional) (Recorder.valueOutcome t value' optional) := by
  rw [Recorder.valueOutcome_eq, Recorder.valueOutcome_eq]
  exact h.candidatesOutcome (h.candidateOutcome hvalue optional) hvalue

end Lawful
end Comparison
end Check
end TypedJson
