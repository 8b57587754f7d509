import TypedJson.Proofs.Comparison
import TypedJson.Proofs.Location
/-!
# Members in another order

The members of an object have no order of their own.  If they are put into another one, at any depth
of a value, then a check has the same verdict, and it finds the same kinds of things at the same
paths (`Report.marks_of_reordered`).  Only the order of the findings and their messages may change: the
members of an index signature are checked in the order of the data.

The comparison has a value on one side and the value reordered on the other.  Properties are
looked up by name, so their findings stay in the order of the node.  The members that an
index signature takes are checked in the order of the data, and the list of unknown keys is
in that order as well; so only the kinds and the paths can be compared, and only up to
order.
-/
namespace TypedJson
namespace Json

/-- The values are the same but for the order of the members of objects, at any depth. -/
inductive Reordered : Json → Json → Prop
  | same (v : Json) : Reordered v v
  | array {items items' : List Json} (h : List.Forall₂ Reordered items items') :
    Reordered (.array items) (.array items')
  /-- The members change places, and then their values are reordered. -/
  | object {fields moved fields' : List (String × Json)} (hperm : fields.Perm moved)
    (hnames : moved.map (·.1) = fields'.map (·.1))
    (hvalues : List.Forall₂ Reordered (moved.map (·.2)) (fields'.map (·.2))) :
    Reordered (.object fields) (.object fields')

theorem forall₂_members {R : Json → Json → Prop} : ∀ {fields fields' : List (String × Json)},
    fields.map (·.1) = fields'.map (·.1) →
    List.Forall₂ R (fields.map (·.2)) (fields'.map (·.2)) →
      List.Forall₂ (fun m m' => m.1 = m'.1 ∧ R m.2 m'.2) fields fields'
  | [], [], _, _ => .nil
  | _ :: _, _ :: _, hnames, hvalues => by
    obtain ⟨hname, hnames⟩ := List.cons.inj hnames
    cases hvalues with
    | cons hvalue hvalues => exact .cons ⟨hname, hvalue⟩ (forall₂_members hnames hvalues)

variable {fields moved fields' : List (String × Json)}

theorem member?_perm (hnodup : (fields.map (·.1)).Nodup) (hperm : fields.Perm moved) (name : String) :
    member? name fields = member? name moved := by
  have hnodup' : (moved.map (·.1)).Nodup := (hperm.map _).nodup_iff.1 hnodup
  cases hfound : member? name fields with
  | some v =>
    exact (member?_of_mem hnodup' (hperm.mem_iff.1 (mem_of_member? hfound))).symm
  | none =>
    cases hfound' : member? name moved with
    | none => rfl
    | some v =>
      have hmem : (name, v) ∈ fields := hperm.mem_iff.2 (mem_of_member? hfound')
      exact hfound.symm.trans (member?_of_mem hnodup hmem)

/-! ## Values that are written as an object of one member

Dates and patterns may be written as objects, of one member each.  An object of one member
has one order, so they are recognized as before. -/

theorem dateForm?_eq_none (h : fields.length ≠ 1) : Scalar.dateForm? (.object fields) = none := by
  match fields, h with
  | [], _ => rfl
  | _ :: _ :: _, _ => rfl

theorem isTaggedPattern_eq_false (h : fields.length ≠ 1) :
    Scalar.isTaggedPattern (.object fields) = false := by
  unfold Scalar.isTaggedPattern
  split
  · rename_i heq
    exact absurd (congrArg List.length (Json.object.inj heq)) h
  · rfl

namespace Reordered

variable {v v' : Json}

theorem dateForm?_eq (h : v.Reordered v') (tag : String) :
    Scalar.dateForm? (.object [(tag, v)]) = Scalar.dateForm? (.object [(tag, v')]) := by
  cases h <;> rfl

theorem isTaggedPattern_eq (h : v.Reordered v') (tag : String) :
    Scalar.isTaggedPattern (.object [(tag, v)]) = Scalar.isTaggedPattern (.object [(tag, v')]) := by
  cases h <;> rfl

end Reordered

theorem forms_eq (hperm : fields.Perm moved)
    (hmoved : List.Forall₂ (fun m m' => m.1 = m'.1 ∧ m.2.Reordered m'.2) moved fields') :
    Scalar.dateForm? (.object fields) = Scalar.dateForm? (.object fields') ∧
      Scalar.isTaggedPattern (.object fields) = Scalar.isTaggedPattern (.object fields') := by
  have hlength : fields.length = fields'.length := hperm.length_eq.trans hmoved.length_eq
  by_cases hone : fields.length = 1
  · obtain ⟨⟨tag, v⟩, rfl⟩ := List.length_eq_one_iff.1 hone
    rw [List.perm_comm, List.perm_singleton] at hperm
    subst hperm
    cases hmoved with
    | @cons _ m' _ _ hm hnil =>
      cases hnil
      obtain ⟨tag', v'⟩ := m'
      obtain ⟨rfl, hvalue⟩ : tag = tag' ∧ v.Reordered v' := hm
      exact ⟨hvalue.dateForm?_eq tag, hvalue.isTaggedPattern_eq tag⟩
  · have hother : fields'.length ≠ 1 := fun h => hone (hlength.trans h)
    rw [dateForm?_eq_none hone, dateForm?_eq_none hother, isTaggedPattern_eq_false hone,
      isTaggedPattern_eq_false hother]
    exact ⟨rfl, rfl⟩

end Json

/-- Where the finding is and of what kind. -/
def Finding.mark (f : Finding) : List Segment × FindingKind := (f.path, f.kind)

/-- The outcomes have the same verdict, and findings of the same kinds at the same paths. -/
structure Outcome.SameMarks (o o' : Outcome) : Prop where
  ok : o.ok = o'.ok
  marks : (o.findings.map Finding.mark).Perm (o'.findings.map Finding.mark)

namespace Outcome.SameMarks

variable {a a' b b' c : Outcome}

theorem refl (o : Outcome) : o.SameMarks o := ⟨rfl, .refl _⟩

theorem trans (h : a.SameMarks b) (h' : b.SameMarks c) : a.SameMarks c :=
  ⟨h.ok.trans h'.ok, h.marks.trans h'.marks⟩

theorem both (ha : a.SameMarks a') (hb : b.SameMarks b') : (a.both b).SameMarks (a'.both b') where
  ok := congrArg₂ and ha.ok hb.ok
  marks := by
    show ((a.findings ++ b.findings).map _).Perm ((a'.findings ++ b'.findings).map _)
    rw [List.map_append, List.map_append]
    exact ha.marks.append hb.marks

theorem swap (a b c : Outcome) : (a.both (b.both c)).SameMarks (b.both (a.both c)) where
  ok := Bool.and_left_comm ..
  marks := by
    refine List.Perm.map _ ?_
    show (a.findings ++ (b.findings ++ c.findings)).Perm (b.findings ++ (a.findings ++ c.findings))
    rw [← List.append_assoc, ← List.append_assoc]
    exact List.perm_append_comm.append_right _

theorem all_perm {os os' : List Outcome} (h : os.Perm os') : (all os).SameMarks (all os') := by
  induction h with
  | nil => exact refl _
  | cons o _ ih => exact (refl o).both ih
  | swap o o' os => exact swap o' o (all os)
  | trans _ _ ih ih' => exact ih.trans ih'

theorem failWith (place : Place) (strict : Bool) (message message' : String) (kind : FindingKind)
    (value value' : Option Json) (node : Option SchemaNode) :
    (Check.failWith strict (Check.finding place message kind value node)).SameMarks
      (Check.failWith strict (Check.finding place message' kind value' node)) where
  ok := rfl
  marks := by cases strict <;> exact .refl _

theorem passWith (place : Place) (message message' : String) (kind : FindingKind)
    (value value' : Option Json) (node : Option SchemaNode) :
    (Check.passWith (Check.finding place message kind value node)).SameMarks
      (Check.passWith (Check.finding place message' kind value' node)) :=
  ⟨rfl, .refl _⟩

theorem unknown (place : Place) (strict : Bool) (n : SchemaNode) (v v' : Json)
    {names names' : List String} (h : names.Perm names') :
    (Check.unknownOutcome place strict n v names).SameMarks
      (Check.unknownOutcome place strict n v' names') := by
  have hempty : names.isEmpty = names'.isEmpty := by
    rw [Bool.eq_iff_iff, List.isEmpty_iff, List.isEmpty_iff]
    exact ⟨fun hnil => List.nil_perm.1 (hnil ▸ h), fun hnil => List.perm_nil.1 (hnil ▸ h)⟩
  unfold Check.unknownOutcome
  rw [hempty]
  split
  · exact passWith place ..
  · exact refl _

end Outcome.SameMarks

namespace Check

/-- Both runs at the same place and in the same mode, the other on the value reordered. -/
def reordered : Comparison where
  At place strict place' strict' := place = place' ∧ strict = strict'
  Values v v' := v.DistinctNames ∧ v.Reordered v'
  Outcomes := Outcome.SameMarks

theorem reordered_joins : reordered.Joins := ⟨.refl _, .both⟩

theorem reordered_members {fields moved fields' : List (String × Json)}
    (hdistinct : (Json.object fields).DistinctNames) (hperm : fields.Perm moved)
    (hnames : moved.map (·.1) = fields'.map (·.1))
    (hvalues : List.Forall₂ Json.Reordered (moved.map (·.2)) (fields'.map (·.2))) :
    reordered.Members fields fields' := by
  obtain ⟨hnodup, hdistinct⟩ :
      (fields.map (·.1)).Nodup ∧ Json.DistinctNamesMembers fields := by
    rwa [Json.DistinctNames] at hdistinct
  have hmoved := Json.forall₂_members hnames hvalues
  have hrelated : List.Forall₂ (fun m m' => m.1 = m'.1 ∧ reordered.Values m.2 m'.2) moved fields' :=
    forall₂_imp_mem hmoved fun m hm m' _ h =>
      ⟨h.1, Json.distinctNames_of_member hdistinct m (hperm.mem_iff.2 hm), h.2⟩
  obtain ⟨hdate, hpattern⟩ := Json.forms_eq hperm hmoved
  refine ⟨hdate, hpattern, fun name => ?_, fun {outcome outcome'} houtcome => ?_, ?_⟩
  · rw [Json.member?_perm hnodup hperm]
    exact member?_rel hrelated name
  · refine (Outcome.SameMarks.all_perm (hperm.map outcome)).trans
      (reordered_joins.all ?_)
    rw [List.forall₂_map_left_iff, List.forall₂_map_right_iff]
    exact forall₂_imp_mem hrelated fun m hm m' hm' h =>
      houtcome m (hperm.mem_iff.2 hm) m' hm' h.1 h.2
  · rintro place _ strict _ ⟨rfl, rfl⟩ n isUnknown
    have hpermNames : (fields.map (·.1)).Perm (fields'.map (·.1)) := hnames ▸ hperm.map _
    exact .unknown place strict n _ _ (hpermNames.filter _)

theorem reordered_items {items items' : List Json} (hdistinct : (Json.array items).DistinctNames)
    (h : List.Forall₂ Json.Reordered items items') :
    List.Forall₂ reordered.Values items items' := by
  rw [Json.DistinctNames] at hdistinct
  exact forall₂_imp_mem h fun j hj _ _ hjj' => ⟨Json.distinctNames_of_item hdistinct j hj, hjj'⟩

theorem reordered_alike {v v' : Json} (hdistinct : v.DistinctNames) (h : v.Reordered v') :
    reordered.Alike v v' := by
  cases h with
  | array h => exact .array (reordered_items hdistinct h)
  | object hperm hnames hvalues => exact .object (reordered_members hdistinct hperm hnames hvalues)
  | same =>
    have hsame : ∀ vs : List Json, List.Forall₂ Json.Reordered vs vs := fun vs =>
      List.forall₂_same.2 fun v _ => .same v
    cases v with
    | array items => exact .array (reordered_items hdistinct (hsame items))
    | object fields => exact .object (reordered_members hdistinct (.refl _) rfl (hsame _))
    | null | bool | number | string => exact .scalar (fun _ h => by cases h) fun _ h => by cases h

theorem reordered_lawful : reordered.Lawful where
  toJoins := reordered_joins
  step := fun s ⟨hplace, hstrict⟩ => ⟨congrArg (s :: ·) hplace, hstrict⟩
  trial := fun ⟨hplace, _⟩ => ⟨hplace, rfl⟩
  ok := fun h => h.ok
  fail := .refl _
  failWith := by
    rintro place _ strict _ value value' ⟨rfl, rfl⟩ _ message kind node
    exact .failWith place strict ..
  passWith := by
    rintro place _ _ _ v v' ⟨rfl, _⟩ _ message kind _ node
    exact .passWith place ..
  alike := fun ⟨hdistinct, h⟩ => reordered_alike hdistinct h

end Check

/-- **The order of members is immaterial.**  If members of objects of a value are put into another
order, at any depth, the verdict stays, and so do the paths and the kinds of the findings. -/
theorem Report.marks_of_reordered (t : NodeTable) (id : NodeId) {v v' : Json} (hdistinct : v.DistinctNames)
    (h : v.Reordered v') :
    (Check.checkValue t v [] true id).ok = (Check.checkValue t v' [] true id).ok ∧
      (ofNode t id v).hasErrors = (ofNode t id v').hasErrors ∧
      ((ofNode t id v).findings.map Finding.mark).Perm
        ((ofNode t id v').findings.map Finding.mark) := by
  have hvalue : Option.Rel Check.reordered.Values (some v) (some v') := .some ⟨hdistinct, h⟩
  have hat : Check.reordered.At [] true [] true := ⟨rfl, rfl⟩
  obtain ⟨hok, hmarks⟩ : (Check.checkValue t v [] true id).SameMarks
      (Check.checkValue t v' [] true id) :=
    Check.reordered_lawful.valueOutcome hvalue false hat id
  have herrors : ∀ r : Report,
      r.hasErrors = (r.findings.map Finding.mark).any (·.2.severity = .error) := fun r => by
    rw [List.any_map]
    rfl
  refine ⟨hok, ?_, hmarks⟩
  rw [herrors, herrors]
  exact hmarks.any_eq

namespace Check

/-- Bookings of a period, with notes that are numbers. -/
def bookingTable : NodeTable := .ofArray #[
  { SchemaNode.plain "Booking" with properties := [⟨"period", false, ⟨1⟩⟩], indexes := [⟨⟨5⟩, ⟨4⟩⟩] },
  { SchemaNode.plain "Span | Range" with unionOf := [⟨2⟩, ⟨3⟩] },
  { SchemaNode.plain "Span" with properties := [⟨"from", false, ⟨6⟩⟩, ⟨"days", false, ⟨4⟩⟩] },
  { SchemaNode.plain "Range" with properties := [⟨"from", false, ⟨6⟩⟩, ⟨"until", false, ⟨6⟩⟩] },
  SchemaNode.plain "number",
  SchemaNode.plain "string",
  SchemaNode.plain "Date"]

def booking : Json :=
  .object [("hall", .bool true), ("desk", .string "3"),
    ("period", .object [("from", .string "2020-01-01"), ("until", .string "2020-02-01")])]

/-- The same booking, with all members the other way round. -/
def turnedBooking : Json :=
  .object [("period", .object [("until", .string "2020-02-01"), ("from", .string "2020-01-01")]),
    ("desk", .string "3"), ("hall", .bool true)]

/-- The notes are found wrong in the order of the data, and nothing else depends on it. -/
theorem bookingTable_reordered : booking.DistinctNames ∧ booking.Reordered turnedBooking ∧
    ((Report.ofNode bookingTable ⟨0⟩ booking).findings.map Finding.mark).Perm
      [([.key "period", .key "from"], .stringToDate), ([.key "period", .key "until"], .stringToDate),
        ([.key "desk"], .typeMismatch), ([.key "hall"], .typeMismatch)] := by
  have hdistinct : booking.DistinctNames :=
    ⟨by decide, trivial, trivial, ⟨by decide, trivial, trivial, trivial⟩, trivial⟩
  have hperiod : (Json.object [("from", .string "2020-01-01"), ("until", .string "2020-02-01")]).Reordered
      (.object [("until", .string "2020-02-01"), ("from", .string "2020-01-01")]) :=
    .object (.swap _ _ []) rfl (.cons (.same _) (.cons (.same _) .nil))
  have hreordered : booking.Reordered turnedBooking :=
    .object (List.reverse_perm _).symm rfl (.cons hperiod (.cons (.same _) (.cons (.same _) .nil)))
  refine ⟨hdistinct, hreordered,
    (Report.marks_of_reordered bookingTable ⟨0⟩ hdistinct hreordered).2.2.trans (List.Perm.of_eq ?_)⟩
  decide +kernel

end Check
end TypedJson
