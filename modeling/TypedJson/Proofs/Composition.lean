import TypedJson.Proofs.Comparison
import TypedJson.Proofs.ErrorPaths
/-!
# Checks of parts and of wholes

A check reads its place only to note it in what it finds.  Hence the findings of a part inside of a
value are those of the part alone, each with the way to the part put before its path and its message
ended accordingly (`Finding.under`), and earlier findings stay as they are (`Recorder.composes`).
The findings of an array are those of its items, one after the other.

The comparison has the check at the root on one side and the check at a place on the other.
A message ends in the place where the finding is, and so it is not enough to lengthen the
path: the end of the message is replaced.  That is why `under` looks for the headline of a
message, and why each kind of finding has to be shown to have one.
-/
namespace TypedJson
namespace Finding

/-- The message without the place that it ends in. -/
def headline (f : Finding) : String :=
  if f.path.isEmpty then f.message
  else
    let ending := ": " ++ Segment.dotted f.path
    String.ofList (f.message.toList.take (f.message.length - ending.length))

/-- The finding as it is in a value that has the checked part at the end of this path. -/
def under (outer : List Segment) (f : Finding) : Finding :=
  Check.finding (outer ++ f.path).reverse f.headline f.kind f.value f.typeInfo

variable (place : Place) (message : String) (kind : FindingKind) (value : Option Json)
  (node : Option SchemaNode)

theorem headline_finding : (Check.finding place message kind value node).headline = message := by
  unfold headline Check.finding
  dsimp only
  split
  · rfl
  · have hends : message ++ ": " ++ Segment.dotted place.reverse =
        message ++ (": " ++ Segment.dotted place.reverse) := String.append_assoc ..
    rw [hends, String.length_append, Nat.add_sub_cancel, String.toList_append,
      ← String.length_toList, List.take_left, String.ofList_toList]

theorem under_finding (outer : Place) :
    (Check.finding place message kind value node).under outer.reverse =
      Check.finding (place ++ outer) message kind value node := by
  unfold under
  rw [headline_finding]
  show Check.finding (outer.reverse ++ place.reverse).reverse message kind value node = _
  rw [← List.reverse_append, List.reverse_reverse]

end Finding

namespace Outcome

/-- The outcome of a part as it is in a value that has the part at the end of this path. -/
def under (outer : List Segment) (o : Outcome) : Outcome := ⟨o.ok, o.findings.map (·.under outer)⟩

variable (outer : Place)

theorem under_both (a b : Outcome) (path : List Segment) :
    (a.both b).under path = (a.under path).both (b.under path) :=
  congrArg (mk _) (List.map_append ..)

theorem under_failWith (strict : Bool) (place : Place) (message : String) (kind : FindingKind)
    (value : Option Json) (node : Option SchemaNode) :
    (Check.failWith strict (Check.finding place message kind value node)).under outer.reverse =
      Check.failWith strict (Check.finding (place ++ outer) message kind value node) := by
  rw [← Finding.under_finding]
  cases strict <;> rfl

theorem under_passWith (place : Place) (message : String) (kind : FindingKind)
    (value : Option Json) (node : Option SchemaNode) :
    (Check.passWith (Check.finding place message kind value node)).under outer.reverse =
      Check.passWith (Check.finding (place ++ outer) message kind value node) := by
  rw [← Finding.under_finding]
  rfl

theorem under_unknown (place : Place) (strict : Bool) (n : SchemaNode) (v : Json)
    (names : List String) :
    (Check.unknownOutcome place strict n v names).under outer.reverse =
      Check.unknownOutcome (place ++ outer) strict n v names := by
  unfold Check.unknownOutcome
  split
  · exact under_passWith outer place _ _ _ _
  · rfl

theorem findings_all (os : List Outcome) : (all os).findings = os.flatMap (·.findings) := by
  induction os with
  | nil => rfl
  | cons o os ih =>
    rw [List.flatMap_cons, ← ih]
    rfl

end Outcome

namespace Check

/-- One run on a part alone, the other on the part at this place. -/
def moved (outer : Place) : Comparison where
  At place strict place' strict' := place' = place ++ outer ∧ strict = strict'
  Values := Eq
  Outcomes o o' := o' = o.under outer.reverse

theorem moved_joins (outer : Place) : (moved outer).Joins where
  pass := rfl
  both := by
    rintro a _ b _ rfl rfl
    exact (Outcome.under_both a b _).symm

theorem moved_lawful (outer : Place) : (moved outer).Lawful where
  toJoins := moved_joins outer
  step := fun s ⟨hplace, hstrict⟩ => ⟨congrArg (s :: ·) hplace, hstrict⟩
  trial := fun ⟨hplace, _⟩ => ⟨hplace, rfl⟩
  ok := by
    rintro o _ rfl
    rfl
  fail := rfl
  failWith := by
    rintro place _ strict _ value value' ⟨rfl, rfl⟩ hvalue message kind node
    obtain rfl : value = value' := by
      cases hvalue with
      | some h => exact congrArg some h
      | none => rfl
    exact (Outcome.under_failWith outer strict place _ kind value node).symm
  passWith := by
    rintro place _ _ _ v _ ⟨rfl, rfl⟩ rfl message kind _ node
    exact (Outcome.under_passWith outer place _ kind (some v) node).symm
  alike := by
    rintro v _ rfl
    refine (moved_joins outer).alike_self (fun _ => rfl) ?_ v
    rintro place _ strict _ ⟨rfl, rfl⟩ n v names
    exact (Outcome.under_unknown outer place strict n v names).symm

theorem checkValue_moved (t : NodeTable) (v : Json) (outer : Place) (strict : Bool) (id : NodeId) :
    checkValue t v outer strict id = (checkValue t v [] strict id).under outer.reverse := by
  have hat : (moved outer).At [] strict outer strict := ⟨rfl, rfl⟩
  exact (moved_lawful outer).valueOutcome (.some rfl) false hat id

end Check

theorem Report.findings_array {t : NodeTable} {id item : NodeId}
    (hitem : (t.node id).arrayOf = some item) (hunion : (t.node id).unionOf = [])
    (items : List Json) :
    (Report.ofNode t id (.array items)).findings = items.zipIdx.flatMap fun c =>
      (Report.ofNode t item c.1).findings.map (·.under [.index c.2]) := by
  have hshape : Check.checkValue t (.array items) [] true id =
      .all (Check.itemOutcomes [] true item 0 (Check.checkItems t items)) := by
    rw [Recorder.checkValue_eq, Recorder.candidatesOutcome, hunion]
    show Check.shapeOutcome t (.array items) (Check.checkItems t items) [] [] true id = _
    unfold Check.shapeOutcome
    dsimp only
    rw [hitem]
  have hparts : Check.itemOutcomes [] true item 0 (Check.checkItems t items) =
      items.zipIdx.map fun c => (Check.checkValue t c.1 [] true item).under [.index c.2] := by
    rw [Check.itemOutcomes_eq_map, Check.checkItems_eq_map, List.zipIdx_map, List.map_map]
    exact List.map_congr_left fun c _ => Check.checkValue_moved t c.1 [.index c.2] true item
  show (Check.checkValue t (.array items) [] true id).findings = _
  rw [hshape, hparts, Outcome.findings_all, List.flatMap_map]
  rfl

namespace Recorder

open Check

/-- The check at any place and after any findings leaves both as they are, and comes to the same as
the check from the root on an empty list, with what that one finds moved to the place. -/
def Composes (check : Recording) (checker : Checker) : Prop :=
  ∀ (strict : Bool) (id : NodeId) (log : Log), ∃ ok added,
    check strict id ⟨[], []⟩ = (ok, ⟨[], added⟩) ∧
    check strict id log =
      (ok, ⟨log.place, log.findings ++ added.map (·.under log.place.reverse)⟩) ∧
    checker [] strict id = ⟨ok, added⟩ ∧
    checker log.place strict id = ⟨ok, added.map (·.under log.place.reverse)⟩

theorem composes_of_checkers {check : Recording} {checker : Checker}
    (hrecords : RecordsAll check checker) (hmoved : ∀ outer, (moved outer).Checkers checker checker) :
    Composes check checker := by
  intro strict id log
  have hat : (moved log.place).At [] strict log.place strict := ⟨rfl, rfl⟩
  have hplace : checker log.place strict id = (checker [] strict id).under log.place.reverse :=
    hmoved log.place hat id
  refine ⟨(checker [] strict id).ok, (checker [] strict id).findings, hrecords strict id ⟨[], []⟩,
    ?_, rfl, hplace⟩
  rw [hrecords strict id log]
  dsimp only
  rw [hplace]
  rfl

/-- **A check is the same wherever it is made.**  Neither its place nor what was found before has
an influence on it, with the branches of the union or without them; so the findings of an array
against a node of arrays are those of its items against the node of the items, one after the
other. -/
theorem composes (t : NodeTable) :
    (∀ (value : Option Json) (optional : Bool),
      Composes (tryCheck t value optional) (valueOutcome t value optional) ∧
        Composes (check t value optional) (candidateOutcome t value optional)) ∧
    ∀ id item, (t.node id).arrayOf = some item → (t.node id).unionOf = [] → ∀ items : List Json,
      (Report.ofNode t id (.array items)).findings = items.zipIdx.flatMap fun c =>
        (Report.ofNode t item c.1).findings.map (·.under [.index c.2]) := by
  refine ⟨fun value optional => ?_, fun id item hitem hunion => Report.findings_array hitem hunion⟩
  have hvalue : ∀ outer, Option.Rel (moved outer).Values value value := fun _ =>
    Comparison.rel_self (fun _ => rfl) value
  exact ⟨composes_of_checkers (recordsAll_tryCheck value optional)
      fun outer => (moved_lawful outer).valueOutcome (hvalue outer) optional,
    composes_of_checkers (recordsAll_check value optional)
      fun outer => (moved_lawful outer).candidateOutcome (hvalue outer) optional⟩

/-- Arrays of `{from: Date; days: number}`. -/
def spansTable : NodeTable := .ofArray #[
  { SchemaNode.plain "Span[]" with arrayOf := some ⟨1⟩ },
  { SchemaNode.plain "Span" with properties := [⟨"from", false, ⟨2⟩⟩, ⟨"days", false, ⟨3⟩⟩] },
  SchemaNode.plain "Date",
  SchemaNode.plain "number"]

/-- Two spans with something to say about either of them. -/
def spans : List Json :=
  [.object [("from", .string "2020-01-01"), ("days", .number (.int 3))],
   .object [("from", .bool true), ("until", .null)]]

/-- The findings of the second span have its index in their paths and messages. -/
theorem spansTable_composes :
    (spansTable.node ⟨0⟩).arrayOf = some ⟨1⟩ ∧ (spansTable.node ⟨0⟩).unionOf = [] ∧
      (Report.ofNode spansTable ⟨0⟩ (.array spans)).findings.map (fun f => (f.path, f.message)) =
        [([.index 0, .key "from"], "A Date expected but string \"2020-01-01\" is encountered. " ++
            "Would be better to convert the string pattern to Date instance: 0.from"),
         ([.index 1, .key "from"], "A Date value expected, encountered true: 1.from"),
         ([.index 1, .key "days"], "Required \"number\" expected: 1.days"),
         ([.index 1], "Unknown properties: until: 1")] := by
  have hitem : (spansTable.node ⟨0⟩).arrayOf = some ⟨1⟩ := rfl
  have hunion : (spansTable.node ⟨0⟩).unionOf = [] := rfl
  refine ⟨hitem, hunion, ?_⟩
  rw [(composes spansTable).2 ⟨0⟩ ⟨1⟩ hitem hunion spans]
  decide +kernel

end Recorder
end TypedJson
