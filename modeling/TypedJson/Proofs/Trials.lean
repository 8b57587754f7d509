import TypedJson.Proofs.Recording
/-!
# Trials of the candidates of a union

A value against a union is tried against the node itself and then against its branches, until one
accepts it.  What a trial finds is only advice, however deep in the value it looks
(`Recorder.advises_shapeOf`).  So a union leaves one of three traces on a list of findings
(`Recorder.tryCheck_union`): the advice of the candidate that accepts the value, if there is one;
otherwise a single mismatch, if the check is strict; otherwise nothing.

The proof has two halves.  What is found on trial is advice, by recursion on the value; and
the recording layer leaves of the candidates only what the first to accept has found.
Together they give the trace of a union without a word about how it was tried.
-/
namespace TypedJson

/-- All that the outcome found is advice. -/
def Outcome.Advises (o : Outcome) : Prop := ∀ f ∈ o.findings, f.severity = .hint

namespace Outcome.Advises

variable {a b : Outcome}

theorem pass : Outcome.pass.Advises := fun _ hf => absurd hf List.not_mem_nil

theorem fail : Outcome.fail.Advises := fun _ hf => absurd hf List.not_mem_nil

theorem both (ha : a.Advises) (hb : b.Advises) : (a.both b).Advises := by
  intro f hf
  rcases List.mem_append.1 hf with hf | hf
  · exact ha f hf
  · exact hb f hf

theorem all : ∀ {os : List Outcome}, (∀ o ∈ os, o.Advises) → (Outcome.all os).Advises
  | [], _ => pass
  | o :: _, h =>
    (h o List.mem_cons_self).both (all fun x hx => h x (List.mem_cons_of_mem _ hx))

theorem failWith (f : Finding) : (Check.failWith false f).Advises := fail

theorem passWith {f : Finding} (h : f.severity = .hint) : (Check.passWith f).Advises := by
  intro g hg
  rw [List.mem_singleton.1 hg]
  exact h

end Outcome.Advises

namespace Check

variable {t : NodeTable}

/-! ## Trials find advice only

A trial finds errors nowhere, since each of them is reported in strict checks only.  What a
date or pattern that is written as a text gives rise to is advice in both modes. -/

/-- On trial the checker finds advice only. -/
def Advises (check : Checker) : Prop := ∀ place id, (check place false id).Advises

/-! The parts of a check from the inside out, each on the assumption that the checks of the
values below find advice only. -/

theorem dateOutcome_advises (place : Place) (n : SchemaNode) (v : Json) :
    (dateOutcome place false n v).Advises := by
  unfold dateOutcome
  split
  · exact .passWith rfl
  · exact .pass
  · exact .failWith _

theorem patternOutcome_advises (place : Place) (n : SchemaNode) (v : Json) :
    (patternOutcome place false n v).Advises := by
  unfold patternOutcome
  split
  · exact .pass
  · split
    · exact .passWith rfl
    · exact .failWith _

theorem advises_itemOutcomes (place : Place) (item : NodeId) : ∀ {i : Nat} {checks : List Checker},
    (∀ check ∈ checks, Advises check) → ∀ o ∈ itemOutcomes place false item i checks, o.Advises
  | _, [], _, o, ho => absurd ho List.not_mem_nil
  | _, check :: _, h, o, ho => by
    rcases List.mem_cons.1 ho with rfl | ho
    · exact h check List.mem_cons_self _ item
    · exact advises_itemOutcomes place item (fun c hc => h c (List.mem_cons_of_mem _ hc)) o ho

theorem checkAbsent_advises (place : Place) (optional : Bool) (id : NodeId) :
    (checkAbsent t place false optional id).Advises := by
  unfold checkAbsent
  split
  · exact .pass
  · split
    · exact .failWith _
    · exact .failWith _

theorem propertyOutcome_advises {members : List (String × Checker)}
    (h : ∀ m ∈ members, Advises m.2) (place : Place) (p : Property) :
    (propertyOutcome t place false members p).Advises := by
  unfold propertyOutcome
  dsimp only
  split
  · rename_i check hcheck
    exact h _ (Json.mem_of_member? hcheck) _ p.type
  · exact checkAbsent_advises _ p.isOptional p.type

theorem memberOutcome_advises {m : String × Checker} (h : Advises m.2) (place : Place)
    (n : SchemaNode) : (memberOutcome t n place false m).Advises := by
  unfold memberOutcome
  split
  · exact h _ _
  · exact .pass

theorem objectOutcome_advises {members : List (String × Checker)} (h : ∀ m ∈ members, Advises m.2)
    (place : Place) (n : SchemaNode) (v : Json) :
    (objectOutcome t place false n v members).Advises := by
  have hdeclared : (Outcome.all (n.properties.map (propertyOutcome t place false members))).Advises :=
    .all (List.forall_mem_map.2 fun p _ => propertyOutcome_advises h place p)
  have hothers : (Outcome.all (members.map (memberOutcome t n place false))).Advises :=
    .all (List.forall_mem_map.2 fun m hm => memberOutcome_advises (h m hm) place n)
  exact hdeclared.both (hothers.both .pass)

theorem plainOutcome_advises {members : List (String × Checker)} (h : ∀ m ∈ members, Advises m.2)
    (place : Place) (n : SchemaNode) (v : Json) :
    (plainOutcome t place false n v members).Advises := by
  unfold plainOutcome
  split
  · exact .pass
  · split
    case h_5 => exact dateOutcome_advises place n v
    case h_6 => exact patternOutcome_advises place n v
    case h_7 =>
      split
      · split
        · exact objectOutcome_advises h place n _
        · exact .failWith _
      · split
        · exact .failWith _
        · exact .fail
    all_goals
      split
      · exact .pass
      · exact .failWith _

theorem advises_shapeOutcome {checks : List Checker} {members : List (String × Checker)}
    (hchecks : ∀ check ∈ checks, Advises check) (hmembers : ∀ m ∈ members, Advises m.2) (v : Json) :
    Advises (shapeOutcome t v checks members) := by
  intro place id
  unfold shapeOutcome
  dsimp only
  split
  · split
    · exact .pass
    · exact .failWith _
  · exact .all (advises_itemOutcomes place _ hchecks)
  · exact .failWith _
  · exact .failWith _
  · exact plainOutcome_advises hmembers place _ _

theorem advises_scalar (v : Json) : Advises (shapeOutcome t v [] []) :=
  advises_shapeOutcome (fun _ hc => absurd hc List.not_mem_nil)
    (fun _ hm => absurd hm List.not_mem_nil) v

/-! ## The first candidate that accepts -/

theorem exists_split_of_firstAccepted? {shape : Checker} {place : Place} {o : Outcome} :
    ∀ {cs : List NodeId}, firstAccepted? shape place cs = some o →
      ∃ before c after, cs = before ++ c :: after ∧
        (∀ b ∈ before, (shape place false b).ok = false) ∧ shape place false c = o ∧ o.ok = true
  | c :: cs, h => by
    rw [firstAccepted?] at h
    split at h
    · rename_i hok
      cases h
      exact ⟨[], c, cs, rfl, fun _ hb => absurd hb List.not_mem_nil, rfl, hok⟩
    · rename_i hfails
      obtain ⟨before, d, after, rfl, hbefore, hd, hok⟩ := exists_split_of_firstAccepted? h
      refine ⟨c :: before, d, after, rfl, fun b hb => ?_, hd, hok⟩
      rcases List.mem_cons.1 hb with rfl | hb
      · exact Bool.eq_false_iff.2 hfails
      · exact hbefore b hb

end Check

namespace Recorder

open Check

variable {t : NodeTable}

theorem advises_candidatesOutcome {shape : Checker} (h : Advises shape) (value : Option Json) :
    Advises (candidatesOutcome t value shape) := by
  intro place id
  unfold candidatesOutcome
  split
  · exact h place id
  · split
    · rename_i o hfirst
      obtain ⟨-, c, -, rfl⟩ := firstAccepted?_eq_some hfirst
      exact h place c
    · exact .failWith _

theorem advises_of_shape {v : Json} (h : Advises (shapeOf t v)) : Advises (checkValue t v) := by
  rw [checkValue_eq]
  exact advises_candidatesOutcome h (some v)

mutual

/-- **What a trial finds is only advice.** -/
theorem advises_shapeOf (t : NodeTable) : ∀ v : Json, Advises (shapeOf t v)
  | .array js => by
    rw [shapeOf]
    exact advises_shapeOutcome (advises_checkItems t js) (fun _ hm => absurd hm List.not_mem_nil) _
  | .object fields => by
    rw [shapeOf]
    exact advises_shapeOutcome (fun _ hc => absurd hc List.not_mem_nil)
      (advises_checkMembers t fields) _
  | .null => by rw [shapeOf]; exact advises_scalar _
  | .bool _ => by rw [shapeOf]; exact advises_scalar _
  | .number _ => by rw [shapeOf]; exact advises_scalar _
  | .string _ => by rw [shapeOf]; exact advises_scalar _

theorem advises_checkItems (t : NodeTable) : ∀ js : List Json,
    ∀ check ∈ checkItems t js, Advises check
  | [], _, hc => by rw [checkItems] at hc; exact absurd hc List.not_mem_nil
  | j :: js, c, hc => by
    rw [checkItems] at hc
    rcases List.mem_cons.1 hc with rfl | hc
    · exact advises_of_shape (advises_shapeOf t j)
    · exact advises_checkItems t js c hc

theorem advises_checkMembers (t : NodeTable) : ∀ fields : List (String × Json),
    ∀ m ∈ checkMembers t fields, Advises m.2
  | [], _, hm => by rw [checkMembers] at hm; exact absurd hm List.not_mem_nil
  | (_, j) :: fields, m, hm => by
    rw [checkMembers] at hm
    rcases List.mem_cons.1 hm with rfl | hm
    · exact advises_of_shape (advises_shapeOf t j)
    · exact advises_checkMembers t fields m hm

end

theorem advises_candidateOutcome (value : Option Json) (optional : Bool) :
    Advises (candidateOutcome t value optional) := by
  cases value with
  | some v => exact advises_shapeOf t v
  | none =>
    intro place id
    unfold candidateOutcome absentOutcome
    split
    · exact .pass
    · exact .failWith _

theorem fails_of_candidateOutcome {value : Option Json} {optional : Bool} {log : Log} {c : NodeId}
    (h : (candidateOutcome t value optional log.place false c).ok = false) :
    (check t value optional false c log).1 = false := by
  rw [recordsAll_check value optional false c log]
  exact h

/-- **A union is tried atomically.**  The place stays and earlier findings stay.  A value that is
accepted leaves the advice of the first candidate to accept it, as if that candidate alone had been
tried; one that is not leaves a mismatch at the place if the check is strict, and else no trace. -/
theorem tryCheck_union (t : NodeTable) (value : Option Json) (optional strict : Bool) {id : NodeId}
    (hunion : (t.node id).unionOf ≠ []) (log : Log) :
    ∃ ok added, tryCheck t value optional strict id log =
        (ok, ⟨log.place, log.findings ++ added⟩) ∧
      valueOutcome t value optional log.place strict id = ⟨ok, added⟩ ∧
      (ok = true → (∀ f ∈ added, f.severity = .hint) ∧
        ∃ before c after, id :: (t.node id).unionOf = before ++ c :: after ∧
          (∀ b ∈ before, (check t value optional false b log).1 = false) ∧
          check t value optional false c log = (true, ⟨log.place, log.findings ++ added⟩)) ∧
      (ok = false →
        (∀ c ∈ id :: (t.node id).unionOf, (check t value optional false c log).1 = false) ∧
        if strict then ∃ f, added = [f] ∧ f.kind = .typeMismatch ∧ f.path = log.place.reverse
        else added = []) := by
  refine ⟨_, _, recordsAll_tryCheck value optional strict id log, rfl, ?_⟩
  rw [valueOutcome_eq]
  dsimp only
  rw [candidatesOutcome_of_union hunion]
  cases hfirst : firstAccepted? (candidateOutcome t value optional) log.place
      (id :: (t.node id).unionOf) with
  | some o =>
    obtain ⟨before, c, after, hsplit, hbefore, rfl, hok⟩ := exists_split_of_firstAccepted? hfirst
    refine ⟨fun _ => ⟨advises_candidateOutcome value optional log.place c,
      before, c, after, hsplit, fun b hb => fails_of_candidateOutcome (hbefore b hb), ?_⟩,
      fun hfails => absurd (hok.symm.trans hfails) Bool.noConfusion⟩
    rw [recordsAll_check value optional false c log]
    dsimp only
    rw [hok]
  | none =>
    refine ⟨fun hok => absurd hok Bool.noConfusion, fun _ => ⟨fun c hc => ?_, ?_⟩⟩
    · exact fails_of_candidateOutcome (Bool.eq_false_iff.2 (firstAccepted?_eq_none hfirst c hc))
    · cases strict with
      | true => exact ⟨_, rfl, rfl, rfl⟩
      | false => rfl

/-- Pairs of `{from: Date; days: number} | {from: Date; until: Date}`. -/
def periodTable : NodeTable := .ofArray #[
  { SchemaNode.plain "Period" with unionOf := [⟨1⟩, ⟨2⟩] },
  { SchemaNode.plain "Span" with properties := [⟨"from", false, ⟨3⟩⟩, ⟨"days", false, ⟨4⟩⟩] },
  { SchemaNode.plain "Range" with properties := [⟨"from", false, ⟨3⟩⟩, ⟨"until", false, ⟨3⟩⟩] },
  SchemaNode.plain "Date",
  SchemaNode.plain "number"]

/-- A period with dates that are written as texts. -/
def period : Json :=
  .object [("from", .string "2020-01-01"), ("until", .string "2020-02-01")]

/-- A list of findings with one in it, in the first item of an array. -/
def periodLog : Log := ⟨[.index 0], [required [.key "name"] (.plain "string") none]⟩

/-- The first branch takes the first date and fails; only what the second finds is left. -/
theorem periodTable_tryCheck :
    (periodTable.node ⟨0⟩).unionOf ≠ [] ∧
      ∃ added, tryCheck periodTable (some period) false true ⟨0⟩ periodLog =
          (true, ⟨[.index 0], periodLog.findings ++ added⟩) ∧
        added.map (fun f => (f.path, f.kind)) =
          [([.index 0, .key "from"], .stringToDate), ([.index 0, .key "until"], .stringToDate)] := by
  have hunion : (periodTable.node ⟨0⟩).unionOf ≠ [] := by decide
  obtain ⟨ok, added, hrun, houtcome, -⟩ :=
    tryCheck_union periodTable (some period) false true hunion periodLog
  have hok : (valueOutcome periodTable (some period) false [.index 0] true ⟨0⟩).ok = true := by
    decide +kernel
  have hadded : (valueOutcome periodTable (some period) false [.index 0] true ⟨0⟩).findings.map
      (fun f => (f.path, f.kind)) =
        [([.index 0, .key "from"], .stringToDate), ([.index 0, .key "until"], .stringToDate)] := by
    decide +kernel
  have houtcome : valueOutcome periodTable (some period) false [.index 0] true ⟨0⟩ = ⟨ok, added⟩ :=
    houtcome
  rw [houtcome] at hok hadded
  obtain rfl : ok = true := hok
  exact ⟨hunion, added, hrun, hadded⟩

end Recorder
end TypedJson
