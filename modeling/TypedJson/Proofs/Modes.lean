import TypedJson.Proofs.Trials
import TypedJson.Proofs.Comparison
/-!
# Trials and strict checks

A check is made on trial to see whether a value passes, and strictly to say what is wrong with it.
Both come to the same verdict.  On trial a check finds advice only, and a strict check of a value
that passes finds the same advice, and besides that no more than keys that the node knows nothing of
(`Recorder.agreesInModes`).

The comparison has a trial on one side and a check in any mode on the other.  Advice is found
by both.  The strict check of a value that passes may differ in the warning of unknown keys
only, as its other findings come with a failure.  In a union even the strict check tries its
candidates, so below a union there is no difference at all.
-/
namespace TypedJson

/-- The strict outcome has the verdict of the trial; if that is that the value passes, it has the
advice of the trial and nothing more than warnings of unknown keys. -/
structure Outcome.Decides (trial strict : Outcome) : Prop where
  ok : trial.ok = strict.ok
  advice : strict.ok = true → strict.findings.filter (·.severity = .hint) = trial.findings
  warnings : strict.ok = true → ∀ f ∈ strict.findings,
    f.severity = .hint ∨ f.kind = .unknownProperty

namespace Outcome.Decides

variable {a a' b b' : Outcome}

theorem of_fails (ha : a.ok = false) (ha' : a'.ok = false) : a.Decides a' where
  ok := ha.trans ha'.symm
  advice := fun hok => absurd (ha'.symm.trans hok) Bool.noConfusion
  warnings := fun hok => absurd (ha'.symm.trans hok) Bool.noConfusion

theorem pass : Outcome.pass.Decides .pass :=
  ⟨rfl, fun _ => rfl, fun _ _ hf => absurd hf List.not_mem_nil⟩

theorem both (ha : a.Decides a') (hb : b.Decides b') : (a.both b).Decides (a'.both b') where
  ok := congrArg₂ and ha.ok hb.ok
  advice := by
    intro hok
    obtain ⟨hok, hok'⟩ := (ok_both a' b').1 hok
    show (a'.findings ++ b'.findings).filter _ = a.findings ++ b.findings
    rw [List.filter_append, ha.advice hok, hb.advice hok']
  warnings := by
    intro hok f hf
    obtain ⟨hok, hok'⟩ := (ok_both a' b').1 hok
    rcases List.mem_append.1 hf with hf | hf
    · exact ha.warnings hok f hf
    · exact hb.warnings hok' f hf

theorem passWith {f : Finding} (h : f.severity = .hint) :
    (Check.passWith f).Decides (Check.passWith f) where
  ok := rfl
  advice := fun _ => by simp [Check.passWith, h]
  warnings := fun _ g hg => .inl (by rw [List.mem_singleton.1 hg, h])

theorem unknown (place : Place) (strict : Bool) (n : SchemaNode) (v : Json) (names : List String) :
    (Check.unknownOutcome place false n v names).Decides
      (Check.unknownOutcome place strict n v names) := by
  unfold Check.unknownOutcome
  rw [Bool.false_and, if_neg Bool.false_ne_true]
  split
  · exact ⟨rfl, fun _ => rfl, fun _ g hg => .inr (by rw [List.mem_singleton.1 hg]; rfl)⟩
  · exact pass

end Outcome.Decides

namespace Check

/-- One run on trial, the other at the same place in any mode. -/
def modes : Comparison where
  At place strict place' _ := place = place' ∧ strict = false
  Values := Eq
  Outcomes := Outcome.Decides

theorem modes_joins : modes.Joins := ⟨.pass, .both⟩

theorem modes_lawful : modes.Lawful where
  toJoins := modes_joins
  step := fun s ⟨hplace, hstrict⟩ => ⟨congrArg (s :: ·) hplace, hstrict⟩
  trial := fun ⟨hplace, _⟩ => ⟨hplace, rfl⟩
  ok := fun h => h.ok
  fail := .of_fails rfl rfl
  failWith := fun _ _ _ _ _ => .of_fails rfl rfl
  passWith := by
    rintro place _ _ _ v _ ⟨rfl, rfl⟩ rfl message kind hkind node
    exact .passWith hkind
  alike := by
    rintro v _ rfl
    refine modes_joins.alike_self (fun _ => rfl) ?_ v
    rintro place _ _ strict' ⟨rfl, rfl⟩ n v names
    exact .unknown place strict' n v names

end Check

namespace Recorder

open Check

/-- Strict or not, the check returns the same verdict, and it adds what the checker hands on.  On
trial that is advice only; if the value passes, a strict check adds the same advice in the same
order, and besides that warnings of unknown keys only. -/
def AgreesInModes (check : Recording) (checker : Checker) : Prop :=
  ∀ (id : NodeId) (log : Log), ∃ ok advice findings,
    check false id log = (ok, ⟨log.place, log.findings ++ advice⟩) ∧
    check true id log = (ok, ⟨log.place, log.findings ++ findings⟩) ∧
    checker log.place false id = ⟨ok, advice⟩ ∧ checker log.place true id = ⟨ok, findings⟩ ∧
    (∀ f ∈ advice, f.severity = .hint) ∧
    (ok = true → findings.filter (·.severity = .hint) = advice ∧
      ∀ f ∈ findings, f.severity = .hint ∨ f.kind = .unknownProperty)

theorem agreesInModes_of_checkers {check : Recording} {checker : Checker}
    (hrecords : RecordsAll check checker) (hadvises : Advises checker)
    (hmodes : modes.Checkers checker checker) : AgreesInModes check checker := by
  intro id log
  have hdecides : (checker log.place false id).Decides (checker log.place true id) :=
    hmodes ⟨rfl, rfl⟩ id
  refine ⟨(checker log.place true id).ok, (checker log.place false id).findings,
    (checker log.place true id).findings, ?_, hrecords true id log, ?_, rfl,
    hadvises log.place id, fun hok => ⟨hdecides.advice hok, hdecides.warnings hok⟩⟩
  · rw [← hdecides.ok]
    exact hrecords false id log
  · rw [← hdecides.ok]

/-- **The mode never changes the verdict**, whatever was found before and wherever the check is:
neither with the branches of the union nor without them, for a value that is there or is missing. -/
theorem agreesInModes (t : NodeTable) (value : Option Json) (optional : Bool) :
    AgreesInModes (tryCheck t value optional) (valueOutcome t value optional) ∧
      AgreesInModes (check t value optional) (candidateOutcome t value optional) := by
  have hvalue : Option.Rel modes.Values value value := Comparison.rel_self (fun _ => rfl) value
  have hadvises := advises_candidateOutcome (t := t) value optional
  refine ⟨agreesInModes_of_checkers (recordsAll_tryCheck value optional) ?_
    (modes_lawful.valueOutcome hvalue optional),
    agreesInModes_of_checkers (recordsAll_check value optional) hadvises
      (modes_lawful.candidateOutcome hvalue optional)⟩
  rw [valueOutcome_eq]
  exact advises_candidatesOutcome hadvises value

/-- An event whose date is written as a text, with a key that it does not know of: the strict check
has the advice of the trial and a warning. -/
example :
    let t : NodeTable := .ofArray #[
      { SchemaNode.plain "Event" with properties := [⟨"date", false, ⟨1⟩⟩] }, SchemaNode.plain "Date"]
    let event : Json := .object [("note", .null), ("date", .string "2020-01-01")]
    ((valueOutcome t (some event) false [] false ⟨0⟩).findings.map (·.kind),
      (valueOutcome t (some event) false [] true ⟨0⟩).findings.map (·.kind)) =
        ([.stringToDate], [.stringToDate, .unknownProperty]) := by decide +kernel

end Recorder
end TypedJson
