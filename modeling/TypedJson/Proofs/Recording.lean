import TypedJson.Proofs.Verdict
/-!
# Checking on one list of findings

A check that is written for one list of findings works on a `Log`: the place that it is at, and
all findings so far, its own and those of others.  A step into a value lengthens the place and
shortens it again (`Recorder.within`), and a candidate of a union that fails has the list cut
back to its length before the trial (`Recorder.trial`).  So what a failed candidate had found,
however deep in the value, goes with it.

Such a check comes to the same as one that hands its findings on: it adds the findings of the
outcome at the end of the list, and leaves everything else as it was
(`Recorder.recordsAll_tryCheck`).

The two ways of checking differ in where findings are kept and in what has to be undone.  The
checker of the model returns its findings, so there is nothing to undo; the recorder writes
them to a list that others have written to.  `Records` is the statement that the second
amounts to the first, for any log, and it is kept by each way to put checks together.
-/
namespace TypedJson

/-- What a check works on: its place, and the findings of all checks so far. -/
structure Log where
  place : Place
  findings : List Finding

/-- A check that works on a log. -/
abbrev Recorder := StateM Log Bool

/-- The check of one value, strict or not, against a node. -/
abbrev Recording := Bool → NodeId → Recorder

namespace Recorder

open Check

/-- Notes the findings of a check that looks at no parts. -/
def record (outcome : Place → Outcome) : Recorder := fun log =>
  let o := outcome log.place
  (o.ok, { log with findings := log.findings ++ o.findings })

def fails (strict : Bool) (f : Place → Finding) : Recorder :=
  record fun place => failWith strict (f place)

/-- A step into the value and back. -/
def within (s : Segment) (check : Recorder) : Recorder := do
  modify fun log => { log with place := s :: log.place }
  let ok ← check
  modify fun log => { log with place := log.place.tail }
  pure ok

/-- All of the checks in turn, also after one has failed. -/
def all : List Recorder → Recorder
  | [] => pure true
  | check :: rest => do
    let ok ← check
    let others ← all rest
    pure (ok && others)

/-- A check that takes its findings back if it fails. -/
def trial (check : Recorder) : Recorder := do
  let mark := (← get).findings.length
  let ok ← check
  if ok then pure true
  else
    modify fun log => { log with findings := log.findings.take mark }
    pure false

/-- The first of the checks that succeeds on trial. -/
def firstOf : List Recorder → Recorder
  | [] => pure false
  | check :: rest => do
    if ← trial check then pure true else firstOf rest

/-! ## The check of a value -/

section
variable (t : NodeTable)

/-- A value, present or not, against a node and the branches of its union. -/
def candidates (value : Option Json) (check : Recording) : Recording := fun strict id =>
  match (t.node id).unionOf with
  | [] => check strict id
  | branches => do
    if ← firstOf ((id :: branches).map (check false)) then pure true
    else fails strict fun place => describedMismatch t place id value

def absentShape (optional : Bool) : Recording := fun strict id =>
  if optional then pure true
  else fails strict fun place => required place (t.node id) none

def items (strict : Bool) (item : NodeId) : Nat → List Recording → List Recorder
  | _, [] => []
  | i, check :: rest => within (.index i) (check strict item) :: items strict item (i + 1) rest

def property (strict : Bool) (members : List (String × Recording)) (p : Property) : Recorder :=
  within (.key p.name)
    (match Json.member? p.name members with
    | some check => check strict p.type
    | none => candidates t none (absentShape t p.isOptional) strict p.type)

def member (n : SchemaNode) (strict : Bool) (m : String × Recording) : Recorder :=
  match roleOf t n m.1 with
  | .signature x => within (.key m.1) (m.2 strict x.valueType)
  | _ => pure true

/-- The keys of the object that the node knows nothing of. -/
def unknownNames (n : SchemaNode) (members : List (String × Recording)) : List String :=
  unknownKeys t n (members.map fun m => (m.1, fun _ _ _ => .pass))

def object (strict : Bool) (n : SchemaNode) (value : Json) (members : List (String × Recording)) :
    Recorder := do
  let declared ← all (n.properties.map (property t strict members))
  let others ← all (members.map (member t n strict))
  let advised ← record fun place => unknownOutcome place strict n value (unknownNames t n members)
  pure (declared && (others && advised))

def plain (strict : Bool) (n : SchemaNode) (value : Json) (members : List (String × Recording)) :
    Recorder :=
  if n.allowedValues.values.any (·.matchesValue value) then pure true
  else
    match n.displayName with
    | "boolean" | "string" | "number" | "bigint" =>
      if Scalar.matchesPrimitive n.displayName value then pure true
      else fails strict fun place => mismatch place n value (Json.typeName (some value))
    | "Date" => record fun place => dateOutcome place strict n value
    | "RegExp" => record fun place => patternOutcome place strict n value
    | _ =>
      if !n.properties.isEmpty || !n.indexes.isEmpty then
        match value with
        | .object _ => object t strict n value members
        | _ =>
          fails strict fun place => finding place
            ("Expected object, got " ++ Json.typeName (some value))
            .objectExpected (some value) (some n)
      else if n.isLiteralOnly then fails strict fun place => mismatch place n value value.plainText
      else pure false

def shape (value : Json) (parts : List Recording) (members : List (String × Recording)) :
    Recording := fun strict id =>
  let n := t.node id
  match value, n.arrayOf with
  | .null, _ =>
    if t.isNullable id then pure true else fails strict fun place => required place n (some value)
  | .array _, some item => all (items strict item 0 parts)
  | .array _, none =>
    fails strict fun place => finding place
      ("A scalar " ++ n.displayName ++ " expected, encountered an array")
      .objectExpected (some value) (some n)
  | _, some item =>
    fails strict fun place => finding place
      ("Array of " ++ (t.node item).displayName ++ " expected, encountered scalar " ++
        Json.typeName (some value))
      .arrayExpected (some value) (some n)
  | _, none => plain t strict n value members

mutual

/-- A value that is present against the shape of a node, branches apart. -/
def ofShape : Json → Recording
  | .array js => shape t (.array js) (ofItems js) []
  | .object fields => shape t (.object fields) [] (ofMembers fields)
  | .null => shape t .null [] []
  | .bool b => shape t (.bool b) [] []
  | .number n => shape t (.number n) [] []
  | .string s => shape t (.string s) [] []

def ofItems : List Json → List Recording
  | [] => []
  | j :: rest => candidates t (some j) (ofShape j) :: ofItems rest

def ofMembers : List (String × Json) → List (String × Recording)
  | [] => []
  | (key, j) :: rest => (key, candidates t (some j) (ofShape j)) :: ofMembers rest

end

/-- A value, present or not, against the shape of a node. -/
def check (value : Option Json) (optional : Bool) : Recording :=
  match value with
  | some v => ofShape t v
  | none => absentShape t optional

/-- A value, present or not, against a node. -/
def tryCheck (value : Option Json) (optional : Bool) : Recording :=
  candidates t value (check t value optional)

end

/-! ## What a check adds to the log

The combinators, each with the outcome that it amounts to.  The place of the log is the place
that the checker is given, so a step into the value and back is a step of the checker. -/

/-- The check adds the findings of the outcome and leaves everything else as it was. -/
def Records (check : Recorder) (outcome : Place → Outcome) : Prop :=
  ∀ log : Log, check log =
    ((outcome log.place).ok, ⟨log.place, log.findings ++ (outcome log.place).findings⟩)

theorem run_bind {α β : Type} (m : StateM Log α) (f : α → StateM Log β) (log : Log) :
    (m >>= f) log = f (m log).1 (m log).2 := rfl

theorem records_record (outcome : Place → Outcome) : Records (record outcome) outcome :=
  fun _ => rfl

theorem records_fails (strict : Bool) (f : Place → Finding) :
    Records (fails strict f) fun place => failWith strict (f place) := records_record _

theorem records_true : Records (pure true) fun _ => .pass := fun log => by
  show (true, log) = (true, ⟨log.place, log.findings ++ []⟩)
  rw [List.append_nil]

theorem records_false : Records (pure false) fun _ => .fail := fun log => by
  show (false, log) = (false, ⟨log.place, log.findings ++ []⟩)
  rw [List.append_nil]

namespace Records

variable {check check' : Recorder} {o o' : Place → Outcome}

theorem within (h : Records check o) (s : Segment) :
    Records (within s check) fun place => o (s :: place) := by
  intro log
  rw [Recorder.within, run_bind]
  show (check >>= _) ⟨s :: log.place, log.findings⟩ = _
  rw [run_bind, h]
  rfl

theorem both (h : Records check o) (h' : Records check' o') :
    Records (do let ok ← check; let ok' ← check'; pure (ok && ok'))
      fun place => (o place).both (o' place) := by
  intro log
  rw [run_bind, h, run_bind, h']
  show (_, (⟨log.place, _ ++ _ ++ _⟩ : Log)) = _
  rw [List.append_assoc]
  rfl

theorem all {α : Type} {check : α → Recorder} {o : α → Place → Outcome} : ∀ {parts : List α},
    (∀ a ∈ parts, Records (check a) (o a)) →
      Records (all (parts.map check)) fun place => Outcome.all (parts.map fun a => o a place)
  | [], _ => records_true
  | a :: _, h =>
    (h a List.mem_cons_self).both (all fun b hb => h b (List.mem_cons_of_mem _ hb))

/-- A failed trial leaves no trace. -/
theorem trial (h : Records check o) :
    Records (trial check) fun place => if (o place).ok then o place else .fail := by
  intro log
  rw [Recorder.trial, run_bind]
  show (check >>= fun ok => if ok = true then pure true else _) log = _
  rw [run_bind, h]
  cases hok : (o log.place).ok with
  | true =>
    simp only [hok, if_true]
    rfl
  | false =>
    simp only [hok, Bool.false_eq_true, if_false]
    show (false, (⟨log.place, (log.findings ++ _).take log.findings.length⟩ : Log)) =
      (false, ⟨log.place, log.findings ++ []⟩)
    rw [List.take_left, List.append_nil]

/-- Of the candidates the first that is accepted on trial is the one whose findings stay. -/
theorem firstOf {check : Recording} {shape : Checker}
    (h : ∀ c, Records (check false c) fun place => shape place false c) : ∀ cs : List NodeId,
      Records (firstOf (cs.map (check false)))
        fun place => (firstAccepted? shape place cs).getD .fail
  | [] => records_false
  | c :: cs => by
    intro log
    rw [List.map_cons, Recorder.firstOf, run_bind, (h c).trial log]
    cases hok : (shape log.place false c).ok with
    | true =>
      simp only [firstAccepted?, hok, if_true, Option.getD_some]
      rfl
    | false =>
      simp only [firstAccepted?, hok, Bool.false_eq_true, if_false]
      show Recorder.firstOf (cs.map (check false)) ⟨log.place, log.findings ++ []⟩ = _
      rw [List.append_nil, firstOf h cs]

end Records

/-! ## The check of a value adds its outcome

A value may be absent, which the checker treats in a function of its own and the recorder
does not.  So the outcome is first brought to the form with candidates, and then compared. -/

section
variable {t : NodeTable}

/-- The outcome of a value, present or not, against a node and the branches of its union. -/
def candidatesOutcome (t : NodeTable) (value : Option Json) (shape : Checker) : Checker :=
  fun place strict id =>
    match (t.node id).unionOf with
    | [] => shape place strict id
    | branches =>
      match firstAccepted? shape place (id :: branches) with
      | some trial => trial
      | none => failWith strict (describedMismatch t place id value)

def absentOutcome (t : NodeTable) (optional : Bool) : Checker := fun place strict id =>
  if optional then .pass else failWith strict (required place (t.node id) none)

theorem candidatesOutcome_of_union {value : Option Json} {shape : Checker} {place : Place}
    {strict : Bool} {id : NodeId} (hunion : (t.node id).unionOf ≠ []) :
    candidatesOutcome t value shape place strict id =
      match firstAccepted? shape place (id :: (t.node id).unionOf) with
      | some trial => trial
      | none => failWith strict (describedMismatch t place id value) := by
  unfold candidatesOutcome
  split
  · rename_i hnil
    exact absurd hnil hunion
  · rfl

theorem candidates_of_union {value : Option Json} {check : Recording} {strict : Bool} {id : NodeId}
    (hunion : (t.node id).unionOf ≠ []) :
    candidates t value check strict id =
      firstOf ((id :: (t.node id).unionOf).map (check false)) >>= fun ok =>
        if ok then pure true
        else fails strict fun place => describedMismatch t place id value := by
  unfold candidates
  split
  · rename_i hnil
    exact absurd hnil hunion
  · rfl

theorem firstAccepted?_absent (t : NodeTable) (place : Place) : ∀ cs : List NodeId,
    firstAccepted? (absentOutcome t false) place cs = none
  | [] => rfl
  | _ :: cs => firstAccepted?_absent t place cs

theorem candidatesOutcome_absent (t : NodeTable) (optional : Bool) :
    candidatesOutcome t none (absentOutcome t optional) =
      fun place strict id => checkAbsent t place strict optional id := by
  funext place strict id
  unfold candidatesOutcome checkAbsent
  cases hunion : (t.node id).unionOf with
  | nil => rfl
  | cons b bs =>
    cases optional with
    | true => rfl
    | false => simp only [firstAccepted?_absent, List.isEmpty_cons, Bool.false_eq_true, if_false]

/-- The recording adds what the checker hands on, wherever it is used. -/
def RecordsAll (check : Recording) (checker : Checker) : Prop :=
  ∀ strict id, Records (check strict id) fun place => checker place strict id

theorem RecordsAll.candidates {check : Recording} {shape : Checker} (h : RecordsAll check shape)
    (value : Option Json) :
    RecordsAll (candidates t value check) (candidatesOutcome t value shape) := by
  intro strict id
  by_cases hunion : (t.node id).unionOf = []
  · unfold Recorder.candidates candidatesOutcome
    rw [hunion]
    exact h strict id
  · intro log
    show _ = ((candidatesOutcome t value shape log.place strict id).ok,
      (⟨log.place, log.findings ++ (candidatesOutcome t value shape log.place strict id).findings⟩ :
        Log))
    rw [candidatesOutcome_of_union hunion, candidates_of_union hunion, run_bind,
      Records.firstOf (h false) _ log]
    cases hfirst : firstAccepted? shape log.place (id :: (t.node id).unionOf) with
    | some o =>
      have hok := (firstAccepted?_eq_some hfirst).1
      simp only [hfirst, Option.getD_some, hok, if_true]
      rfl
    | none =>
      simp only [hfirst, Option.getD_none, Outcome.fail, List.append_nil, Bool.false_eq_true,
        if_false]
      rfl

theorem recordsAll_absentShape (optional : Bool) :
    RecordsAll (absentShape t optional) (absentOutcome t optional) := by
  intro strict id
  cases optional with
  | true => exact records_true
  | false => exact records_fails strict fun place => required place (t.node id) none

theorem records_items (strict : Bool) (item : NodeId) : ∀ {i : Nat} {checks : List Recording}
    {checkers : List Checker}, List.Forall₂ RecordsAll checks checkers →
      Records (all (items strict item i checks))
        fun place => Outcome.all (itemOutcomes place strict item i checkers)
  | _, _, _, .nil => records_true
  | i, _, _, .cons h hs => ((h strict item).within (.index i)).both (records_items strict item hs)

/-- Members of the same names, with recordings that add what the checkers hand on. -/
def RecordsMembers (members : List (String × Recording)) (members' : List (String × Checker)) :
    Prop := List.Forall₂ (fun m m' => m.1 = m'.1 ∧ RecordsAll m.2 m'.2) members members'

variable {members : List (String × Recording)} {members' : List (String × Checker)}

theorem RecordsMembers.names (h : RecordsMembers members members') :
    members.map (·.1) = members'.map (·.1) := by
  unfold RecordsMembers at h
  induction h with
  | nil => rfl
  | cons hm _ ih => rw [List.map_cons, List.map_cons, hm.1, ih]

theorem RecordsMembers.unknownNames (h : RecordsMembers members members') (n : SchemaNode) :
    unknownNames t n members = unknownKeys t n members' := by
  unfold Recorder.unknownNames unknownKeys
  rw [List.map_map, ← h.names]
  rfl

theorem records_property (h : RecordsMembers members members') (strict : Bool) (p : Property) :
    Records (property t strict members p)
      fun place => propertyOutcome t place strict members' p := by
  unfold property propertyOutcome
  have hmember := member?_rel (R := RecordsAll) h p.name
  generalize Json.member? p.name members = found at hmember
  generalize Json.member? p.name members' = found' at hmember
  cases hmember with
  | none =>
    have habsent : RecordsAll (candidates t none (absentShape t p.isOptional)) _ :=
      (recordsAll_absentShape p.isOptional).candidates none
    rw [candidatesOutcome_absent] at habsent
    exact (habsent strict p.type).within _
  | some hchecks => exact (hchecks strict p.type).within _

theorem records_member (n : SchemaNode) (strict : Bool) {m : String × Recording}
    {m' : String × Checker} (hm : m.1 = m'.1 ∧ RecordsAll m.2 m'.2) :
    Records (member t n strict m) fun place => memberOutcome t n place strict m' := by
  unfold member memberOutcome
  rw [hm.1]
  cases roleOf t n m'.1 with
  | signature x => exact (hm.2 strict x.valueType).within _
  | declared => exact records_true
  | unknown => exact records_true

theorem records_members (n : SchemaNode) (strict : Bool) : ∀ {members : List (String × Recording)}
    {members' : List (String × Checker)}, RecordsMembers members members' →
      Records (all (members.map (member t n strict)))
        fun place => Outcome.all (members'.map (memberOutcome t n place strict))
  | _, _, .nil => records_true
  | _, _, .cons hm hms => (records_member n strict hm).both (records_members n strict hms)

theorem records_object (h : RecordsMembers members members') (strict : Bool) (n : SchemaNode)
    (value : Json) : Records (object t strict n value members)
      fun place => objectOutcome t place strict n value members' := by
  have hproperties : Records (all (n.properties.map (property t strict members)))
      fun place => Outcome.all (n.properties.map (propertyOutcome t place strict members')) :=
    .all fun p _ => records_property h strict p
  have hothers := (records_members (t := t) n strict h).both (records_record fun place =>
    unknownOutcome place strict n value (unknownKeys t n members'))
  have hall := hproperties.both hothers
  unfold object
  rw [h.unknownNames]
  intro log
  have hrun := hall log
  simp only [run_bind] at hrun ⊢
  exact hrun

theorem records_plain (h : RecordsMembers members members') (strict : Bool) (n : SchemaNode)
    (value : Json) : Records (plain t strict n value members)
      fun place => plainOutcome t place strict n value members' := by
  intro log
  show _ = ((plainOutcome t log.place strict n value members').ok, (⟨log.place, log.findings ++
    (plainOutcome t log.place strict n value members').findings⟩ : Log))
  unfold plain plainOutcome
  by_cases hliteral : n.allowedValues.values.any (·.matchesValue value)
  · rw [if_pos hliteral, if_pos hliteral]
    exact records_true log
  · rw [if_neg hliteral, if_neg hliteral]
    -- both sides go by the name, each in a match of its own
    rcases Scalar.displayName_cases n.displayName with
      hname | hname | hname | ⟨h₁, h₂, h₃, h₄, h₅, h₆⟩
    · rcases hname with hname | hname | hname | hname
      all_goals
        simp only [hname]
        split
        · exact records_true log
        · exact records_fails strict _ log
    · simp only [hname]
      exact records_record _ log
    · simp only [hname]
      exact records_record _ log
    · simp only
      split
      · cases value with
        | object fields => exact records_object h strict n _ log
        | _ => exact records_fails strict _ log
      · split
        · exact records_fails strict _ log
        · exact records_false log

theorem recordsAll_shape {parts : List Recording} {parts' : List Checker}
    (hparts : List.Forall₂ RecordsAll parts parts') (hmembers : RecordsMembers members members')
    (value : Json) :
    RecordsAll (shape t value parts members) (shapeOutcome t value parts' members') := by
  intro strict id log
  show _ = ((shapeOutcome t value parts' members' log.place strict id).ok, (⟨log.place,
    log.findings ++ (shapeOutcome t value parts' members' log.place strict id).findings⟩ : Log))
  unfold shape shapeOutcome
  dsimp only
  generalize (t.node id).arrayOf = item
  cases value with
  | null =>
    dsimp only
    split
    · exact records_true log
    · exact records_fails strict _ log
  | array js =>
    cases item with
    | none => exact records_fails strict _ log
    | some item => exact records_items strict _ hparts log
  | _ =>
    cases item with
    | none => exact records_plain hmembers strict _ _ log
    | some item => exact records_fails strict _ log

/-- The outcome of a value that is present against the shape of a node, branches apart. -/
def shapeOf (t : NodeTable) : Json → Checker
  | .array js => shapeOutcome t (.array js) (checkItems t js) []
  | .object fields => shapeOutcome t (.object fields) [] (checkMembers t fields)
  | .null => shapeOutcome t .null [] []
  | .bool b => shapeOutcome t (.bool b) [] []
  | .number n => shapeOutcome t (.number n) [] []
  | .string s => shapeOutcome t (.string s) [] []

theorem checkValue_eq (t : NodeTable) (v : Json) :
    checkValue t v = candidatesOutcome t (some v) (shapeOf t v) := by
  cases v <;> rw [checkValue] <;> rfl

theorem recordsAll_of_shape {v : Json} (h : RecordsAll (ofShape t v) (shapeOf t v)) :
    RecordsAll (candidates t (some v) (ofShape t v)) (checkValue t v) := by
  rw [checkValue_eq]
  exact h.candidates (some v)

mutual

theorem recordsAll_ofShape (t : NodeTable) : ∀ v : Json, RecordsAll (ofShape t v) (shapeOf t v)
  | .array js => by
    rw [ofShape, shapeOf]
    exact recordsAll_shape (records_ofItems t js) .nil _
  | .object fields => by
    rw [ofShape, shapeOf]
    exact recordsAll_shape .nil (records_ofMembers t fields) _
  | .null => by rw [ofShape, shapeOf]; exact recordsAll_shape .nil .nil _
  | .bool _ => by rw [ofShape, shapeOf]; exact recordsAll_shape .nil .nil _
  | .number _ => by rw [ofShape, shapeOf]; exact recordsAll_shape .nil .nil _
  | .string _ => by rw [ofShape, shapeOf]; exact recordsAll_shape .nil .nil _

theorem records_ofItems (t : NodeTable) : ∀ js : List Json,
    List.Forall₂ RecordsAll (ofItems t js) (checkItems t js)
  | [] => by rw [ofItems, checkItems]; exact .nil
  | j :: js => by
    rw [ofItems, checkItems]
    exact .cons (recordsAll_of_shape (recordsAll_ofShape t j)) (records_ofItems t js)

theorem records_ofMembers (t : NodeTable) : ∀ fields : List (String × Json),
    RecordsMembers (ofMembers t fields) (checkMembers t fields)
  | [] => by rw [ofMembers, checkMembers]; exact .nil
  | (_, j) :: fields => by
    rw [ofMembers, checkMembers]
    exact .cons ⟨rfl, recordsAll_of_shape (recordsAll_ofShape t j)⟩ (records_ofMembers t fields)

end

/-- The outcome of a value, present or not, against the shape of a node. -/
def candidateOutcome (t : NodeTable) (value : Option Json) (optional : Bool) : Checker :=
  match value with
  | some v => shapeOf t v
  | none => absentOutcome t optional

/-- The outcome of a value, present or not, against a node. -/
def valueOutcome (t : NodeTable) (value : Option Json) (optional : Bool) : Checker :=
  match value with
  | some v => checkValue t v
  | none => fun place strict id => checkAbsent t place strict optional id

theorem valueOutcome_eq (t : NodeTable) (value : Option Json) (optional : Bool) :
    valueOutcome t value optional =
      candidatesOutcome t value (candidateOutcome t value optional) := by
  cases value with
  | some v => exact checkValue_eq t v
  | none => exact (candidatesOutcome_absent t optional).symm

theorem recordsAll_check (value : Option Json) (optional : Bool) :
    RecordsAll (check t value optional) (candidateOutcome t value optional) := by
  cases value with
  | some v => exact recordsAll_ofShape t v
  | none => exact recordsAll_absentShape optional

/-- **A check on one list of findings adds what the checker hands on.** -/
theorem recordsAll_tryCheck (value : Option Json) (optional : Bool) :
    RecordsAll (tryCheck t value optional) (valueOutcome t value optional) := by
  rw [valueOutcome_eq]
  exact (recordsAll_check value optional).candidates value

end
end Recorder
end TypedJson
