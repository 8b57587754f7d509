import TypedJson.Conformance.Finding
import TypedJson.Schema.Reference
import TypedJson.Scalar.Form
/-!
# Checking a value against a node

A check has a verdict and findings.  It runs in one of two modes: a strict check says
what is wrong with the value, a trial does not.  The branches of a union are tried one
after the other, and the first that accepts the value decides; only when none does is
there a finding, and only in a strict check.

The check follows the value.  The checks of the items and members of a value are made
from these parts alone (`checkItems`, `checkMembers`) and handed to the check of the
value itself, which picks among them what the node asks for.  So the check of any
value comes to an end, however the nodes refer to each other.
-/
namespace TypedJson

structure Outcome where
  ok : Bool
  findings : List Finding

namespace Outcome

def pass : Outcome := ⟨true, []⟩

def fail : Outcome := ⟨false, []⟩

/-- Both verdicts and the findings of both. -/
def both (a b : Outcome) : Outcome := ⟨a.ok && b.ok, a.findings ++ b.findings⟩

def all (outcomes : List Outcome) : Outcome := outcomes.foldr both pass

end Outcome

/-- The steps from the innermost outwards. -/
abbrev Place := List Segment

/-- The check of one value at a place, strict or not, against a node. -/
abbrev Checker := Place → Bool → NodeId → Outcome

namespace Check

/-- A finding at a place; its message ends in the place unless that is the root. -/
def finding (place : Place) (message : String) (kind : FindingKind) (value : Option Json)
    (node : Option SchemaNode) : Finding :=
  let path := place.reverse
  { path, kind, value, typeInfo := node
    message := if path.isEmpty then message else message ++ ": " ++ Segment.dotted path }

/-- The value fails; a strict check says why. -/
def failWith (strict : Bool) (f : Finding) : Outcome := ⟨false, if strict then [f] else []⟩

/-- The value passes, with advice. -/
def passWith (f : Finding) : Outcome := ⟨true, [f]⟩

def mismatch (place : Place) (n : SchemaNode) (value : Json) (encountered : String) : Finding :=
  finding place ("A " ++ n.displayName ++ " value expected, encountered " ++ encountered)
    .typeMismatch (some value) (some n)

/-! ## Keys -/

/-- The literal is this key: as a string, or as the number that the key spells. -/
def literalAdmits (key : String) : Literal → Bool
  | .str s => s == key
  | .num d _ => (Scalar.numericKey? key).any fun n => n.unsignedZero == d
  | .bool _ => false

/-- The node itself admits the key, branches apart. -/
def nodeAdmits (n : SchemaNode) (key : String) : Bool :=
  n.allowedValues.values.any (literalAdmits key) ||
    match n.displayName with
    | "string" | "any" | "unknown" => true
    | "number" => (Scalar.numericKey? key).isSome
    | _ => false

/-- A key type admits an object key, itself or in a branch. -/
def admitsKey (t : NodeTable) (id : NodeId) (key : String) : Bool :=
  t.anyBranch (fun n => nodeAdmits n key) id

/-- The first index signature whose key type admits the key. -/
def signatureFor? (t : NodeTable) (n : SchemaNode) (key : String) : Option IndexSignature :=
  n.indexes.find? fun x => admitsKey t x.keyType key

/-! ## Parts -/

/-- The items of an array, each against the node of the items. -/
def itemOutcomes (place : Place) (strict : Bool) (item : NodeId) : Nat → List Checker → List Outcome
  | _, [] => []
  | i, check :: rest =>
    check (.index i :: place) strict item :: itemOutcomes place strict item (i + 1) rest

def describedMismatch (t : NodeTable) (place : Place) (id : NodeId) (value : Option Json) : Finding :=
  finding place
    ("Expected a value matching `" ++ t.describe id ++ "`, encountered " ++ Json.typeName value)
    .typeMismatch value (some (t.node id))

def required (place : Place) (n : SchemaNode) (value : Option Json) : Finding :=
  finding place ("Required \"" ++ n.displayName ++ "\" expected") .missingProperty value (some n)

/-- The check of a value that is not there. -/
def checkAbsent (t : NodeTable) (place : Place) (strict optional : Bool) (id : NodeId) : Outcome :=
  if optional then .pass
  else if (t.node id).unionOf.isEmpty then failWith strict (required place (t.node id) none)
  else failWith strict (describedMismatch t place id none)

/-- A declared property of an object with these members. -/
def propertyOutcome (t : NodeTable) (place : Place) (strict : Bool)
    (members : List (String × Checker)) (p : Property) : Outcome :=
  let inner := Segment.key p.name :: place
  match Json.member? p.name members with
  | some check => check inner strict p.type
  | none => checkAbsent t inner strict p.isOptional p.type

/-- What becomes of a member: a declared property is checked as such, any other by
the first signature that admits its key. -/
inductive KeyRole
  | declared
  | signature (x : IndexSignature)
  | unknown

def roleOf (t : NodeTable) (n : SchemaNode) (key : String) : KeyRole :=
  if (n.property? key).isSome then .declared
  else
    match signatureFor? t n key with
    | some x => .signature x
    | none => .unknown

def memberOutcome (t : NodeTable) (n : SchemaNode) (place : Place) (strict : Bool)
    (member : String × Checker) : Outcome :=
  match roleOf t n member.1 with
  | .signature x => member.2 (.key member.1 :: place) strict x.valueType
  | _ => .pass

/-- The keys that the node knows nothing of, in the order of the data. -/
def unknownKeys (t : NodeTable) (n : SchemaNode) (members : List (String × Checker)) :
    List String :=
  (members.map (·.1)).filter fun key =>
    match roleOf t n key with
    | .unknown => true
    | _ => false

def unknownOutcome (place : Place) (strict : Bool) (n : SchemaNode) (value : Json)
    (keys : List String) : Outcome :=
  if strict && !keys.isEmpty then
    passWith (finding place ("Unknown properties: " ++ ", ".intercalate keys)
      .unknownProperty (some value) (some n))
  else .pass

/-- An object against the properties and signatures of a node. -/
def objectOutcome (t : NodeTable) (place : Place) (strict : Bool) (n : SchemaNode) (value : Json)
    (members : List (String × Checker)) : Outcome :=
  (Outcome.all (n.properties.map (propertyOutcome t place strict members))).both
    ((Outcome.all (members.map (memberOutcome t n place strict))).both
      (unknownOutcome place strict n value (unknownKeys t n members)))

/-! ## Scalars -/

def dateOutcome (place : Place) (strict : Bool) (n : SchemaNode) (value : Json) : Outcome :=
  match Scalar.dateForm? value with
  | some .string =>
    passWith (finding place
      ("A Date expected but string \"" ++ value.plainText ++ "\" is encountered. " ++
        "Would be better to convert the string pattern to Date instance")
      .stringToDate (some value) (some n))
  | some _ => .pass
  | none => failWith strict (mismatch place n value value.plainText)

def patternOutcome (place : Place) (strict : Bool) (n : SchemaNode) (value : Json) : Outcome :=
  if Scalar.isTaggedPattern value then .pass
  else
    match value with
    | .string s =>
      passWith (finding place
        ("A RegExp expected but string \"" ++ s ++ "\" is encountered. " ++
          "Would be better to convert the string pattern to RegExp instance")
        .stringToPattern (some value) (some n))
    | _ => failWith strict (mismatch place n value (Json.typeName (some value)))

/-! ## Values -/

/-- A value that is neither `null` nor an array against a node that is no array. -/
def plainOutcome (t : NodeTable) (place : Place) (strict : Bool) (n : SchemaNode) (value : Json)
    (members : List (String × Checker)) : Outcome :=
  if n.allowedValues.values.any (·.matchesValue value) then .pass
  else
    match n.displayName with
    | "boolean" | "string" | "number" | "bigint" =>
      if Scalar.matchesPrimitive n.displayName value then .pass
      else failWith strict (mismatch place n value (Json.typeName (some value)))
    | "Date" => dateOutcome place strict n value
    | "RegExp" => patternOutcome place strict n value
    | _ =>
      if !n.properties.isEmpty || !n.indexes.isEmpty then
        match value with
        | .object _ => objectOutcome t place strict n value members
        | _ =>
          failWith strict (finding place
            ("Expected object, got " ++ Json.typeName (some value))
            .objectExpected (some value) (some n))
      else if n.isLiteralOnly then failWith strict (mismatch place n value value.plainText)
      else .fail

/-- A value against the shape of a node, branches apart. -/
def shapeOutcome (t : NodeTable) (value : Json) (items : List Checker)
    (members : List (String × Checker)) : Checker := fun place strict id =>
  let n := t.node id
  match value, n.arrayOf with
  | .null, _ => if t.isNullable id then .pass else failWith strict (required place n (some value))
  | .array _, some item => .all (itemOutcomes place strict item 0 items)
  | .array _, none =>
    failWith strict (finding place
      ("A scalar " ++ n.displayName ++ " expected, encountered an array")
      .objectExpected (some value) (some n))
  | _, some item =>
    failWith strict (finding place
      ("Array of " ++ (t.node item).displayName ++ " expected, encountered scalar " ++
        Json.typeName (some value))
      .arrayExpected (some value) (some n))
  | _, none => plainOutcome t place strict n value members

/-- The first candidate that accepts the value on trial. -/
def firstAccepted? (shape : Checker) (place : Place) : List NodeId → Option Outcome
  | [] => none
  | c :: rest =>
    let trial := shape place false c
    if trial.ok then some trial else firstAccepted? shape place rest

/-- A value against a node and the branches of its union. -/
def unionOutcome (t : NodeTable) (value : Json) (shape : Checker) : Checker := fun place strict id =>
  match (t.node id).unionOf with
  | [] => shape place strict id
  | branches =>
    match firstAccepted? shape place (id :: branches) with
    | some trial => trial
    | none => failWith strict (describedMismatch t place id (some value))

mutual

/-- The check of a value. -/
def checkValue (t : NodeTable) : Json → Checker
  | .array items =>
    unionOutcome t (.array items) (shapeOutcome t (.array items) (checkItems t items) [])
  | .object members =>
    unionOutcome t (.object members) (shapeOutcome t (.object members) [] (checkMembers t members))
  | .null => unionOutcome t .null (shapeOutcome t .null [] [])
  | .bool b => unionOutcome t (.bool b) (shapeOutcome t (.bool b) [] [])
  | .number n => unionOutcome t (.number n) (shapeOutcome t (.number n) [] [])
  | .string s => unionOutcome t (.string s) (shapeOutcome t (.string s) [] [])

def checkItems (t : NodeTable) : List Json → List Checker
  | [] => []
  | j :: rest => checkValue t j :: checkItems t rest

def checkMembers (t : NodeTable) : List (String × Json) → List (String × Checker)
  | [] => []
  | (key, j) :: rest => (key, checkValue t j) :: checkMembers t rest

end

theorem checkItems_eq_map (t : NodeTable) (js : List Json) :
    checkItems t js = js.map (checkValue t) := by
  induction js with
  | nil => rfl
  | cons j rest ih => simp only [checkItems, List.map_cons, ih]

theorem checkMembers_eq_map (t : NodeTable) (ms : List (String × Json)) :
    checkMembers t ms = ms.map fun m => (m.1, checkValue t m.2) := by
  induction ms with
  | nil => rfl
  | cons m rest ih => simp only [checkMembers, List.map_cons, ih]

end Check

/-! ## Reports -/

namespace Report

/-- The report of a value against a node of a table. -/
def ofNode (t : NodeTable) (id : NodeId) (value : Json) : Report :=
  ⟨(Check.checkValue t value [] true id).findings⟩

/-- The report for a reference that stands for nothing. -/
def ofUnknownType (reference : String) (value : Json) : Report :=
  ⟨[Check.finding [] ("Schema for expected type " ++ reference ++ " not found") .unsupported
    (some value) none]⟩

end Report

/-- The report of a value against the type that a reference stands for. -/
def Schema.validate (s : Schema) (reference : String) (value : Json) : Report :=
  match Reference.resolve? s reference with
  | some r => .ofNode r.table r.root value
  | none => .ofUnknownType reference value

/-- The report of a value against a node of the schema, if it has that node. -/
def Schema.validateNode? (s : Schema) (id : NodeId) (value : Json) : Option Report :=
  if id.index < s.size then some (.ofNode s.table id value) else none

end TypedJson
