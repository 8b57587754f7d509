import TypedJson.Schema.Format
/-!
# Findings

A finding is one mismatch between a value and a type: where it is, what kind it is,
and what was found there.  Findings are ranked: an error means that the value does
not conform, a warning or a hint does not.  A report is the list of the findings of
one value.
-/
namespace TypedJson

inductive Severity
  | hint
  | warning
  | error
  deriving DecidableEq, Repr

namespace Severity

def rank : Severity → Nat
  | .hint => 0
  | .warning => 1
  | .error => 2

def name : Severity → String
  | .hint => "hint"
  | .warning => "warning"
  | .error => "error"

end Severity

inductive FindingKind
  | typeMismatch
  | missingProperty
  | unknownProperty
  | arrayExpected
  | objectExpected
  | unsupported
  | stringToDate
  | stringToPattern
  deriving DecidableEq

namespace FindingKind

def all : List FindingKind :=
  [typeMismatch, missingProperty, unknownProperty, arrayExpected, objectExpected, unsupported,
   stringToDate, stringToPattern]

def name : FindingKind → String
  | .typeMismatch => "typeMismatch"
  | .missingProperty => "missingProperty"
  | .unknownProperty => "unknownProperty"
  | .arrayExpected => "arrayExpected"
  | .objectExpected => "objectExpected"
  | .unsupported => "unsupported"
  | .stringToDate => "stringToDate"
  | .stringToPattern => "stringToRegExp"

def severity : FindingKind → Severity
  | .arrayExpected | .objectExpected | .unsupported | .missingProperty | .typeMismatch => .error
  | .unknownProperty => .warning
  | .stringToDate | .stringToPattern => .hint

def decode : Decoder FindingKind := fun path d =>
  (Decode.constant (all.map name) path d).map fun i => all.getD i .unsupported

end FindingKind

/-- One step into a value: into an object by name or into an array by position. -/
inductive Segment
  | index (i : Nat)
  | key (name : String)
  deriving DecidableEq

namespace Segment

def text : Segment → String
  | .index i => toString i
  | .key name => name

def toJson : Segment → Json
  | .index i => .nat i
  | .key name => .string name

def ofJson? : Json → Option Segment
  | .number (.int i) => if 0 ≤ i then some (.index i.toNat) else none
  | .string s => some (.key s)
  | _ => none

def decode : Decoder Segment := fun path d => do
  let j ← Decode.tree path d
  match ofJson? j with
  | some s => pure s
  | none => Decode.fail path (.noVariant "PathSegment")

/-- The steps joined by points; nothing at the root. -/
def dotted (path : List Segment) : String := ".".intercalate (path.map text)

end Segment

structure Finding where
  /-- The steps from the root. -/
  path : List Segment
  message : String
  kind : FindingKind
  /-- The offending part; nothing if it is absent. -/
  value : Option Json
  typeInfo : Option SchemaNode

namespace Finding

def severity (f : Finding) : Severity := f.kind.severity

def isError (f : Finding) : Bool := decide (f.severity = .error)

def toJson (f : Finding) : Json :=
  .object ([("path", .array (f.path.map (·.toJson))), ("message", .string f.message),
      ("errorType", .string f.kind.name)] ++
    Json.optionalMember "value" f.value ++
    Json.optionalMember "typeInfo" (f.typeInfo.map (·.toJson)))

def record : Decode.Record Finding :=
  { name := "ValidationError"
    fields := ["path", "message", "errorType", "value", "typeInfo"]
    take := fun i path d =>
      match i with
      | 0 => (Decode.list Segment.decode path d).map fun v f => { f with path := v }
      | 1 => (Decode.string path d).map fun v f => { f with message := v }
      | 2 => (FindingKind.decode path d).map fun v f => { f with kind := v }
      | 3 => (Decode.optional Decode.value path d).map fun v f => { f with value := v }
      | _ => (Decode.optional SchemaNode.decode path d).map fun v f => { f with typeInfo := v } }

def decode : Decoder Finding := record.decode [0, 1, 2] ⟨[], "", .unsupported, none, none⟩

end Finding

/-- The findings of one value in order; none if it conforms without reservation. -/
structure Report where
  findings : List Finding

namespace Report

def isEmpty (r : Report) : Bool := r.findings.isEmpty

def hasErrors (r : Report) : Bool := r.findings.any (·.isError)

/-- The findings of this severity or a higher one. -/
def atLeast (r : Report) (lowest : Severity) : Report :=
  ⟨r.findings.filter fun f => lowest.rank ≤ f.severity.rank⟩

def toJson (r : Report) : Json :=
  .object (Json.listMember "errors" (r.findings.map (·.toJson)))

def record : Decode.Record Report :=
  { name := "ValidationResult"
    fields := ["errors"]
    take := fun _ path d => (Decode.list Finding.decode path d).map fun v _ => ⟨v⟩ }

def decode : Decoder Report := record.decode [] ⟨[]⟩

def ofText (text : String) : Except LoadError Report := loadText decode text

end Report
end TypedJson
