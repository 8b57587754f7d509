import TypedJson.Json.Reader
import TypedJson.Text.Printable
/-!
# Decoding documents

A decoder turns a `Document` into a value of a domain type, or says what is wrong
and where.  Decoders walk the document from front to back, so the fault they report
is the first one of the text.  Records are read from objects or from lists
(`Record.decode`): an unknown name is skipped, a known one may come only once, and
in a list the fields stand in their declared order with the optional ones possibly
missing at the end.
-/
namespace TypedJson

/-- One step from the root of a document to one of its parts. -/
inductive JsonStep
  | name (name : String)
  | index (index : Nat)
  /-- Somewhere in front of the next name of an object. -/
  | nextName
  deriving DecidableEq

/-- The steps from the innermost outwards. -/
abbrev JsonPath := List JsonStep

def JsonStep.text : JsonStep → String
  | .name n => n
  | .index i => "[" ++ toString i ++ "]"
  | .nextName => "?"

/-- Names are joined by points and indexes are not; the root is a point. -/
def JsonPath.text (path : JsonPath) : String :=
  match path.reverse with
  | [] => "."
  | first :: rest =>
    rest.foldl
      (fun out step =>
        match step with
        | .index _ => out ++ step.text
        | _ => out ++ "." ++ step.text)
      first.text

/-- What can be wrong with a document of some type. -/
inductive DecodeCause
  | malformed (fault : SyntaxFault)
  | wrongType (found : Found) (expected : String)
  | wrongValue (found : Int) (expected : String)
  | wrongLength (length : Nat) (expected : String)
  | missingField (name : String)
  | duplicateField (name : String)
  | unknownVariant (name : String) (known : List String)
  | noVariant (type : String)
  | missingNode (owner target : Nat)

structure DecodeError where
  path : JsonPath
  cause : DecodeCause

def Found.text : Found → String
  | .null => "null"
  | .bool b => "boolean `" ++ (if b then "true" else "false") ++ "`"
  | .number (.int i) => "integer `" ++ toString i ++ "`"
  | .number (.float d) => "floating point `" ++ d.pointText ++ "`"
  | .string s => "string " ++ Text.quotedPrintable s
  | .sequence => "sequence"
  | .mapping => "map"

def DecodeCause.message : DecodeCause → String
  | .malformed fault => fault.message
  | .wrongType found expected => "invalid type: " ++ found.text ++ ", expected " ++ expected
  | .wrongValue found expected =>
    "invalid value: integer `" ++ toString found ++ "`, expected " ++ expected
  | .wrongLength length expected =>
    "invalid length " ++ toString length ++ ", expected " ++ expected
  | .missingField name => "missing field `" ++ name ++ "`"
  | .duplicateField name => "duplicate field `" ++ name ++ "`"
  | .unknownVariant name known =>
    "unknown variant `" ++ name ++ "`, expected one of " ++
      ", ".intercalate (known.map fun k => "`" ++ k ++ "`")
  | .noVariant type => "data did not match any variant of untagged enum " ++ type
  | .missingNode owner target =>
    "node " ++ toString owner ++ " references missing node " ++ toString target

/-- A value decoded from a document at a path. -/
abbrev Decoder (α : Type) := JsonPath → Document → Except DecodeError α

namespace Decode

def fail (path : JsonPath) (cause : DecodeCause) : Except DecodeError α := .error ⟨path, cause⟩

/-- The value has another type than `expected`, unless it cannot even be read. -/
def wrongType (expected : String) (path : JsonPath) (d : Document) : Except DecodeError α :=
  match d.found with
  | .ok found => fail path (.wrongType found expected)
  | .error fault => fail path (.malformed fault)

def string : Decoder String
  | _, .string s => .ok s
  | path, d => wrongType "a string" path d

def bool : Decoder Bool
  | _, .bool b => .ok b
  | path, d => wrongType "a boolean" path d

/-- An integer from zero to `2 ^ 32 - 1`. -/
def word32 : Decoder Nat
  | path, .number (.int i) =>
    if 0 ≤ i ∧ i < twoTo 32 then .ok i.toNat else fail path (.wrongValue i "u32")
  | path, d => wrongType "u32" path d

/-- `null` is no value. -/
def optional (decode : Decoder α) : Decoder (Option α)
  | _, .null => .ok none
  | path, d => (decode path d).map some

def items (decode : Decoder α) (path : JsonPath) : Nat → List Document → Except DecodeError (List α)
  | _, [] => .ok []
  | i, d :: rest => do
    let first ← decode (.index i :: path) d
    let others ← items decode path (i + 1) rest
    pure (first :: others)

/-- What is wrong with the end of a list that was read to its end. -/
def listEnd (path : JsonPath) (stop : ListEnd) : Except DecodeError Unit :=
  match stop.readFault? with
  | none => .ok ()
  | some fault => fail path (.malformed fault)

/-- A list of any length; `expected` is its description in messages. -/
def listOf (expected : String) (decode : Decoder α) : Decoder (List α)
  | path, .array ds stop => do
    let values ← items decode path 0 ds
    listEnd path stop
    pure values
  | path, d => wrongType expected path d

def list (decode : Decoder α) : Decoder (List α) := listOf "a sequence" decode

/-! ## Whole values -/

/-- Containers may be nested at most this deep. -/
def depthLimit : Nat := 128

mutual

/-- The whole value as it is written, repeated names included. -/
def tree (path : JsonPath) : Document → Except DecodeError Json
  | .null => .ok .null
  | .bool b => .ok (.bool b)
  | .number n => .ok (.number n)
  | .string s => .ok (.string s)
  | .unreadable fault => fail path (.malformed fault)
  | .broken fault _ => fail path (.malformed fault)
  | .array ds stop =>
    if depthLimit ≤ path.length + 1 then fail path (.malformed .recursionLimit)
    else do
      let values ← treeItems path stop 0 ds
      pure (.array values)
  | .object ms stop =>
    if depthLimit ≤ path.length + 1 then fail path (.malformed .recursionLimit)
    else do
      let values ← treeMembers path stop ms
      pure (.object values)

def treeItems (path : JsonPath) (stop : ListEnd) : Nat → List Document → Except DecodeError (List Json)
  | _, [] => do
    listEnd path stop
    pure []
  | i, d :: rest => do
    let first ← tree (.index i :: path) d
    let others ← treeItems path stop (i + 1) rest
    pure (first :: others)

def treeMembers (path : JsonPath) (stop : ObjectEnd) :
    List (MemberName × Document) → Except DecodeError (List (String × Json))
  | [] =>
    match stop, stop.nameFault? with
    | _, some fault => fail (.nextName :: path) (.malformed fault)
    | .noColon _ fault, none => fail path (.malformed fault)
    | _, none => .ok []
  | (.error fault, _) :: _ => fail (.nextName :: path) (.malformed fault)
  | (.ok name, d) :: rest => do
    let first ← tree (.name name :: path) d
    let others ← treeMembers path stop rest
    pure ((name, first) :: others)

end

/-- A value as data: one member per name, the first position and the last value. -/
def value (path : JsonPath) (d : Document) : Except DecodeError Json :=
  (tree path d).map Json.keepLastDeep

/-! ## Records -/

/-- How a record is read: `take i` reads the field number `i` into the state. -/
structure Record (σ : Type) where
  name : String
  fields : List String
  take : Nat → Decoder (σ → σ)

namespace Record

variable {σ : Type}

def expectedName (r : Record σ) : String := "struct " ++ r.name

/-- Reads the members of an object; `seen` holds the numbers of the fields already read. -/
def members (r : Record σ) (path : JsonPath) (stop : ObjectEnd) :
    List Nat → σ → List (MemberName × Document) → Except DecodeError (List Nat × σ)
  | seen, state, [] =>
    match stop, stop.nameFault? with
    | _, some fault => fail (.nextName :: path) (.malformed fault)
    | .noColon (.ok name) fault, none =>
      if (r.fields.idxOf? name).any seen.contains then fail path (.duplicateField name)
      else fail path (.malformed fault)
    | _, none => .ok (seen, state)
  | _, _, (.error fault, _) :: _ => fail (.nextName :: path) (.malformed fault)
  | seen, state, (.ok name, d) :: rest =>
    match r.fields.idxOf? name with
    | none =>
      match d.skipFault? with
      | some fault => fail (.name name :: path) (.malformed fault)
      | none => members r path stop seen state rest
    | some i =>
      if seen.contains i then fail path (.duplicateField name)
      else
        match r.take i (.name name :: path) d with
        | .error e => .error e
        | .ok put => members r path stop (i :: seen) (put state) rest

/-- Reads the items of a list as the fields from number `i` on. -/
def elements (r : Record σ) (path : JsonPath) (stop : ListEnd) :
    Nat → σ → List Document → Except DecodeError (List Nat × σ)
  | i, state, [] =>
    if i < r.fields.length then
      match stop.readFault? with
      | some fault => fail path (.malformed fault)
      | none => .ok (List.range i, state)
    else
      match stop.overdueFault? with
      | some fault => fail path (.malformed fault)
      | none => .ok (List.range i, state)
  | i, state, d :: rest =>
    if i < r.fields.length then
      match r.take i (.index i :: path) d with
      | .error e => .error e
      | .ok put => elements r path stop (i + 1) (put state) rest
    else fail path (.malformed .trailingCharacters)

/-- Reads a record from an object or a list.  Among the fields of `required`, the
first that is missing is the one complained about. -/
def decode (r : Record σ) (required : List Nat) (start : σ) : Decoder σ
  | path, .object ms stop => do
    let (seen, state) ← r.members path stop [] start ms
    match required.find? (!seen.contains ·) with
    | some i => fail path (.missingField (r.fields.getD i ""))
    | none => pure state
  | path, .array ds stop => do
    let (seen, state) ← r.elements path stop 0 start ds
    match required.find? (!seen.contains ·) with
    | some i =>
      fail path (.wrongLength i
        (r.expectedName ++ " with " ++ toString r.fields.length ++
          (if r.fields.length = 1 then " element" else " elements")))
    | none => pure state
  | path, d => wrongType r.expectedName path d

end Record

/-- One of the named constants: a string, or an object whose only member has that
name and the value `null`. -/
def constant (known : List String) : Decoder Nat
  | path, .string s =>
    match known.idxOf? s with
    | some i => .ok i
    | none => fail path (.unknownVariant s known)
  | path, .object ((.error fault, _) :: _) _ => fail path (.malformed fault)
  | path, .object ((.ok name, d) :: rest) stop =>
    match known.idxOf? name with
    | none => fail path (.unknownVariant name known)
    | some i =>
      match d with
      | .null =>
        match rest, stop with
        | [], .closed => .ok i
        | [], .endOfText => fail path (.malformed .endInObject)
        | _, _ => fail path (.malformed .expectedValue)
      | d => wrongType "unit" (.name name :: path) d
  | path, .object [] stop =>
    match stop with
    | .noColon (.ok name) fault =>
      if known.contains name then fail path (.malformed fault)
      else fail path (.unknownVariant name known)
    | .noColon (.error fault) _ => fail path (.malformed fault)
    | .brokenName fault _ => fail path (.malformed fault)
    | .endOfText => fail path (.malformed .endInValue)
    | .noName (.ok found) => fail path (.wrongType found "variant identifier")
    | .noName (.error fault) => fail path (.malformed fault)
    | _ => fail path (.malformed .expectedValue)
  | path, .broken fault _ => fail path (.malformed fault)
  | path, _ => fail path (.malformed .expectedValue)

end Decode

/-- Reads a text that holds one value and nothing else.  Places are not reported. -/
def Json.ofSource (s : Source) : Except SyntaxFault Json :=
  let scan := Document.scanSource s
  match Decode.value [] scan.document with
  | .error ⟨_, .malformed fault⟩ => .error fault
  | .error _ => .error .expectedValue
  | .ok v =>
    match scan.rest with
    | some rest => if (Source.skipBlank rest).isEmpty then .ok v else .error .trailingCharacters
    | none => .error .endInValue

end TypedJson
