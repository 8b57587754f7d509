import TypedJson.Declaration.Basic
/-!
# Reading declarations from JSON

A document holds a list of units or a single unit.  It is read as a whole first, so
a syntax fault is reported where it stands, while a document of any other form is
only said to be no declaration file.  Records may be written as objects or as lists
of their fields in order; a known field may come only once, an unknown one does not
matter.  The shape of a type expression tells which kind it is, and where several
fit, the first in the order of `TypeExpr` counts.
-/
namespace TypedJson
namespace DeclarationFormat

/-- The value of a field that comes at most once. -/
def field? (members : List (String × Json)) (name : String) : Option (Option Json) :=
  match members.filter (·.1 == name) with
  | [] => some none
  | [(_, j)] => some (some j)
  | _ => none

def objectFields? (names : List String) (members : List (String × Json)) :
    Option (List (Option Json)) :=
  names.mapM (field? members)

def listFields? (names : List String) (items : List Json) : Option (List (Option Json)) :=
  if items.length ≤ names.length then
    some (items.map some ++ List.replicate (names.length - items.length) none)
  else none

/-- The fields of a record, in the order of their names. -/
def fields? (names : List String) : Json → Option (List (Option Json))
  | .object members => objectFields? names members
  | .array items => listFields? names items
  | _ => none

/-! ## Fields -/

def string? : Json → Option String
  | .string s => some s
  | _ => none

def bool? : Json → Option Bool
  | .bool b => some b
  | _ => none

def list? (decode : Json → Option α) : Json → Option (List α)
  | .array items => items.mapM decode
  | _ => none

def line? : Json → Option (Option Nat)
  | .null => some none
  | .number (.int i) => if 0 ≤ i ∧ i < twoTo 32 then some (some i.toNat) else none
  | _ => none

/-- A field that has to be there. -/
def required (decode : Json → Option α) : Option Json → Option α
  | some j => decode j
  | none => none

/-- A field that may be left out. -/
def withDefault (default : α) (decode : Json → Option α) : Option Json → Option α
  | some j => decode j
  | none => some default

/-- `null` is no value. -/
def nullable (decode : Json → Option α) : Json → Option (Option α)
  | .null => some none
  | j => (decode j).map some

/-! ## Type expressions -/

def member? (type? : Json → Option TypeExpr) (j : Json) : Option Member := do
  match ← fields? ["name", "optional", "method", "type"] j with
  | [name, optional, method, type] =>
    let name ← required string? name
    let optional ← withDefault false bool? optional
    let method ← withDefault false bool? method
    let type ← withDefault none (nullable type?) type
    pure { name, optional, method, type }
  | _ => none

def index? (type? : Json → Option TypeExpr) (j : Json) : Option Index := do
  match ← fields? ["key", "value"] j with
  | [key, value] =>
    let key ← required type? key
    let value ← required type? value
    pure { key, value }
  | _ => none

def object? (type? : Json → Option TypeExpr) (j : Json) : Option TypeExpr := do
  match ← fields? ["members", "indexes"] j with
  | [members, indexes] =>
    let members ← withDefault [] (list? (member? type?)) members
    let indexes ← withDefault [] (list? (index? type?)) indexes
    pure (.object members indexes)
  | _ => none

def generic? (type? : Json → Option TypeExpr) (members : List (String × Json)) :
    Option TypeExpr := do
  let name ← required string? (← field? members "ref")
  let args ← withDefault [] (list? type?) (← field? members "args")
  pure (.generic name args)

/-- The kind of type expression that has its part under the name `field`. -/
def single? (members : List (String × Json)) (field : String) (decode : Json → Option TypeExpr) :
    Option TypeExpr := do
  required decode (← field? members field)

/-- A type expression of nesting depth below the fuel. -/
def typeExpr? : Nat → Json → Option TypeExpr
  | 0, _ => none
  | _ + 1, .string s => some (.name s)
  | fuel + 1, .object members =>
    generic? (typeExpr? fuel) members
      <|> single? members "array" (fun j => (typeExpr? fuel j).map .array)
      <|> single? members "union" (fun j => (list? (typeExpr? fuel) j).map .union)
      <|> single? members "intersection" (fun j => (list? (typeExpr? fuel) j).map .intersection)
      <|> single? members "literal" (fun j => (Literal.ofJson? j).map .literal)
      <|> single? members "object" (object? (typeExpr? fuel))
  | _ + 1, _ => none

def type? (j : Json) : Option TypeExpr := typeExpr? (j.depth + 1) j

/-! ## Declarations -/

inductive Kind
  | interface
  | typeAlias
  | enum

/-- The kind that a tag names, by its word or its number. -/
def kind? : Json → Option Kind
  | .string "interface" | .number (.int 0) => some .interface
  | .string "alias" | .number (.int 1) => some .typeAlias
  | .string "enum" | .number (.int 2) => some .enum
  | _ => none

def enumMember? (j : Json) : Option EnumMember := do
  match ← fields? ["name", "value"] j with
  | [name, value] =>
    let name ← required string? name
    let value ← withDefault none (nullable Literal.ofJson?) value
    pure { name, value }
  | _ => none

/-- A declaration of the given kind without its tag. -/
def ofKind? (kind : Kind) (j : Json) : Option Declaration :=
  match kind with
  | .interface => do
    match ← fields? ["name", "exported", "line", "typeParams", "extends", "members", "indexes"] j with
    | [name, exported, line, typeParams, bases, members, indexes] =>
      let name ← required string? name
      let exported ← withDefault true bool? exported
      let line ← withDefault none line? line
      let typeParams ← withDefault [] (list? string?) typeParams
      let bases ← withDefault [] (list? type?) bases
      let members ← withDefault [] (list? (member? type?)) members
      let indexes ← withDefault [] (list? (index? type?)) indexes
      pure { name, exported, line, typeParams, body := .interface bases members indexes }
    | _ => none
  | .typeAlias => do
    match ← fields? ["name", "exported", "line", "typeParams", "type"] j with
    | [name, exported, line, typeParams, type] =>
      let name ← required string? name
      let exported ← withDefault true bool? exported
      let line ← withDefault none line? line
      let typeParams ← withDefault [] (list? string?) typeParams
      let type ← required type? type
      pure { name, exported, line, typeParams, body := .typeAlias type }
    | _ => none
  | .enum => do
    match ← fields? ["name", "exported", "line", "members"] j with
    | [name, exported, line, members] =>
      let name ← required string? name
      let exported ← withDefault true bool? exported
      let line ← withDefault none line? line
      let members ← withDefault [] (list? enumMember?) members
      pure { name, exported, line, typeParams := [], body := .enum members }
    | _ => none

/-- A declaration: its tag is the member `kind` of an object, wherever it stands, or
the first item of a list. -/
def declaration? : Json → Option Declaration
  | .object members => do
    let kind ← required kind? (← field? members "kind")
    ofKind? kind (.object (members.filter (·.1 != "kind")))
  | .array (tag :: rest) => do
    let kind ← kind? tag
    ofKind? kind (.array rest)
  | _ => none

def unit? (j : Json) : Option SourceUnit := do
  match ← fields? ["file", "declarations"] j with
  | [file, declarations] =>
    let file ← required string? file
    let declarations ← withDefault [] (list? declaration?) declarations
    pure { file, declarations }
  | _ => none

/-- The units of a file: a list of units, or else one unit. -/
def file? (j : Json) : Option (List SourceUnit) :=
  list? unit? j <|> (unit? j).map ([·])

end DeclarationFormat

/-- The decoder of a declaration file. -/
def SourceUnit.decodeFile : Decoder (List SourceUnit) := fun path d => do
  let j ← Decode.tree path d
  match DeclarationFormat.file? j with
  | some units => pure units
  | none => Decode.fail path (.noVariant "DeclarationFile")

end TypedJson
