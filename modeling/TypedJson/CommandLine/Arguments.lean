import TypedJson.CommandLine.Command
/-!
# Reading the arguments of a command line

Options are read from left to right against a table.  An option that takes values stays
pending until the next known option or the end: only then are its values looked at, so
an unknown argument behind it is the first fault.  What was given is checked for
conflicts before it is checked for gaps.
-/
namespace TypedJson
namespace CommandLine

inductive Arity
  | help
  | version
  | flag
  | one
  /-- At least one value, and as many as follow. -/
  | many
  deriving DecidableEq

/-- What the values of an option have to be. -/
inductive ValueForm
  | text
  | path
  | choice (names : List String)

def ValueForm.accepts : ValueForm → String → Bool
  | .text, _ => true
  | .path, v => !v.isEmpty
  | .choice names, v => names.contains v

structure OptionRule where
  name : String
  letter? : Option Char
  arity : Arity
  form : ValueForm

namespace OptionRule

def helpRule : OptionRule := ⟨"help", some 'h', .help, .text⟩

def root : List OptionRule := [helpRule, ⟨"version", some 'V', .version, .text⟩]

def out : OptionRule := ⟨"out", some 'o', .one, .path⟩

def dryRun : OptionRule := ⟨"no-op", none, .flag, .text⟩

def declarations : OptionRule := ⟨"decl", none, .many, .text⟩

def schemaCommand : List OptionRule := [helpRule, declarations, out, dryRun]

def severityNames : List String := [Severity.hint, .warning, .error].map (·.name)

def formatNames : List String := ["text", "json"]

def validateCommand : List OptionRule :=
  [helpRule, declarations, ⟨"schema", none, .one, .path⟩, ⟨"type", some 't', .one, .text⟩,
   ⟨"ndjson", none, .flag, .text⟩, ⟨"json-pointer", none, .one, .text⟩,
   ⟨"jq-expr", none, .one, .text⟩, ⟨"input", some 'i', .many, .text⟩,
   ⟨"min-severity", none, .one, .choice severityNames⟩,
   ⟨"format", none, .one, .choice formatNames⟩, out, dryRun]

end OptionRule

/-- The options given so far with their values, in reverse order. -/
abbrev Given := List (String × List String)

/-- An option that waits for its values. -/
structure Pending where
  rule : OptionRule
  values : List String
  /-- Whether another value may follow. -/
  isOpen : Bool

structure ReadState where
  given : Given
  pending? : Option Pending

def Given.has (given : Given) (name : String) : Bool := given.any (·.1 == name)

/-- All values of an option in the order in which they were given. -/
def Given.values (given : Given) (name : String) : List String :=
  (given.reverse.filter (·.1 == name)).flatMap (·.2)

def Given.value? (given : Given) (name : String) : Option String := (given.values name).head?

/-- Records an option with its values.  Only those with many values may be repeated. -/
def Given.add (given : Given) (rule : OptionRule) (values : List String) :
    Except UsageFault Given :=
  if values.isEmpty && (rule.arity == .one || rule.arity == .many) then .error .invalidValue
  else if rule.arity != .many && given.has rule.name then .error .conflict
  else if values.all rule.form.accepts then .ok ((rule.name, values) :: given)
  else .error .invalidValue

namespace ReadState

def start : ReadState := ⟨[], none⟩

/-- Records the pending option. -/
def settle (s : ReadState) : Except UsageFault Given :=
  match s.pending? with
  | none => .ok s.given
  | some p => s.given.add p.rule p.values

/-- Takes up an option, with the value that is attached to it. -/
def take (s : ReadState) (rule : OptionRule) (attached? : Option String) :
    Except UsageFault ReadState := do
  let given ← s.settle
  match rule.arity, attached? with
  | .help, _ => .error .help
  | .version, _ => .error .version
  | .flag, _ => pure ⟨← given.add rule [], none⟩
  | _, some value => pure ⟨← given.add rule [value], none⟩
  | _, none => pure ⟨given, some ⟨rule, [], true⟩⟩

def takesValue (rule : OptionRule) : Bool := rule.arity == .one || rule.arity == .many

/-- An option by its name, behind two dashes. -/
def long (rules : List OptionRule) (s : ReadState) (arg : List Char) : Except UsageFault ReadState :=
  let name := String.ofList (arg.takeWhile (· != '='))
  let attached? := match arg.dropWhile (· != '=') with
    | _ :: value => some (String.ofList value)
    | [] => none
  match rules.find? (·.name == name) with
  | none => .error .unknownArgument
  | some rule =>
    if attached?.isSome && !takesValue rule then .error .tooManyValues
    else s.take rule attached?

/-- Options by their letters, behind one dash; the rest after one that takes a value is
that value. -/
def short (rules : List OptionRule) : ReadState → List Char → Except UsageFault ReadState
  | s, [] => .ok s
  | s, letter :: rest =>
    match rules.find? (·.letter? == some letter) with
    | none => .error .unknownArgument
    | some rule =>
      if takesValue rule then
        let value? := match rest with
          | [] => none
          | '=' :: value => some (String.ofList value)
          | value => some (String.ofList value)
        s.take rule value?
      else do short rules (← s.take rule none) rest

/-- A value of the pending option. -/
def value (s : ReadState) (v : String) : Except UsageFault ReadState :=
  match s.pending? with
  | some p =>
    if p.isOpen then .ok { s with pending? := some ⟨p.rule, p.values ++ [v], p.rule.arity == .many⟩ }
    else .error .unknownArgument
  | none => .error .unknownArgument

end ReadState

/-- Reads options and their values; nothing may stand behind a lone double dash. -/
def readOptions (rules : List OptionRule) : ReadState → List String → Except UsageFault Given
  | s, [] => s.settle
  | s, arg :: rest =>
    match arg.toList with
    | ['-', '-'] => if rest.isEmpty then s.settle else .error .unknownArgument
    | '-' :: '-' :: name => do readOptions rules (← s.long rules name) rest
    | '-' :: letter :: more => do readOptions rules (← ReadState.short rules s (letter :: more)) rest
    | _ => do readOptions rules (← s.value arg) rest

namespace Given

def require (present : Bool) : Except UsageFault Unit :=
  if present then .ok () else .error .missingArgument

def toSchemaCommand (g : Given) : Except UsageFault SchemaCommand := do
  require (g.has "decl")
  pure { declarations := g.values "decl", out? := g.value? "out", dryRun := g.has "no-op" }

def severity (g : Given) : Severity :=
  match g.value? "min-severity" with
  | some "error" => .error
  | some "warning" => .warning
  | _ => .hint

def toValidateCommand (g : Given) : Except UsageFault ValidateCommand := do
  if g.has "decl" && g.has "schema" then throw .conflict
  let source := match g.value? "schema" with
    | some path => SchemaSource.prebuilt path
    | none => .declarations (g.values "decl")
  require (g.has "decl" || g.has "schema")
  require (g.has "type")
  require (g.has "input")
  pure {
    source
    typeName := (g.value? "type").getD ""
    inputs := g.values "input"
    settings := {
      byLine := g.has "ndjson"
      pointer? := g.value? "json-pointer"
      filter? := g.value? "jq-expr" }
    least := g.severity
    format := if g.value? "format" = some "json" then .json else .text
    out? := g.value? "out"
    dryRun := g.has "no-op" }

end Given

def subcommandNames : List String := ["schema", "validate", "help"]

/-- The arguments of `help` name at most one subcommand. -/
def helpFault : List String → UsageFault
  | [] => .help
  | [name] => if subcommandNames.contains name then .help else .invalidSubcommand
  | _ => .invalidSubcommand

/-- What the first argument is if it is no subcommand. -/
def rootFault (arg : String) (rest : List String) : UsageFault :=
  match arg.toList with
  | ['-', '-'] =>
    match rest with
    | [] => .helpForNothing
    | next :: _ => if subcommandNames.contains next then .unknownArgument else .invalidSubcommand
  | '-' :: '-' :: name =>
    match ReadState.start.long OptionRule.root name with
    | .error fault => fault
    | .ok _ => .helpForNothing
  | '-' :: letter :: more =>
    match ReadState.short OptionRule.root .start (letter :: more) with
    | .error fault => fault
    | .ok _ => .helpForNothing
  | _ => .invalidSubcommand

/-- The command that arguments ask for. -/
def Command.ofArguments : List String → Except UsageFault Command
  | [] => .error .helpForNothing
  | "schema" :: rest => do
    let given ← readOptions OptionRule.schemaCommand .start rest
    pure (.schema (← given.toSchemaCommand))
  | "validate" :: rest => do
    let given ← readOptions OptionRule.validateCommand .start rest
    pure (.validate (← given.toValidateCommand))
  | "help" :: rest => .error (helpFault rest)
  | arg :: rest => .error (rootFault arg rest)

end CommandLine
end TypedJson
