import TypedJson.Types.Universe
/-!
# From type expressions to types

`Universe.resolve` turns a type expression into the handle of its type.  An alias
whose body is a union, an object or an intersection names that type: its handle is
reserved before the parts are resolved, so a reference back to the alias finds it.
Any other alias is transparent, that is, another way to write its body; one that
meets itself while it is expanded is left unresolved.

A generic alias can ask for ever larger instances of itself, so there is fuel: the
depth of expressions and expansions within each other.
-/
namespace TypedJson
namespace Universe

open Session

/-- How the parts of an expression are resolved. -/
abbrev Resolver := Scope → TypeExpr → Session TypeId

/-- Makes a handle for an object. -/
def newObject (origin : Option Instance) (shape : Shape) : Session TypeId := do
  let t ← reserve
  update (·.define t (.object origin shape))
  pure t

/-- An argument, or an intrinsic type in its place. -/
def argumentOr (i : Intrinsic) : Option TypeId → Session TypeId
  | some t => pure t
  | none => intern (.intrinsic i)

/-- The record type with these keys and values, the same one every time. -/
def recordType (key value : TypeId) : Session TypeId := do
  let inst : Instance := ⟨.builtin .record, [key, value]⟩
  match ← query (·.instance? inst) with
  | some t => pure t
  | none =>
    let t ← newObject (some inst) (.record key value)
    update (·.record inst t)
    pure t

/-- The type of a builtin: what is left out of its arguments is unknown, but the keys
of a record are strings. -/
def builtinType (b : Builtin) (args : List TypeId) : Session TypeId :=
  match b with
  | .array => do intern (.array (← argumentOr .unknown args[0]?))
  | .date | .pattern => intern (.reference ⟨.builtin b, []⟩)
  | .record => do recordType (← argumentOr .string args[0]?) (← argumentOr .unknown args[1]?)

/-- Reserves the handle of a named type. -/
def reserveInstance (inst : Instance) : Session TypeId := do
  let t ← reserve
  update (·.record inst t)
  pure t

/-- The type of an alias applied to arguments. -/
def expandAlias (self : Resolver) (name : String) (params : List String) (unit : Nat)
    (body : TypeExpr) (inst : Instance) : Session TypeId := do
  match ← query (·.instance? inst) with
  | some t => pure t
  | none =>
    let scope : Scope := ⟨unit, params.zip inst.args⟩
    match body with
    | .union branches =>
      let t ← reserveInstance inst
      let branches ← branches.mapM (self scope)
      update (·.define t (.namedUnion inst branches))
      pure t
    | .object members indexes =>
      let t ← reserveInstance inst
      update (·.define t (.object (some inst) (.literal members indexes scope)))
      pure t
    | .intersection parts =>
      let t ← reserveInstance inst
      let parts ← parts.mapM (self scope)
      update (·.define t (.object (some inst) (.intersection parts)))
      pure t
    | body =>
      if ← query (·.expanding.contains inst) then intern (.unresolved name)
      else
        update fun s => { s with expanding := inst :: s.expanding }
        let t ← self scope body
        update fun s => { s with expanding := s.expanding.drop 1 }
        update (·.record inst t)
        pure t

/-- The declaration applied to arguments: surplus ones are dropped, and its own
parameters stand for missing ones. -/
def instantiate (u : Universe) (self : Resolver) (id : DeclarationId) (args : List TypeId) :
    Session TypeId :=
  match u.declaration? id with
  | none => intern (.reference ⟨.declared id, args⟩)
  | some d => do
    let count := d.typeParams.length
    let given := args.take count
    let missing ← ((List.range count).drop given.length).mapM fun position =>
      intern (.param (.param id position))
    let inst : Instance := ⟨.declared id, given ++ missing⟩
    match d.body with
    | .interface _ _ _ | .enum _ => intern (.reference inst)
    | .typeAlias body => expandAlias self d.name d.typeParams id.unit body inst

/-- What a name means: a type parameter, an intrinsic type, a boolean constant, a
declaration, a builtin, or nothing. -/
def resolveName (u : Universe) (self : Resolver) (scope : Scope) (name : String)
    (args : List TypeExpr) : Session TypeId :=
  match if args.isEmpty then scope.params.find? (·.1 == name) else none with
  | some (_, t) => pure t
  | none =>
    match Intrinsic.ofName? name with
    | some i => intern (.intrinsic i)
    | none =>
      if name = "true" then intern (.literal (.bool true))
      else if name = "false" then intern (.literal (.bool false))
      else do
        let args ← args.mapM (self scope)
        match u.find? name scope.unit with
        | some id => u.instantiate self id args
        | none =>
          match Builtin.ofName? name with
          | some b => builtinType b args
          | none => intern (.unresolved name)

def resolveStep (u : Universe) (self : Resolver) : Resolver := fun scope expr =>
  match expr with
  | .name name => u.resolveName self scope name []
  | .generic name args => u.resolveName self scope name args
  | .array element => do intern (.array (← self scope element))
  | .union branches => do intern (.union (← branches.mapM (self scope)))
  | .intersection parts => do newObject none (.intersection (← parts.mapM (self scope)))
  | .literal value => intern (.literal value)
  | .object members indexes => newObject none (.literal members indexes scope)

/-- The type of an expression in a scope. -/
def resolve (u : Universe) : Nat → Resolver
  | 0 => fun _ _ => outOfFuel
  | fuel + 1 => u.resolveStep (u.resolve fuel)

/-- The type of the declaration of that name, its own parameters left open. -/
def declared? (u : Universe) (fuel : Nat) (name : String) : Session (Option TypeId) :=
  match u.find? name 0 with
  | none => pure none
  | some id => do pure (some (← u.instantiate (u.resolve fuel) id []))

/-- The types of the exported declarations in source order. -/
def exportedTypes (u : Universe) (fuel : Nat) : Session (List TypeId) :=
  (u.declarations.filter (·.2.exported)).mapM fun (id, _) =>
    u.instantiate (u.resolve fuel) id []

end Universe
end TypedJson
