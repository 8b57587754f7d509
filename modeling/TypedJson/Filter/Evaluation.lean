import TypedJson.Filter.Operation
/-!
# Running a filter

`Filter.run` gives the stream of outcomes for one value.  A failure stands in the
stream in the place of an output and does not end it; only what gathers the stream
into one value (an array, a sum) fails as a whole.  Where two streams combine, every
output on the left meets every output on the right before the left goes on.
-/
namespace TypedJson
namespace Filter

abbrev Stream (α : Type) := List (Outcome α)

/-- Goes on with every output; failures stay where they are. -/
def Stream.andThen (s : Stream α) (f : α → Stream β) : Stream β :=
  s.flatMap fun
    | .ok a => f a
    | .error e => [.error e]

/-- All outputs, unless one of them is a failure: then the first failure. -/
def Stream.gather : Stream α → Outcome (List α)
  | [] => .ok []
  | .error e :: _ => .error e
  | .ok a :: rest => (gather rest).map (a :: ·)

/-- Every output of the one with every output of the other; a failure on the left
too is met by every output on the right. -/
def Stream.pairs (s : Stream α) (t : Stream β) (f : α → β → Outcome γ) : Stream γ :=
  s.flatMap fun a => t.map fun b => do f (← a) (← b)

def isSuccess : Outcome α → Bool
  | .ok _ => true
  | .error _ => false

/-- A step of a path whose expressions have been evaluated. -/
inductive Place
  | each
  | index (key : Value)
  | slice (start stop : Option Value)

def Place.select (p : Place) (v : Value) : Stream Value :=
  match p with
  | .each => match v.items? with | .ok items => items.map .ok | .error e => [.error e]
  | .index key => [v.index key]
  | .slice start stop => [v.slice start stop]

/-- Walks down a path; an optional step yields nothing where it fails. -/
def follow : List (Place × Bool) → Value → Stream Value
  | [], v => [.ok v]
  | (p, optional) :: rest, v =>
    let found := p.select v
    Stream.andThen (if optional then found.filter isSuccess else found) (follow rest)

/-- The outputs of the left side that count; those of the right side if there are none. -/
def orElse (s t : Stream Value) : Stream Value :=
  let kept := s.filter fun
    | .ok v => v.isTruthy
    | .error _ => true
  if kept.isEmpty then t else kept

def sumOf (items : List Value) : Outcome Value :=
  items.foldlM (fun total v => Value.calculate .add total v) .null

mutual

def run : Filter → Value → Stream Value
  | .identity, v => [.ok v]
  | .nothing, _ => []
  | .constant c, _ => [.ok c]
  | .apply f, v => [v.applied f]
  | .collect items, v => [(Stream.gather (run items v)).map .array]
  | .member name value, v => Stream.pairs (run name v) (run value v) Value.single
  | .negate operand, v => Stream.andThen (run operand v) fun w => [w.negate]
  | .pipe f g, v => Stream.andThen (run f v) (run g)
  | .both f g, v => run f v ++ run g v
  | .arithmetic op left right, v => Stream.pairs (run left v) (run right v) (Value.calculate op)
  | .comparison op left right, v =>
    Stream.pairs (run left v) (run right v) fun a b => .ok (.bool (op.holds (a.compare b)))
  | .logic decisive left right, v =>
    Stream.andThen (run left v) fun a =>
      if a.isTruthy == decisive then [.ok (.bool decisive)]
      else Stream.andThen (run right v) fun b => [.ok (.bool b.isTruthy)]
  | .alternative left right, v => orElse (run left v) (run right v)
  | .conditional condition yes no, v =>
    Stream.andThen (run condition v) fun c => if c.isTruthy then run yes v else run no v
  | .attempt body, v => (run body v).filter isSuccess
  | .path root steps, v =>
    Stream.andThen (run root v) fun w =>
      Stream.andThen (places steps v) fun path => follow path w
  | .sum items, v => [Stream.gather (run items v) >>= sumOf]
  | .first items, v => (run items v).take 1
  | .has key, v => Stream.andThen (run key v) fun k => [(v.has k).map .bool]
  | .range start stop step, v =>
    Stream.andThen (run start v) fun a => Stream.andThen (run stop v) fun b =>
      Stream.andThen (run step v) fun s => Value.range a b s

/-- The paths that the expressions in the steps give, all of them evaluated on the value
that the whole path starts from. -/
def places : List FilterStep → Value → Stream (List (Place × Bool))
  | [], _ => [.ok []]
  | s :: rest, v =>
    Stream.andThen (place s v) fun p =>
      (places rest v).map fun path => path.map (p :: ·)

def place : FilterStep → Value → Stream (Place × Bool)
  | .each optional, _ => [.ok (.each, optional)]
  | .index key optional, v => Stream.andThen (run key v) fun k => [.ok (.index k, optional)]
  | .slice start stop optional, v =>
    Stream.andThen (bound start v) fun a =>
      Stream.andThen (bound stop v) fun b => [.ok (.slice a b, optional)]

def bound : Option Filter → Value → Stream (Option Value)
  | none, _ => [.ok none]
  | some f, v => (run f v).map fun r => r.map some

end

/-- The outputs up to the first failure, and that failure with its place in the stream. -/
def outputs (f : Filter) (input : Json) : Except (Nat × Failure) (List Json) :=
  let rec collect (n : Nat) : Stream Value → Except (Nat × Failure) (List Json)
    | [] => .ok []
    | .ok v :: rest => (collect (n + 1) rest).map (v.toJson :: ·)
    | .error e :: _ => .error (n, e)
  collect 0 (f.run (.ofJson input))

end Filter
end TypedJson
