import Mathlib.Logic.Relation
import TypedJson.Proofs.Session
import TypedJson.Proofs.Growth
import TypedJson.Schema.Building
/-!
# Passes with their calls

A pass over the types calls itself for the parts of a type, so most of its calls are made
while others are still under way.  To speak about all of them, the step of the pass is
run in a monad that notes every state it leaves behind and every call it has answered
(`Traced`).  The notes change nothing: without them the traced pass is the pass
(`tracedNode_erases`).

`Universe.Pass` holds of what can become of one table of nodes: types are built in any
order, and between two builds anything may be asked of the types.

A call cannot be found in the state that a pass leaves behind, since the node of a type is
known only by whoever asked for it.  So the trace is where the calls are kept, and with each
of them the states before and after, as a claim about a call may be about any moment in
between.
-/
namespace TypedJson

/-- One call for the node of a type, with the states before and after it. -/
structure Call where
  type : TypeId
  before : BuildState
  id : NodeId
  after : BuildState

namespace Call

/-- The call has made its node. -/
def IsFresh (c : Call) : Prop := c.before.nodes.size ≤ c.id.index

end Call

/-- The state of a pass, the states before it, and the calls that have been answered,
latest first. -/
structure Trace where
  state : BuildState
  past : List BuildState
  calls : List Call

namespace Trace

def types (t : Trace) : Interner := t.state.types

def nodes (t : Trace) : Array SchemaNode := t.state.nodes

def entries (t : Trace) : Array (TypeKey × NodeId) := t.state.keys.entries

/-- The trace with a next state. -/
def moveTo (t : Trace) (s : BuildState) : Trace := ⟨s, t.state :: t.past, t.calls⟩

/-- The trace with one more call. -/
def note (t : Trace) (c : Call) : Trace := { t with calls := c :: t.calls }

/-- The trace after something was asked of the types. -/
def withTypes (t : Trace) (types : Interner) : Trace := t.moveTo { t.state with types }

end Trace

abbrev Traced := StateT Trace Option

namespace Traced

/-- A step of the pass that leaves its state behind. -/
def ofBuild (m : Build α) : Traced α := fun t =>
  match m t.state with
  | some (a, s) => some (a, t.moveTo s)
  | none => none

instance : MonadLiftT Build Traced := ⟨ofBuild⟩

/-- A call that is noted once it is answered. -/
def noted (type : TypeId) (m : Traced NodeId) : Traced NodeId := fun before =>
  match m before with
  | some (id, after) => some (id, after.note ⟨type, before.state, id, after.state⟩)
  | none => none

end Traced

namespace Universe

/-- The node of a type, with a note of every call. -/
def tracedNode (u : Universe) : Nat → TypeId → Traced NodeId
  | 0, _ => fun _ => none
  | fuel + 1, t => Traced.noted t (u.buildStep fuel (u.tracedNode fuel) t)

def tracedNodes (u : Universe) (fuel : Nat) (ts : List TypeId) : Traced (List NodeId) :=
  ts.mapM (u.tracedNode fuel)

/-- The trace of the pass that makes the schema of the exported declarations. -/
def tracedSchema? (u : Universe) (fuel : Nat) : Option Trace := do
  let (exported, types) ← u.exportedTypes fuel u.start
  let (_, trace) ← u.tracedNodes fuel exported ⟨.start types, [], []⟩
  pure trace

/-- The trace of that pass if other things were asked of the types before. -/
def tracedSchemaFrom? (u : Universe) (fuel : Nat) (types : Interner) : Option Trace := do
  let (exported, types) ← u.exportedTypes fuel types
  let (_, trace) ← u.tracedNodes fuel exported ⟨.start types, [], []⟩
  pure trace

theorem tracedSchema?_eq (u : Universe) (fuel : Nat) :
    u.tracedSchema? fuel = u.tracedSchemaFrom? fuel u.start := rfl

/-- Something is asked of the types. -/
inductive Asks (u : Universe) (s s' : Interner) : Prop
  | declared {fuel : Nat} {name : String} {found : Option TypeId}
      (run : u.declared? fuel name s = some (found, s'))
  | exported {fuel : Nat} {ts : List TypeId} (run : u.exportedTypes fuel s = some (ts, s'))
  | members {fuel : Nat} {t : TypeId} {ms : List TypeMember} (ht : s.Has t)
      (run : u.members fuel t s = some (ms, s'))
  | indexes {fuel : Nat} {t : TypeId} {is : List TypeIndex} (ht : s.Has t)
      (run : u.indexes fuel t s = some (is, s'))
  | display {fuel : Nat} {t : TypeId} {text : String} (ht : s.Has t)
      (run : u.display fuel t s = some (text, s'))
  | key {fuel : Nat} {ts : List TypeId} {key : TypeKey} (hts : ∀ t ∈ ts, s.Has t)
      (run : u.keyOfBranches fuel ts s = some (key, s'))

/-- The second table may come of the first by questions. -/
def Reaches (u : Universe) : Interner → Interner → Prop := Relation.ReflTransGen u.Asks

/-- What can become of one table of nodes. -/
inductive Pass (u : Universe) : Trace → Prop
  | start {types : Interner} (h : u.Reaches u.start types) : Pass u ⟨.start types, [], []⟩
  | ask {trace : Trace} {types : Interner} (h : Pass u trace)
      (asked : u.Reaches trace.types types) : Pass u (trace.withTypes types)
  | build {trace trace' : Trace} {fuel : Nat} {t : TypeId} {id : NodeId} (h : Pass u trace)
      (ht : trace.types.Has t) (run : u.tracedNode fuel t trace = some (id, trace')) :
      Pass u trace'

end Universe

/-! ## Walks over a step

The parts of a node are described in any monad that has the pass within it, by questions and by
calls in turn.  So what holds of questions and calls, and is kept when computations follow one
another, holds of the description as a whole. -/

/-- The relation between computations of the monad and passes holds of questions and is kept by
computations in turn. -/
structure Congruence (M : Type → Type) [Monad M] [MonadLiftT Build M]
    (R : ∀ {α : Type}, M α → Build α → Prop) : Prop where
  pure {α : Type} (a : α) : R (Pure.pure a) (Pure.pure a)
  bind {α β : Type} {m : M α} {m' : Build α} {f : α → M β} {f' : α → Build β} (hm : R m m')
    (hf : ∀ a, R (f a) (f' a)) : R (m >>= f) (m' >>= f')
  ask {α : Type} (m : Session α) : R (monadLift (Build.ask m)) (monadLift (Build.ask m))

namespace Congruence

variable {M : Type → Type} [Monad M] [MonadLiftT Build M] [LawfulMonad M]
  {R : ∀ {α : Type}, M α → Build α → Prop} {α β : Type}

theorem map (hR : Congruence M R) {m : M α} {m' : Build α} (f : α → β) (hm : R m m') :
    R (f <$> m) (f <$> m') := by
  rw [map_eq_pure_bind, map_eq_pure_bind]
  exact hR.bind hm fun a => hR.pure (f a)

theorem mapM (hR : Congruence M R) {f : α → M β} {f' : α → Build β}
    (hf : ∀ a, R (f a) (f' a)) : ∀ as : List α, R (as.mapM f) (as.mapM f')
  | [] => by
    rw [List.mapM_nil, List.mapM_nil]
    exact hR.pure []
  | a :: as => by
    rw [List.mapM_cons, List.mapM_cons]
    exact hR.bind (hf a) fun b => hR.bind (hR.mapM hf as) fun bs => hR.pure (b :: bs)

variable {u : Universe} {self : TypeId → M NodeId} {self' : TypeId → Build NodeId}

theorem describeMembers (hR : Congruence M R) (hself : ∀ t, R (self t) (self' t)) (fuel : Nat)
    (t : TypeId) (n : SchemaNode) :
    R (u.describeMembers fuel self t n) (u.describeMembers fuel self' t n) := by
  refine hR.bind (hR.ask _) fun ms => ?_
  refine hR.bind (hR.mapM (fun (m, type) => hR.bind (hself type) fun id => hR.pure _) _)
    fun properties => ?_
  refine hR.bind (hR.ask _) fun is => ?_
  refine hR.bind (hR.mapM (fun x => ?_) is) fun indexes => hR.pure _
  exact hR.bind (hself x.key) fun key => hR.bind (hself x.value) fun value => hR.pure _

theorem describeDeclared (hR : Congruence M R) (hself : ∀ t, R (self t) (self' t)) (fuel : Nat)
    (s : Interner) (t : TypeId) (n : SchemaNode) (origin : Option Origin) :
    R (u.describeDeclared fuel self s t n origin) (u.describeDeclared fuel self' s t n origin) := by
  cases origin with
  | none => exact hR.pure n
  | some origin =>
    unfold Universe.describeDeclared
    dsimp only
    split
    · exact hR.describeMembers hself fuel t _
    · exact hR.pure _

theorem describe (hR : Congruence M R) (hself : ∀ t, R (self t) (self' t)) (fuel : Nat)
    (t : TypeId) (leaves : List TypeId) :
    R (u.describe fuel self t leaves) (u.describe fuel self' t leaves) := by
  refine hR.bind (hR.ask _) fun displayName => ?_
  refine hR.bind (hR.ask _) fun s => ?_
  refine hR.bind ?_ fun unionOf => ?_
  · unfold Universe.unionNodes
    by_cases h : Universe.realLeaves s leaves = [t]
    · rw [if_pos h, if_pos h]
      exact hR.pure []
    · rw [if_neg h, if_neg h]
      exact hR.mapM hself _
  refine hR.bind ?_ fun arrayOf => ?_
  · cases s.element? t with
    | none => exact hR.pure none
    | some element => exact hR.map some (hself element)
  refine hR.bind (hR.ask _) fun s => ?_
  refine hR.bind (hR.describeDeclared hself fuel s t _ _) fun n => ?_
  exact hR.bind (hR.ask _) fun nullable => hR.pure _

end Congruence

/-! ## Erasure

`Projects` compares a computation on a larger state with one on the state of the pass, by a
view of the one as the other.  It holds of questions and is kept by calls in turn, so it is a
congruence, and the description of a node needs no further look. -/

/-- The computation on the larger state is the pass, looked at through the view. -/
def Projects {σ α : Type} (view : σ → BuildState) (m : StateT σ Option α) (m' : Build α) : Prop :=
  ∀ s, (m s).map (fun r => (r.1, view r.2)) = m' (view s)

namespace Projects

variable {σ α β : Type} {view : σ → BuildState}

theorem pure (a : α) : Projects view (Pure.pure a) (Pure.pure a) := fun _ => rfl

theorem bind {m : StateT σ Option α} {m' : Build α} {f : α → StateT σ Option β}
    {f' : α → Build β} (hm : Projects view m m') (hf : ∀ a, Projects view (f a) (f' a)) :
    Projects view (m >>= f) (m' >>= f') := by
  intro s
  have hrun := hm s
  show ((m s).bind fun p => f p.1 p.2).map (fun r => (r.1, view r.2)) =
    (m' (view s)).bind fun p => f' p.1 p.2
  rw [← hrun]
  cases m s with
  | none => rfl
  | some r => exact hf r.1 r.2

theorem congruence [MonadLiftT Build (StateT σ Option)]
    (hask : ∀ {α : Type} (m : Session α), Projects view
      (monadLift (Build.ask m) : StateT σ Option α) (monadLift (Build.ask m))) :
    Congruence (StateT σ Option) (Projects view) := ⟨pure, bind, hask⟩

theorem exists_run {m : StateT σ Option α} {m' : Build α} (h : Projects view m m') {s : σ} {a : α}
    {st : BuildState} (hrun : m' (view s) = some (a, st)) :
    ∃ s', m s = some (a, s') ∧ view s' = st := by
  rw [← h s] at hrun
  obtain ⟨⟨b, s'⟩, hm, heq⟩ := Option.map_eq_some_iff.1 hrun
  cases heq
  exact ⟨s', hm, rfl⟩

end Projects

/-- Without its notes the traced computation is the other one. -/
def Erases (m : Traced α) (m' : Build α) : Prop :=
  ∀ t : Trace, (m t).map (fun r => (r.1, r.2.state)) = m' t.state

namespace Erases

variable {α β : Type}

theorem ofBuild (m : Build α) : Erases (monadLift m : Traced α) (monadLift m : Build α) := by
  intro t
  show ((Traced.ofBuild m t).map fun r => (r.1, r.2.state)) = m t.state
  unfold Traced.ofBuild
  cases m t.state with
  | none => rfl
  | some r => rfl

theorem congruence : Congruence Traced Erases := Projects.congruence fun m => ofBuild (Build.ask m)

theorem bind {m : Traced α} {m' : Build α} {f : α → Traced β} {f' : α → Build β}
    (hm : Erases m m') (hf : ∀ a, Erases (f a) (f' a)) : Erases (m >>= f) (m' >>= f') :=
  congruence.bind hm hf

theorem mapM {f : α → Traced β} {f' : α → Build β} (hf : ∀ a, Erases (f a) (f' a))
    (as : List α) : Erases (as.mapM f) (as.mapM f') := congruence.mapM hf as

theorem noted {m : Traced NodeId} {m' : Build NodeId} (hm : Erases m m') (t : TypeId) :
    Erases (Traced.noted t m) m' := by
  intro trace
  rw [← hm trace]
  unfold Traced.noted
  cases m trace with
  | none => rfl
  | some r => rfl

end Erases

namespace Universe

variable {u : Universe} {self : TypeId → Traced NodeId} {self' : TypeId → Build NodeId}

theorem buildStep_erases (hself : ∀ t, Erases (self t) (self' t)) (fuel : Nat) (t : TypeId) :
    Erases (u.buildStep fuel self t) (u.buildStep fuel self' t) := by
  refine .bind (.ofBuild _) fun leaves => ?_
  refine .bind (.ofBuild _) fun key => ?_
  refine .bind (.ofBuild _) fun known => ?_
  cases known with
  | some id => exact Erases.congruence.pure id
  | none =>
    refine .bind (.ofBuild _) fun id => ?_
    refine .bind (Erases.congruence.describe hself fuel t leaves) fun n => ?_
    exact .bind (.ofBuild _) fun _ => Erases.congruence.pure id

/-- **Without its notes the traced pass is the pass.** -/
theorem tracedNode_erases (u : Universe) : ∀ (fuel : Nat) (t : TypeId),
    Erases (u.tracedNode fuel t) (u.buildNode fuel t)
  | 0, _ => fun _ => rfl
  | fuel + 1, t => .noted (buildStep_erases (tracedNode_erases u fuel) fuel t) t

theorem schemaFrom?_eq (u : Universe) (fuel : Nat) (types : Interner) :
    u.schemaFrom? fuel types =
      (u.tracedSchemaFrom? fuel types).map fun trace => Schema.ofNodes trace.nodes := by
  unfold schemaFrom? tracedSchemaFrom?
  cases u.exportedTypes fuel types with
  | none => rfl
  | some r =>
    obtain ⟨exported, types⟩ := r
    have herases : Erases (u.tracedNodes fuel exported) (u.buildNodes fuel exported) :=
      .mapM (tracedNode_erases u fuel) exported
    have hrun : (u.tracedNodes fuel exported ⟨.start types, [], []⟩).map
        (fun r => (r.1, r.2.state)) = u.buildNodes fuel exported (.start types) :=
      herases ⟨.start types, [], []⟩
    simp only [Option.bind_eq_bind, Option.bind_some, ← hrun]
    cases u.tracedNodes fuel exported ⟨.start types, [], []⟩ with
    | none => rfl
    | some r => rfl

theorem schema?_eq (u : Universe) (fuel : Nat) :
    u.schema? fuel = (u.tracedSchema? fuel).map fun trace => Schema.ofNodes trace.nodes :=
  schemaFrom?_eq u fuel u.start

end Universe
end TypedJson
