import TypedJson.Proofs.Faithfulness
import TypedJson.Proofs.Regrouping
/-!
# Every node is written once

A pass gives out a number for a node before it knows what the node says, and puts the node in its
place when its parts are built.  To speak about these two events, the pass is run with a ledger of
them (`Ledger`).  All that reaches the nodes is noted there, since what the rest of a step might do
to them is thrown away (`Logged.asked`), and yet nothing is missing: without the ledger the logged
pass is the pass (`loggedNode_projects`).

The ledger of a call has exactly two entries for each node that was added, its number and the
finished node, and none for any node that was there before (`Ledger.Appends`).  Together with what
is known of the nodes and keys of a pass, that is what a call does to the state
(`Pass.call_appends`).

That a node is not written twice cannot be read off the states of a pass, since writing the
same node again leaves no trace.  So the ledger counts the events themselves.  It is complete
by construction: the monad of the logged pass has no other access to the nodes than the two
that are entered.
-/
namespace TypedJson

/-- What is done to the nodes: a number is given out, or a node is put in its place. -/
inductive NodeEvent
  | allocated (id : NodeId)
  | written (id : NodeId) (n : SchemaNode)

namespace NodeEvent

/-- The number of the node that it is done to. -/
def node : NodeEvent → NodeId
  | .allocated id => id
  | .written id _ => id

/-- The nodes after the event. -/
def apply (nodes : Array SchemaNode) : NodeEvent → Array SchemaNode
  | .allocated _ => nodes.push .placeholder
  | .written id n => nodes.setIfInBounds id.index n

/-- The nodes after several events, of which the latest comes first. -/
def replay (events : List NodeEvent) (nodes : Array SchemaNode) : Array SchemaNode :=
  events.foldr (fun e nodes => e.apply nodes) nodes

def about (id : NodeId) (events : List NodeEvent) : List NodeEvent :=
  events.filter fun e => decide (e.node = id)

end NodeEvent

open NodeEvent

/-- The state of a pass with what was done to its nodes, latest first. -/
structure Ledger where
  state : BuildState
  events : List NodeEvent

abbrev Logged := StateT Ledger Option

namespace Logged

/-- A question within the pass: of what it does, only what it adds to the types is kept. -/
def asked (m : Build α) : Logged α := fun l =>
  match m l.state with
  | some (a, s) => some (a, ⟨{ l.state with types := s.types }, l.events⟩)
  | none => none

instance : MonadLiftT Build Logged := ⟨asked⟩

/-- A step of the pass that is entered in the ledger. -/
def entered (m : Build α) (event : α → NodeEvent) : Logged α := fun l =>
  match m l.state with
  | some (a, s) => some (a, ⟨s, event a :: l.events⟩)
  | none => none

end Logged

namespace Universe

open Build Logged

def loggedStep (u : Universe) (fuel : Nat) (self : TypeId → Logged NodeId) (t : TypeId) :
    Logged NodeId := do
  let leaves ← ask (Session.query (u.leaves · t))
  let key ← ask (u.keyOfBranches fuel leaves)
  match ← known? key with
  | some id => pure id
  | none =>
    let id ← entered (allocate key) .allocated
    let n ← u.describe fuel self t leaves
    entered (finishNode id n) fun _ => .written id n
    pure id

/-- The node of a type, with a ledger of what is done to the nodes. -/
def loggedNode (u : Universe) : Nat → TypeId → Logged NodeId
  | 0, _ => fun _ => none
  | fuel + 1, t => u.loggedStep fuel (u.loggedNode fuel) t

end Universe

/-! ## Without the ledger

The logged pass runs the steps of the pass; taking away the ledger commutes with each of
them, as taking away the notes did for traces. -/

theorem projects_asked {α : Type} (m : Session α) :
    Projects Ledger.state (monadLift (Build.ask m) : Logged α) (monadLift (Build.ask m)) := by
  intro l
  show (Logged.asked (Build.ask m) l).map _ = Build.ask m l.state
  unfold Logged.asked Build.ask
  cases m l.state.types with
  | none => rfl
  | some r => rfl

theorem projects_known (key : TypeKey) :
    Projects Ledger.state (monadLift (Build.known? key) : Logged _)
      (monadLift (Build.known? key)) :=
  fun _ => rfl

theorem projects_entered {α : Type} (m : Build α) (event : α → NodeEvent) :
    Projects Ledger.state (Logged.entered m event) m := by
  intro l
  unfold Logged.entered
  cases m l.state with
  | none => rfl
  | some r => rfl

namespace Universe

variable {u : Universe}

theorem loggedStep_projects {self : TypeId → Logged NodeId} {self' : TypeId → Build NodeId}
    (hself : ∀ t, Projects Ledger.state (self t) (self' t)) (fuel : Nat) (t : TypeId) :
    Projects Ledger.state (u.loggedStep fuel self t) (u.buildStep fuel self' t) := by
  have hdescribe := (Projects.congruence projects_asked).describe (u := u) hself fuel t
  refine (projects_asked _).bind fun leaves => ?_
  refine (projects_asked _).bind fun key => ?_
  refine (projects_known key).bind fun known => ?_
  cases known with
  | some id => exact .pure id
  | none =>
    refine (projects_entered _ _).bind fun id => ?_
    refine (hdescribe leaves).bind fun n => ?_
    exact (projects_entered _ _).bind fun _ => .pure id

/-- **Without the ledger the logged pass is the pass**: nothing but what is entered there reaches
the nodes. -/
theorem loggedNode_projects (u : Universe) : ∀ (fuel : Nat) (t : TypeId),
    Projects Ledger.state (u.loggedNode fuel t) (u.buildNode fuel t)
  | 0, _ => fun _ => rfl
  | fuel + 1, t => loggedStep_projects (loggedNode_projects u fuel) fuel t

end Universe

/-! ## The entries of a call

The entries stand latest first, and those of a call are what it put in front.  A call that
makes a node has its number as the earliest of them and the node as the latest; everything
between is of calls for the parts, which are whole calls themselves (`Appends.fresh`). -/

namespace Ledger

def size (l : Ledger) : Nat := l.state.nodes.size

/-- A number was given out for each node between the two sizes, the node was put there once, and
nothing else was done. -/
def Once (first last : Nat) (nodes : Array SchemaNode) (events : List NodeEvent) : Prop :=
  ∀ id : NodeId, about id events =
    if first ≤ id.index ∧ id.index < last then
      [.written id (nodes.getD id.index .placeholder), .allocated id]
    else []

/-- The second ledger comes of the first by whole calls. -/
structure Appends (l l' : Ledger) : Prop where
  size_le : l.size ≤ l'.size
  kept : ∀ i, i < l.size → l'.state.nodes[i]? = l.state.nodes[i]?
  events : ∃ new, l'.events = new ++ l.events ∧ l'.state.nodes = replay new l.state.nodes ∧
    Once l.size l'.size l'.state.nodes new

theorem about_append (id : NodeId) (events events' : List NodeEvent) :
    about id (events ++ events') = about id events ++ about id events' := List.filter_append ..

theorem replay_append (events events' : List NodeEvent) (nodes : Array SchemaNode) :
    replay (events ++ events') nodes = replay events (replay events' nodes) := List.foldr_append ..

theorem getD_eq_of_getElem? {nodes nodes' : Array SchemaNode} {i : Nat}
    (h : nodes'[i]? = nodes[i]?) : nodes'.getD i .placeholder = nodes.getD i .placeholder := by
  rw [Array.getD_eq_getD_getElem?, Array.getD_eq_getD_getElem?, h]

namespace Appends

variable {l l₁ l₂ l₃ : Ledger}

theorem of_types (types : Interner) : l.Appends ⟨{ l.state with types }, l.events⟩ where
  size_le := Nat.le_refl _
  kept := fun _ _ => rfl
  events := ⟨[], rfl, rfl, fun _ => (if_neg fun h => Nat.not_lt_of_le h.1 h.2).symm⟩

theorem refl (l : Ledger) : l.Appends l := of_types l.state.types

theorem trans (h₁ : l₁.Appends l₂) (h₂ : l₂.Appends l₃) : l₁.Appends l₃ where
  size_le := Nat.le_trans h₁.size_le h₂.size_le
  kept := fun i hi => (h₂.kept i (Nat.lt_of_lt_of_le hi h₁.size_le)).trans (h₁.kept i hi)
  events := by
    obtain ⟨new₁, heq₁, hreplay₁, honce₁⟩ := h₁.events
    obtain ⟨new₂, heq₂, hreplay₂, honce₂⟩ := h₂.events
    refine ⟨new₂ ++ new₁, by rw [heq₂, heq₁, List.append_assoc], ?_, fun id => ?_⟩
    · rw [hreplay₂, hreplay₁, replay_append]
    · have hle₁ := h₁.size_le
      have hle₂ := h₂.size_le
      rw [about_append, honce₁ id, honce₂ id]
      by_cases hmid : id.index < l₂.size
      · rw [if_neg (by omega), List.nil_append, getD_eq_of_getElem? (h₂.kept id.index hmid)]
        exact if_congr (by omega) rfl rfl
      · rw [if_neg (c := _ ∧ id.index < l₂.size) (by omega), List.append_nil]
        exact if_congr (by omega) rfl rfl

end Appends

/-- The ledger once a number was given out. -/
def allocate (l : Ledger) (key : TypeKey) : Ledger :=
  ⟨Universe.allocated l.state key, .allocated ⟨l.size⟩ :: l.events⟩

/-- The ledger once a node was put in its place. -/
def write (l : Ledger) (id : NodeId) (n : SchemaNode) : Ledger :=
  ⟨Universe.finished l.state id n, .written id n :: l.events⟩

theorem after_allocate (l : Ledger) (key : TypeKey) :
    After l (Logged.entered (Build.allocate key) .allocated) fun id l' =>
      l' = l.allocate key ∧ id = ⟨l.size⟩ := by
  rintro id l' hrun
  cases hrun
  exact ⟨rfl, rfl⟩

theorem after_write (l : Ledger) (id : NodeId) (n : SchemaNode) :
    After l (Logged.entered (Build.finishNode id n) fun _ => .written id n) fun _ l' =>
      l' = l.write id n := by
  rintro _ l' hrun
  cases hrun
  rfl

theorem size_allocate (l : Ledger) (key : TypeKey) : (l.allocate key).size = l.size + 1 :=
  Array.size_push _

theorem getElem?_write (l : Ledger) (id : NodeId) (n : SchemaNode) (i : Nat) :
    (l.write id n).state.nodes[i]? =
      if id.index = i then if i < l.size then some n else none else l.state.nodes[i]? := by
  show (l.state.nodes.setIfInBounds id.index n)[i]? = _
  rw [Array.getElem?_setIfInBounds]
  by_cases hi : id.index = i
  · rw [if_pos hi, if_pos hi, hi]
    rfl
  · rw [if_neg hi, if_neg hi]

/-- A call that makes a node: a number is given out, the parts are built, and the node is put in
its place. -/
theorem Appends.fresh {l l' : Ledger} {key : TypeKey} (h : (l.allocate key).Appends l')
    (n : SchemaNode) : l.Appends (l'.write ⟨l.size⟩ n) := by
  have hsize := size_allocate l key
  have hle := h.size_le
  have hwritten : (l'.write ⟨l.size⟩ n).size = l'.size := Array.size_setIfInBounds
  refine ⟨by omega, fun i hi => ?_, ?_⟩
  · rw [getElem?_write, if_neg (Nat.ne_of_gt hi), h.kept i (by omega)]
    show (l.state.nodes.push _)[i]? = _
    rw [Array.getElem?_push, if_neg (Nat.ne_of_lt (show i < l.state.nodes.size from hi))]
  · obtain ⟨new, heq, hreplay, honce⟩ := h.events
    refine ⟨.written ⟨l.size⟩ n :: (new ++ [.allocated ⟨l.size⟩]), ?_, ?_, fun id => ?_⟩
    · show _ :: l'.events = _
      rw [heq, List.cons_append, List.append_assoc]
      rfl
    · show l'.state.nodes.setIfInBounds l.size n =
        (replay (new ++ [.allocated ⟨l.size⟩]) l.state.nodes).setIfInBounds l.size n
      rw [hreplay, replay_append]
      rfl
    · have hcons : about id (.written ⟨l.size⟩ n :: (new ++ [.allocated ⟨l.size⟩])) =
          about id [.written ⟨l.size⟩ n] ++ about id new ++ about id [.allocated ⟨l.size⟩] := by
        rw [← about_append, ← about_append]
        rfl
      rw [hcons, honce id, hsize, hwritten]
      by_cases hid : id = ⟨l.size⟩
      · subst hid
        have hlt : l.size < l'.size := by omega
        rw [if_neg (by dsimp only; omega), if_pos ⟨Nat.le_refl _, hlt⟩,
          Array.getD_eq_getD_getElem?, getElem?_write, if_pos rfl, if_pos hlt]
        simp [about, NodeEvent.node]
      · have hne : id.index ≠ l.size := fun heq => hid (NodeId.index_injective heq)
        have hnone : about id [.written ⟨l.size⟩ n] = [] ∧ about id [.allocated ⟨l.size⟩] = [] := by
          simp [about, NodeEvent.node, Ne.symm hid]
        have hsame : (l'.write ⟨l.size⟩ n).state.nodes[id.index]? = l'.state.nodes[id.index]? := by
          rw [getElem?_write, if_neg hne.symm]
        rw [hnone.1, hnone.2, List.nil_append, List.append_nil, getD_eq_of_getElem? hsame]
        exact if_congr (by omega) rfl rfl

end Ledger

/-! ## Every call

By induction on the fuel, with the congruence for the description of a node. -/

/-- Whatever it answers, the computation comes down to whole calls. -/
def CallsWhole {α : Type} (m : Logged α) : Prop := ∀ l, After l m fun _ l' => l.Appends l'

namespace CallsWhole

variable {α β : Type}

theorem pure (a : α) : CallsWhole (Pure.pure a) := fun l => After.pure (.refl l)

theorem bind {m : Logged α} {f : α → Logged β} (hm : CallsWhole m) (hf : ∀ a, CallsWhole (f a)) :
    CallsWhole (m >>= f) :=
  fun l => After.bind (hm l) fun a l' h => (hf a l').mono fun _ _ h' => h.trans h'

theorem asked (m : Build α) : CallsWhole (monadLift m : Logged α) := by
  intro l a l' hrun
  have hrun : Logged.asked m l = some (a, l') := hrun
  unfold Logged.asked at hrun
  split at hrun
  · cases hrun
    exact .of_types _
  · cases hrun

theorem congruence : Congruence Logged fun m _ => CallsWhole m :=
  ⟨pure, bind, fun _ => asked _⟩

end CallsWhole

namespace Universe

variable {u : Universe}

/-- **If the calls that it makes add whole nodes, a step of the pass does so.** -/
theorem loggedStep_callsWhole {self : TypeId → Logged NodeId} (hself : ∀ t, CallsWhole (self t))
    (fuel : Nat) (t : TypeId) : CallsWhole (u.loggedStep fuel self t) := by
  -- no pass without a ledger goes along, so any may stand in its place
  have hdescribe := @Congruence.describe Logged _ _ _ _ u self (fun _ => Build.outOfFuel)
    CallsWhole.congruence hself fuel t
  refine .bind (.asked _) fun leaves => .bind (.asked _) fun key => .bind (.asked _) fun known => ?_
  cases known with
  | some id => exact .pure id
  | none =>
    refine fun l => (Ledger.after_allocate l key).bind fun id l₁ ⟨hl₁, hid⟩ => ?_
    subst hl₁ hid
    refine After.bind (hdescribe leaves _) fun n l₂ h₂ => ?_
    refine (Ledger.after_write l₂ _ n).bind fun _ l₃ hl₃ => After.pure ?_
    subst hl₃
    exact h₂.fresh n

theorem loggedNode_callsWhole (u : Universe) : ∀ fuel t, CallsWhole (u.loggedNode fuel t)
  | 0, _ => fun _ _ _ hrun => by cases hrun
  | fuel + 1, t => loggedStep_callsWhole (loggedNode_callsWhole u fuel) fuel t

/-! ## What a call does to a pass

The ledger says what is done to the nodes, the invariant of a pass what they are in the end;
the statement on calls has one part of each. -/

variable {tr : Trace}

theorem exists_append_of_kept {α : Type} {xs ys : Array α}
    (h : ∀ (i : Nat) (x : α), xs[i]? = some x → ys[i]? = some x) : ∃ added, ys = xs ++ added := by
  have hprefix : xs.toList <+: ys.toList := by
    refine List.prefix_iff_getElem?.2 fun i hi => ?_
    rw [Array.getElem?_toList]
    exact h i _ (by rw [Array.getElem?_eq_getElem (by simpa using hi), Array.getElem_toList])
  obtain ⟨added, hadded⟩ := hprefix
  exact ⟨added.toArray, Array.toList_inj.1 (by simp [hadded])⟩

/-- With enough fuel the call for the type answers with the node and changes nothing. -/
def Rebuilds (u : Universe) (st : BuildState) (t : TypeId) (id : NodeId) : Prop :=
  ∃ enough, ∀ fuel, enough ≤ fuel → u.buildNode fuel t st = some (id, st)

theorem Coherent.rebuilds (h : u.Coherent tr) {c : Call} (hc : c ∈ tr.calls) :
    u.Rebuilds tr.state c.type c.id := by
  obtain ⟨key, ⟨enough, hrun⟩, entry, hentry, hsame⟩ := (h.calls c hc).key_now
  refine ⟨enough + 1, fun fuel hle => ?_⟩
  obtain ⟨fuel, rfl⟩ := Nat.exists_eq_add_of_le' (Nat.le_trans (Nat.le_add_left 1 enough) hle)
  refine buildNode_of_known ?_ (h.kept.get?_eq hentry hsame)
  exact CoveredBy.of_le (fun fuel => keyOfBranches_covered u fuel _)
    (Nat.le_of_succ_le_succ hle) _ _ hrun

/-- What a call for the type has done to the state of a pass. -/
structure CallEffect (u : Universe) (tr : Trace) (fuel : Nat) (t : TypeId) (id : NodeId)
    (st : BuildState) : Prop where
  /-- The nodes that were there are as they were. -/
  nodes : ∃ added, st.nodes = tr.nodes ++ added
  entries : ∃ added, st.keys.entries = tr.entries ++ added
  kept : st.WellKept
  /-- Each added node was written once, after it got its number, and nothing else was written. -/
  written : ∃ events, u.loggedNode fuel t ⟨tr.state, []⟩ = some (id, ⟨st, events⟩) ∧
    st.nodes = replay events tr.nodes ∧ Ledger.Once tr.nodes.size st.nodes.size st.nodes events
  /-- Asked again for any type that was met, the pass answers as before and changes nothing; and
  each added node is the finished image of one of them. -/
  visited : ∃ tr', u.tracedNode fuel t tr = some (id, tr') ∧ tr'.state = st ∧
    Answered tr'.calls t id ∧ (∀ c ∈ tr'.calls, u.Rebuilds st c.type c.id) ∧
    ∀ x : NodeId, tr.nodes.size ≤ x.index → x.index < st.nodes.size →
      ∃ c ∈ tr'.calls, c ∉ tr.calls ∧ c.id = x ∧ u.ImageOf st c.type (tr'.table.node x)

/-- **A call only appends.**  Between two calls, whatever was built and asked before, a call that
comes to an end leaves all nodes and keys as they were and adds nodes at the end.  Each of these
is written once, is finished when the call returns, and is found again for every type that the
call has met. -/
theorem Pass.call_appends (pass : u.Pass tr) {t : TypeId} (ht : tr.types.Has t) {fuel : Nat}
    {id : NodeId} {st : BuildState} (hrun : u.buildNode fuel t tr.state = some (id, st)) :
    u.CallEffect tr fuel t id st := by
  have hcoherent := pass.coherent.1
  obtain ⟨tr', htraced, rfl⟩ := Projects.exists_run (tracedNode_erases u fuel t) hrun
  obtain ⟨⟨hcoherent', hlater⟩, hanswered⟩ :=
    tracedNode_serves u fuel tr t hcoherent ht id tr' htraced
  refine ⟨exists_append_of_kept hlater.nodes, exists_append_of_kept hlater.entries,
    hcoherent'.kept, ?_, tr', htraced, rfl, hanswered, fun c hc => hcoherent'.rebuilds hc, ?_⟩
  · obtain ⟨⟨st, events⟩, hlogged, rfl⟩ :=
      Projects.exists_run (s := ⟨tr.state, []⟩) (loggedNode_projects u fuel t) hrun
    obtain ⟨new, heq, hreplay, honce⟩ := (loggedNode_callsWhole u fuel t _ _ _ hlogged).events
    rw [List.append_nil] at heq
    subst heq
    exact ⟨events, hlogged, hreplay, honce⟩
  · intro x hfirst hlast
    obtain ⟨c, hc, hfresh, hid⟩ := hlater.filled x.index hfirst hlast
    have hid : c.id = x := hid
    refine ⟨c, hc, fun hold => ?_, hid, ?_⟩
    · have hlt : c.id.index < tr.nodes.size := hcoherent.call_lt hold
      rw [hid] at hlt
      omega
    · rw [← hid]
      exact hcoherent'.imageOf (hcoherent'.describes hc hfresh)

/-- One unit: a structure of numbers, and one that has lists of it and refers to itself. -/
def groveUniverse : Universe where
  units := [⟨"grove.ts", [
    { name := "Twig", exported := true, line := none, typeParams := []
      body := .interface [] [⟨"size", false, false, some (.name "number")⟩] [] },
    { name := "Grove", exported := true, line := none, typeParams := []
      body := .interface []
        [⟨"twigs", false, false, some (.array (.name "Twig"))⟩,
          ⟨"next", false, false, some (.union [.name "Grove", .name "null"])⟩] [] }]⟩]
  distinct := by decide

/-- The second call finds two nodes and adds three: the grove and within it the list, which leads
to a node that was there, and the union, which leads back to the grove. -/
theorem groveUniverse_appends : ∃ tr st, groveUniverse.Pass tr ∧ tr.nodes.size = 2 ∧
    groveUniverse.buildNode 9 ⟨1⟩ tr.state = some (⟨2⟩, st) ∧ st.nodes.size = 5 ∧
    groveUniverse.CallEffect tr 9 ⟨1⟩ ⟨2⟩ st := by
  have hfacts : (do
      let exported ← groveUniverse.exportedTypes 9 groveUniverse.start
      let (_, tr) ← groveUniverse.tracedNode 9 ⟨0⟩ ⟨.start exported.2, [], []⟩
      let (id, st) ← groveUniverse.buildNode 9 ⟨1⟩ tr.state
      pure (exported.1.map (·.index), exported.2.slots.size, tr.types.slots.size, tr.nodes.size,
        id.index, st.nodes.size)) = some ([0, 1], 2, 3, 2, 2, 5) := by decide +kernel
  simp only [Option.bind_eq_bind, Option.pure_def] at hfacts
  obtain ⟨⟨ts, types⟩, hexported, hfacts⟩ := Option.bind_eq_some_iff.1 hfacts
  obtain ⟨⟨id, tr⟩, hfirst, hfacts⟩ := Option.bind_eq_some_iff.1 hfacts
  obtain ⟨⟨id', st⟩, hsecond, hfacts⟩ := Option.bind_eq_some_iff.1 hfacts
  simp only [Option.some.injEq, Prod.mk.injEq] at hfacts
  obtain ⟨-, htypes, htypes', hnodes, hid, hsize⟩ := hfacts
  obtain rfl : id' = ⟨2⟩ := NodeId.index_injective hid
  have hhas : types.Has ⟨0⟩ ∧ tr.types.Has ⟨1⟩ := by
    rw [Interner.Has, Interner.Has, htypes, htypes']
    decide
  have hpass : groveUniverse.Pass tr :=
    .build (.start (.single (.exported hexported))) hhas.1 hfirst
  exact ⟨tr, st, hpass, hnodes, hsecond, hsize, hpass.call_appends hhas.2 hsecond⟩

end Universe
end TypedJson
