import TypedJson.Proofs.TwinKeys
import TypedJson.Proofs.Building
import TypedJson.Proofs.Transcription
/-!
# A schema does not depend on what was asked before

Two passes over tables with different histories go in step: they meet twins in the same order and
twin keys under the same numbers, so their nodes are the same (`buildNode_follows`).  The schema of
the exported declarations is therefore the same after any questions and any builds before it
(`schemaFrom?_of_past`).

A pass looks at its own state in three ways: the key of a type, the number of a key, and the
number of the next node.  In two passes in step all three agree, so everything that is put
into a node agrees.  The order in which calls are made is that of the parts of a type, which
are twins in order.
-/
namespace TypedJson
namespace Universe

open Build Sides

variable {u : Universe} {w : Sides u} {t t' : TypeId}

/-- Two passes in step: their types are those of the two tables, their keys are twins with the same
numbers, and their nodes are the same. -/
structure InPasses (w : Sides u) (s s' : BuildState) : Prop where
  left : s.types = w.left.table
  right : s'.types = w.right.table
  entries : List.Forall₂ (fun e e' => w.TwinKey e.1 e'.1 ∧ e.2 = e'.2) s.keys.entries.toList
    s'.keys.entries.toList
  nodes : s.nodes = s'.nodes

theorem InPasses.start (w : Sides u) : InPasses w (.start w.left.table) (.start w.right.table) :=
  ⟨rfl, rfl, .nil, rfl⟩

/-! ## The operations of a pass

Each operation of a pass is compared with itself on the other side; for questions that is
what was shown for tables. -/

section Operations

variable {α β : Type}

theorem ask_follows {m : Session α} {m' : Nat → Session β} {Q : Sides u → α → β → Prop}
    (h : Follows InTables w m m' Q) :
    Follows InPasses w (monadLift (ask m) : Build α) (fun fuel => monadLift (ask (m' fuel))) Q := by
  intro s s' hat a s₁ hrun
  have hrun : ask m s = some (a, s₁) := hrun
  unfold ask at hrun
  cases hanswer : m s.types with
  | none =>
    rw [hanswer] at hrun
    cases hrun
  | some r =>
    obtain ⟨b, types⟩ := r
    rw [hanswer] at hrun
    cases hrun
    obtain ⟨w', b, types', hlater, ⟨rfl, rfl⟩, hab, n, hrun'⟩ := h _ _ ⟨hat.left, hat.right⟩ a _ hanswer
    refine ⟨w', b, { s' with types := w'.right.table }, hlater, ⟨rfl, rfl, ?_, hat.nodes⟩, hab, n,
      fun fuel hle => ?_⟩
    · exact hat.entries.imp fun _ _ ⟨hkey, hid⟩ => ⟨hkey.later hlater, hid⟩
    · show ask (m' fuel) s' = _
      unfold ask
      rw [hrun' fuel hle]

theorem look_follows {f : Interner → α} {f' : Interner → β} {Q : Sides u → α → β → Prop}
    (h : Q w (f w.left.table) (f' w.right.table)) :
    Follows InPasses w (monadLift (ask (Session.query f)) : Build α)
      (fun _ => monadLift (ask (Session.query f'))) Q :=
  ask_follows fun _ _ ⟨hs, hs'⟩ a s₁ hrun => by
    subst hs hs'
    cases hrun
    exact ⟨w, _, _, .refl w, ⟨rfl, rfl⟩, h, 0, fun _ _ => rfl⟩

theorem known_follows {key key' : TypeKey} (h : w.TwinKey key key') :
    Follows InPasses w (monadLift (known? key) : Build _) (fun _ => monadLift (known? key'))
      fun _ a b => a = b := fun s s' hat _ _ hrun => by
  cases hrun
  exact ⟨w, s'.keys.get? key', s', .refl w, hat, (KeyTable.get?_alike (fun a a' ha => TwinKey.discerned w a _ _ _ ha h) hat.entries).symm, 0, fun _ _ => rfl⟩

theorem allocate_follows {key key' : TypeKey} (h : w.TwinKey key key') :
    Follows InPasses w (monadLift (allocate key) : Build _) (fun _ => monadLift (allocate key'))
      fun _ a b => a = b := fun s s' hat _ _ hrun => by
  cases hrun
  refine ⟨w, ⟨s'.nodes.size⟩, allocated s' key', .refl w, ⟨hat.left, hat.right, ?_, ?_⟩, ?_, 0,
    fun _ _ => rfl⟩
  · show List.Forall₂ _ (s.keys.entries.push (key, ⟨s.nodes.size⟩)).toList
      (s'.keys.entries.push (key', ⟨s'.nodes.size⟩)).toList
    rw [Array.toList_push, Array.toList_push, hat.nodes]
    exact List.rel_append hat.entries (.cons ⟨h, rfl⟩ .nil)
  · exact congrArg (·.push .placeholder) hat.nodes
  · exact congrArg (fun nodes => NodeId.mk nodes.size) hat.nodes

theorem finishNode_follows (id : NodeId) (n : SchemaNode) :
    Follows InPasses w (monadLift (finishNode id n) : Build _)
      (fun _ => monadLift (finishNode id n)) fun _ a b => a = b := fun s s' hat _ _ hrun => by
  cases hrun
  exact ⟨w, (), finished s' id n, .refl w, ⟨hat.left, hat.right, hat.entries,
    congrArg (·.setIfInBounds id.index n) hat.nodes⟩, rfl, 0, fun _ _ => rfl⟩

end Operations

/-! ## The step of a pass

The description of a node, part by part, and then the step as a whole, in the order of the
program. -/

/-- The second computation builds a type under the same number as the first one builds its twin. -/
def BuildsAlike (u : Universe) (self : TypeId → Build NodeId) (self' : Nat → TypeId → Build NodeId) :
    Prop :=
  ∀ {w : Sides u} {t t' : TypeId}, w.Twin t t' →
    Follows InPasses w (self t) (fun fuel => self' fuel t') fun _ a b => a = b

section Step

variable {self : TypeId → Build NodeId} {self' : Nat → TypeId → Build NodeId}

theorem BuildsAlike.mapM (hself : u.BuildsAlike self self') {ts ts' : List TypeId}
    (hts : w.Twins ts ts') :
    Follows InPasses w (ts.mapM self) (fun fuel => ts'.mapM (self' fuel)) fun _ as bs => as = bs :=
  .mapM_eq (fun _ _ _ _ h ht => ht.later h) hts fun _ _ _ _ ht => hself ht

theorem unionNodes_follows (hself : u.BuildsAlike self self') (ht : w.Twin t t')
    {real real' : List TypeId} (hreal : w.Twins real real') :
    Follows InPasses w (unionNodes self t real) (fun fuel => unionNodes (self' fuel) t' real')
      fun _ a b => a = b := by
  have hown : real = [t] ↔ real' = [t'] := by
    cases hreal with
    | nil => exact ⟨fun h => (by cases h), fun h => (by cases h)⟩
    | cons hx hxs =>
      cases hxs with
      | nil => rw [List.singleton_inj, List.singleton_inj, hx.eq_iff ht]
      | cons => exact ⟨fun h => (by cases h), fun h => (by cases h)⟩
  unfold unionNodes
  by_cases h : real = [t]
  · simp only [if_pos h, if_pos (hown.1 h)]
    exact .pure rfl
  · simp only [if_neg h, if_neg (mt hown.2 h)]
    exact hself.mapM hreal

theorem elementNode_follows (hself : u.BuildsAlike self self') {found found' : Option TypeId}
    {w₀ : Sides u} (h : Option.Rel w₀.Twin found found') (hlater : w₀.Later w) :
    Follows InPasses w (elementNode self found) (fun fuel => elementNode (self' fuel) found')
      fun _ a b => a = b := by
  cases h with
  | none => exact .pure rfl
  | some ht => exact .map ((hself (ht.later hlater)).mono fun _ _ _ _ heq => congrArg some heq)

/-- The data members have the same names, and their types are twins. -/
structure TwinDatum (w : Sides u) (m m' : TypeMember × TypeId) : Prop where
  name : m.1.name = m'.1.name
  optional : m.1.optional = m'.1.optional
  type : w.Twin m.2 m'.2

theorem dataMembers_twins {ms ms' : List TypeMember} (h : List.Forall₂ w.TwinMember ms ms') :
    List.Forall₂ (TwinDatum w) (dataMembers ms) (dataMembers ms') := by
  induction h with
  | nil => exact .nil
  | @cons m m' ms ms' hm _ ih =>
    obtain ⟨n, optional, type⟩ := m
    obtain ⟨n', optional', type'⟩ := m'
    obtain ⟨hname, hoptional, htype⟩ := hm
    cases type with
    | none =>
      cases type' with
      | none => exact ih
      | some t' => cases htype
    | some t =>
      cases type' with
      | none => cases htype
      | some t' => exact .cons ⟨hname.symm, hoptional.symm, (List.forall₂_cons.1 htype).1⟩ ih

theorem properties_follows (hself : u.BuildsAlike self self') {ms ms' : List (TypeMember × TypeId)}
    (hms : List.Forall₂ (TwinDatum w) ms ms') :
    Follows InPasses w
      (ms.mapM fun m => do pure (Property.mk m.1.name m.1.optional (← self m.2)))
      (fun fuel => ms'.mapM fun m => do pure (Property.mk m.1.name m.1.optional (← self' fuel m.2)))
      fun _ a b => a = b :=
  .mapM_eq (fun _ _ _ _ h hm => ⟨hm.name, hm.optional, hm.type.later h⟩) hms
    fun _ _ _ _ hm => (hself hm.type).bind fun _ _ _ _ heq => .pure (by
      rw [hm.name, hm.optional, heq])

theorem signatures_follows (hself : u.BuildsAlike self self') {is is' : List TypeIndex}
    (his : List.Forall₂ w.TwinIndex is is') :
    Follows InPasses w
      (is.mapM fun x => do
        let keyType ← self x.key
        let valueType ← self x.value
        pure (IndexSignature.mk keyType valueType))
      (fun fuel => is'.mapM fun x => do
        let keyType ← self' fuel x.key
        let valueType ← self' fuel x.value
        pure (IndexSignature.mk keyType valueType)) fun _ a b => a = b :=
  .mapM_eq (fun _ _ _ _ h hx => hx.later h) his
    fun _ _ _ _ hx => (hself hx.key).bind fun _ _ _ h heq =>
      (hself (hx.value.later h)).bind fun _ _ _ _ heq' => .pure (by rw [heq, heq'])

variable (hcircular : ∀ n, ¬ u.Circular n) (hcyclic : ∀ s, u.Reaches u.start s → ¬ u.Cyclic s)

include hcircular hcyclic

theorem describeMembers_follows (hself : u.BuildsAlike self self') (ht : w.Twin t t') (fuel : Nat)
    (n : SchemaNode) : Follows InPasses w (u.describeMembers fuel self t n)
      (fun fuel => u.describeMembers fuel (self' fuel) t' n) fun _ a b => a = b := by
  unfold describeMembers
  refine (ask_follows (list_follows hcircular hcyclic .members ht fuel)).bind
    fun w₁ ms ms' h₁ hms => ?_
  refine (properties_follows hself (dataMembers_twins hms.members)).bind
    fun w₂ properties _ h₂ heq => ?_
  obtain rfl := heq
  refine (ask_follows (list_follows hcircular hcyclic .indexes (ht.later (h₁.trans h₂)) fuel)).bind
    fun w₃ is is' _ his => ?_
  refine (signatures_follows hself his.indexes).bind fun _ indexes _ _ heq => .pure ?_
  rw [heq]

theorem describeDeclared_follows (hself : u.BuildsAlike self self') (ht : w.Twin t t') (fuel : Nat)
    (n : SchemaNode) (origin : Option Origin) :
    Follows InPasses w (u.describeDeclared fuel self w.left.table t n origin)
      (fun fuel => u.describeDeclared fuel (self' fuel) w.right.table t' n origin)
      fun _ a b => a = b := by
  unfold describeDeclared
  cases origin with
  | none => exact .pure rfl
  | some origin =>
    simp only [ht.nameNode, ht.hasProperties]
    split
    · exact describeMembers_follows hcircular hcyclic hself ht fuel _
    · exact .pure rfl

/-- **Twins with twin leaves have the same node.** -/
theorem describe_follows (hself : u.BuildsAlike self self') (ht : w.Twin t t')
    {leaves leaves' : List TypeId} (hleaves : w.Twins leaves leaves') (fuel : Nat) :
    Follows InPasses w (u.describe fuel self t leaves)
      (fun fuel => u.describe fuel (self' fuel) t' leaves') fun _ a b => a = b := by
  unfold describe
  refine (ask_follows (display_follows hcircular hcyclic fuel ht)).bind fun w₁ text _ h₁ heq => ?_
  obtain rfl := heq
  refine (look_follows (Q := fun w a b => a = w.left.table ∧ b = w.right.table) ⟨rfl, rfl⟩).bind
    fun w₂ s s' h₂ ⟨hs, hs'⟩ => ?_
  subst hs hs'
  have ht₂ := ht.later (h₁.trans h₂)
  have hleaves₂ := Twins.later hleaves (h₁.trans h₂)
  refine (unionNodes_follows hself ht₂ hleaves₂.realLeaves).bind fun w₃ unionOf _ h₃ heq => ?_
  obtain rfl := heq
  refine (elementNode_follows hself ht₂.data.element? h₃).bind fun w₄ arrayOf _ h₄ heq => ?_
  obtain rfl := heq
  have ht₄ := ht₂.later (h₃.trans h₄)
  refine (look_follows (Q := fun w a b => a = w.left.table ∧ b = w.right.table) ⟨rfl, rfl⟩).bind
    fun w₅ s s' h₅ ⟨hs, hs'⟩ => ?_
  subst hs hs'
  have ht₅ := ht₄.later h₅
  have hnull : leaves'.any w₂.right.table.isNull = leaves.any w₂.left.table.isNull :=
    hleaves₂.any_eq fun _ _ hx => hx.isNull
  have hvalues : leaves'.filterMap w₂.right.table.literal? = leaves.filterMap w₂.left.table.literal? :=
    hleaves₂.filterMap_eq fun _ _ hx => hx.literal?
  rw [hnull, hvalues, ht₅.originOf?]
  refine (describeDeclared_follows hcircular hcyclic hself ht₅ fuel _ _).bind fun w₆ n _ h₆ heq => ?_
  obtain rfl := heq
  refine (look_follows (Q := fun _ a b => a = b) (ht₅.later h₆).isNullable.symm).bind
    fun _ nullable _ _ heq => .pure ?_
  rw [heq]

/-- **One step on twins answers with the same number.** -/
theorem buildStep_follows (hself : u.BuildsAlike self self') (ht : w.Twin t t') (fuel : Nat) :
    Follows InPasses w (u.buildStep fuel self t) (fun fuel => u.buildStep fuel (self' fuel) t')
      fun _ a b => a = b := by
  unfold buildStep
  refine (look_follows (Q := fun w a b => w.Twins a b) ht.leaves).bind
    fun w₁ leaves leaves' h₁ hleaves => ?_
  refine (ask_follows (keyOfBranches_follows hcircular hcyclic fuel hleaves)).bind
    fun w₂ key key' h₂ hkey => ?_
  refine (known_follows hkey).bind fun w₃ found _ h₃ heq => ?_
  obtain rfl := heq
  cases found with
  | some id => exact .pure rfl
  | none =>
    refine (allocate_follows (hkey.later h₃ key)).bind fun w₄ id _ h₄ heq => ?_
    obtain rfl := heq
    have h₁₄ := (h₂.trans h₃).trans h₄
    refine (describe_follows hcircular hcyclic hself (ht.later (h₁.trans h₁₄))
      (Twins.later hleaves h₁₄) fuel).bind fun w₅ n _ h₅ heq => ?_
    obtain rfl := heq
    exact (finishNode_follows id n).bind fun _ _ _ _ _ => .pure rfl

/-- **Twins are built under the same numbers.** -/
theorem buildNode_follows : ∀ fuel, u.BuildsAlike (u.buildNode fuel) (fun fuel => u.buildNode fuel)
  | 0, _, _, _, _ => fun _ _ _ _ _ hrun => by cases hrun
  | fuel + 1, _, _, _, ht => .succ (buildStep_follows hcircular hcyclic
      (buildNode_follows fuel) ht fuel)

end Step

/-! ## Histories

Builds are part of the history too.  A build only asks of the types, so a history with builds
is one of questions as far as the table is concerned. -/

/-- What earlier questions and builds make of the table. -/
inductive Past (u : Universe) : Interner → Prop
  | start : Past u u.start
  | ask {s s' : Interner} (h : Past u s) (asked : u.Asks s s') : Past u s'
  /-- The exported declarations, or any other types, are built from a fresh table of nodes. -/
  | build {s : Interner} {fuel : Nat} {ts : List TypeId} {ids : List NodeId} {pass : BuildState}
    (h : Past u s) (hts : ∀ t ∈ ts, s.Has t)
    (run : u.buildNodes fuel ts (.start s) = some (ids, pass)) : Past u pass.types

theorem reaches_of_buildNodes {s : Interner} (hreach : u.Reaches u.start s) {fuel : Nat}
    {ts : List TypeId} (hts : ∀ t ∈ ts, s.Has t) {ids : List NodeId} {pass : BuildState}
    (run : u.buildNodes fuel ts (.start s) = some (ids, pass)) : u.Reaches s pass.types := by
  have hcoherent := (Pass.start hreach).coherent.1
  have herases := Erases.mapM (tracedNode_erases u fuel) ts ⟨.start s, [], []⟩
  rw [show ts.mapM (u.buildNode fuel) = u.buildNodes fuel ts from rfl, run] at herases
  obtain ⟨⟨ids, tr⟩, htraced, heq⟩ := Option.map_eq_some_iff.1 herases
  cases heq
  obtain ⟨⟨-, hlater⟩, -⟩ := (tracedNode_serves u fuel).mapM hcoherent hts ids tr htraced
  exact hlater.types

theorem Past.reaches {s : Interner} (h : u.Past s) : u.Reaches u.start s := by
  induction h with
  | start => exact .refl
  | ask _ asked ih => exact ih.tail asked
  | build _ hts run ih => exact ih.trans (reaches_of_buildNodes ih hts run)

theorem schemaFrom?_agrees (hcircular : ∀ n, ¬ u.Circular n)
    (hcyclic : ∀ s, u.Reaches u.start s → ¬ u.Cyclic s) (w : Sides u) {fuel : Nat} {schema : Schema}
    (h : u.schemaFrom? fuel w.left.table = some schema) :
    ∃ n, ∀ fuel, n ≤ fuel → u.schemaFrom? fuel w.right.table = some schema := by
  unfold schemaFrom? at h
  obtain ⟨⟨ts, types⟩, hexported, h⟩ := Option.bind_eq_some_iff.1 h
  obtain ⟨⟨ids, pass⟩, hbuilt, h⟩ := Option.bind_eq_some_iff.1 h
  cases h
  obtain ⟨w₁, ts', types', -, ⟨hleft, hright⟩, hts, n, hexported'⟩ :=
    exportedTypes_follows hcircular fuel _ _ ⟨rfl, rfl⟩ ts types hexported
  subst hleft hright
  obtain ⟨w₂, ids', pass', -, hpasses, -, n', hbuilt'⟩ :=
    BuildsAlike.mapM (buildNode_follows hcircular hcyclic fuel) hts _ _ (.start w₁) ids pass hbuilt
  refine ⟨max n n', fun fuel hle => ?_⟩
  have hexported' := hexported' fuel (by omega)
  have hbuilt' : u.buildNodes fuel ts' (.start w₁.right.table) = some (ids', pass') :=
    hbuilt' fuel (by omega)
  simp only [schemaFrom?, hexported', Option.bind_eq_bind, Option.bind_some, hbuilt', hpasses.nodes]
  rfl

/-- **Whatever was asked and built before, the schema is that of a table that was never asked.** -/
theorem schemaFrom?_of_past (hcircular : ∀ n, ¬ u.Circular n)
    (hcyclic : ∀ s, u.Reaches u.start s → ¬ u.Cyclic s) {fuel : Nat} {schema : Schema} (h : u.schema? fuel = some schema)
    {s : Interner} (hpast : u.Past s) :
    ∃ n, ∀ fuel, n ≤ fuel → u.schemaFrom? fuel s = some schema := by
  obtain ⟨V, hV, hstanding⟩ := standing_of_reaches hcircular (.refl : u.Reaches u.start u.start)
  obtain ⟨W, hW, hstanding'⟩ := standing_of_reaches hcircular hpast.reaches
  subst hW
  have h : u.schemaFrom? fuel V.table = some schema := by
    rw [hV]
    exact h
  exact schemaFrom?_agrees hcircular hcyclic ⟨V, W, hstanding, hstanding'⟩ h

/-- One unit: an interface that extends another one, and a union of it and an inline object. -/
def shelfUniverse : Universe where
  units := [⟨"shelf.ts", [
    { name := "Shelf", exported := true, line := none, typeParams := []
      body := .interface [.name "Entry"] [⟨"items", false, false, some (.array (.name "Item"))⟩,
        ⟨"above", true, false, some (.name "Shelf")⟩] [] },
    { name := "Item", exported := true, line := none, typeParams := []
      body := .typeAlias (.union [.name "string", .name "Shelf",
        .object [⟨"note", false, false, some (.name "string")⟩] []]) },
    { name := "Entry", exported := false, line := none, typeParams := []
      body := .interface [] [⟨"number", false, false, some (.name "number")⟩] [] }]⟩]
  distinct := by decide

/-- The shelf takes over from the entry, an intersection from earlier types. -/
def shelfRank (s : Interner) (t : TypeId) : Nat :=
  match s.data t with
  | .object none (.intersection _) => t.index + 2
  | .form (.reference ⟨.declared ⟨0, 0⟩, _⟩) => 1
  | _ => 0

theorem shelfRank_le (s : Interner) (t : TypeId) : shelfRank s t ≤ t.index + 2 := by
  unfold shelfRank
  split
  · exact Nat.le_refl _
  · omega
  · omega

theorem shelfUniverse_entry {s : Interner} {scope : Scope} {t : TypeId} (hunit : scope.unit = 0)
    (hparams : scope.params = [])
    (h : shelfUniverse.Denotes s (.expr scope (.name "Entry")) t) : shelfRank s t = 0 := by
  have hbound : scope.bound? "Entry" [] = none := by
    rw [Scope.bound?, hparams]
    rfl
  cases h with
  | name h =>
    have hfind : shelfUniverse.find? "Entry" scope.unit = some ⟨0, 2⟩ := by
      rw [hunit]
      decide
    rcases h.data_of_reference hbound (by decide) hfind rfl (by decide) with hdata | ⟨args, hdata⟩
    · rw [shelfRank, hdata]
    · rw [shelfRank, hdata]
      rfl

theorem shelfUniverse_base {id : DeclarationId} {d : Declaration} {bases : List TypeExpr}
    {members : List Member} {indexes : List Index} {e : TypeExpr}
    (hmem : (id, d) ∈ shelfUniverse.declarations) (hbody : d.body = .interface bases members indexes)
    (he : e ∈ bases) : id = ⟨0, 0⟩ ∧ e = .name "Entry" := by
  simp only [declarations, shelfUniverse] at hmem
  fin_cases hmem
  · cases hbody
    exact ⟨rfl, List.mem_singleton.1 he⟩
  · cases hbody
  · cases hbody
    cases he

theorem shelfUniverse_alias {id : DeclarationId} {d : Declaration}
    (hmem : (id, d) ∈ shelfUniverse.declarations) (es : List TypeExpr) :
    d.body ≠ .typeAlias (.intersection es) := by
  simp only [declarations, shelfUniverse] at hmem
  intro hbody
  fin_cases hmem
  · cases hbody
  · cases hbody
  · cases hbody

theorem shelfUniverse_acyclic {s : Interner} (hreach : shelfUniverse.Reaches shelfUniverse.start s) :
    ¬ shelfUniverse.Cyclic s := by
  have hmonomorphic : shelfUniverse.Monomorphic := by
    intro entry hmem
    simp only [declarations, shelfUniverse] at hmem
    fin_cases hmem <;> rfl
  have hrank : ∀ t b, shelfUniverse.Inherits s t b → shelfRank s b < shelfRank s t := by
    intro t b hb
    cases hb with
    | base h he hb =>
      obtain ⟨id, d, args, hdata, hd, hbody, hscope⟩ := exists_interface h
      obtain ⟨rfl, rfl⟩ := shelfUniverse_base (mem_declarations_iff.2 hd) hbody he
      rw [shelfUniverse_entry (by rw [hscope]) (interface?_params hmonomorphic h) hb, shelfRank, hdata]
      exact Nat.zero_lt_one
    | @part origin parts h hb =>
      cases origin with
      | none =>
        have hearlier := (written_of_reaches hmonomorphic hreach).earlier t b (by rw [h]; exact hb)
        have hle := shelfRank_le s b
        have heq : shelfRank s t = t.index + 2 := by rw [shelfRank, h]
        omega
      | some origin =>
        have hmeant := (kept_of_reaches hreach).meaningful.data t
        rw [h] at hmeant
        obtain ⟨scope, es, ⟨id, d, -, hd, hbody, -⟩, -⟩ := hmeant
        exact absurd hbody (shelfUniverse_alias (mem_declarations_iff.2 hd) es)
  exact not_cyclic_of_rank (shelfRank s) hrank

/-- The union is looked up, shown and built before anything else is asked. -/
def shelfRun : Option Interner := do
  let (found, s) ← shelfUniverse.declared? 9 "Item" shelfUniverse.start
  let item ← found
  let (_, s) ← shelfUniverse.display 9 item s
  let (_, pass) ← shelfUniverse.buildNodes 9 [item] (.start s)
  pure pass.types

/-- The exported types have other handles afterwards, and the schema is the same. -/
theorem shelfUniverse_pure : ∃ s schema, shelfUniverse.Past s ∧
    (shelfUniverse.exportedTypes 9 shelfUniverse.start).map (·.1) = some [⟨0⟩, ⟨1⟩] ∧
    (shelfUniverse.exportedTypes 9 s).map (·.1) = some [⟨2⟩, ⟨0⟩] ∧
    shelfUniverse.schema? 9 = some schema ∧
    ∃ n, ∀ fuel, n ≤ fuel → shelfUniverse.schemaFrom? fuel s = some schema := by
  have hrun : (shelfRun.bind fun s => (shelfUniverse.exportedTypes 9 s).map (·.1)) =
      some [⟨2⟩, ⟨0⟩] := by decide +kernel
  obtain ⟨s, hs, hafter⟩ := Option.bind_eq_some_iff.1 hrun
  have hschema : (shelfUniverse.schema? 9).isSome = true := by decide +kernel
  obtain ⟨schema, hschema⟩ := Option.isSome_iff_exists.1 hschema
  have hpast : shelfUniverse.Past s := by
    unfold shelfRun at hs
    obtain ⟨⟨found, s₁⟩, hdeclared, hs⟩ := Option.bind_eq_some_iff.1 hs
    obtain ⟨item, hfound, hs⟩ := Option.bind_eq_some_iff.1 hs
    obtain ⟨⟨_, s₂⟩, hdisplay, hs⟩ := Option.bind_eq_some_iff.1 hs
    obtain ⟨⟨_, pass⟩, hbuilt, hs⟩ := Option.bind_eq_some_iff.1 hs
    cases hs
    obtain ⟨hgrown, hitem⟩ :=
      declared?_yields (start_sound shelfUniverse) 9 "Item" found s₁ hdeclared
    have hitem := hitem item hfound
    have hdisplayed : shelfUniverse.Asks s₁ s₂ := .display hitem hdisplay
    refine .build (.ask (.ask .start (.declared hdeclared)) hdisplayed) (fun t ht => ?_) hbuilt
    obtain rfl := List.mem_singleton.1 ht
    exact (asks_grown hgrown.sound hdisplayed).has hitem
  exact ⟨s, schema, hpast, by decide +kernel, hafter, hschema, schemaFrom?_of_past
    (not_circular (by decide)) (fun _ => shelfUniverse_acyclic) hschema hpast⟩

end Universe
end TypedJson
