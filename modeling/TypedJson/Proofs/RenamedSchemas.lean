import TypedJson.Proofs.RenamedKeys
import TypedJson.Proofs.Building
/-!
# Schemas after a renaming

What is built after a renaming is built in step with what was built before it
(`Renaming.pass_inStep`, `Renaming.tracedSchema?_inStep`): the same nodes under the same numbers,
which differ at most in their names and in the texts they are shown by.

The two passes have states that correspond slot by slot and number by number, so this is a
simulation in which each step on the one side is one step on the other.  The calls are kept
in the trace, and correspond too, so a statement about a call before the renaming has its
counterpart after it.
-/
namespace TypedJson
namespace Universe
namespace Renaming

open Build

variable {u : Universe} (r : u.Renaming)

/-! ## Origins and leaves

What a node takes from the table of types besides its texts: the declaration, the values of
an enum, the leaves.  None of it depends on names. -/

def originAt (symbol : Symbol) (o : Origin) : Origin :=
  { o with name := if symbol = .declared r.id then r.new else o.name }

theorem origin?_target (symbol : Symbol) :
    r.target.origin? symbol = (u.origin? symbol).map (r.originAt symbol) := by
  cases symbol with
  | declared id =>
    simp only [origin?, declaration?_target]
    cases hd : u.declaration? id with
    | none => rfl
    | some d =>
      have hkind : DeclarationBody.kind (r.body id.unit d.body) = DeclarationBody.kind d.body := by
        cases d.body <;> rfl
      simp [originAt, declarationAt, hkind, location, file_target]
  | builtin | param | anonymous => rfl

/-- The origin is that of the same declaration or builtin, whose name may differ. -/
structure OriginBecomes (o o' : Origin) : Prop where
  kind : o'.kind = o.kind
  location : o'.location = o.location
  builtin : o'.builtin = o.builtin
  name : o.builtin = true → o'.name = o.name

theorem originOf?_table (s : Interner) (t : TypeId) :
    Option.Rel OriginBecomes (u.originOf? s t) (r.target.originOf? (r.table s) t) := by
  unfold originOf?
  rw [data_table, instance?_data]
  cases (s.data t).instance? with
  | none => exact .none
  | some inst =>
    rw [Option.bind_some, Option.bind_some, origin?_target]
    cases horigin : u.origin? inst.symbol with
    | none => exact .none
    | some o =>
      refine .some ⟨rfl, rfl, rfl, fun hbuiltin => if_neg fun hsymbol => ?_⟩
      -- a declaration is no builtin
      rw [hsymbol] at horigin
      obtain ⟨d, -, rfl⟩ := Option.map_eq_some_iff.1 horigin
      cases hbuiltin

theorem isEnum_table (s : Interner) (t : TypeId) :
    r.target.isEnum (r.table s) t = u.isEnum s t := by
  unfold isEnum
  have horigin := r.originOf?_table s t
  generalize u.originOf? s t = o at horigin
  generalize r.target.originOf? (r.table s) t = o' at horigin
  cases horigin with
  | none => rfl
  | some h => simp only [h.kind]

theorem enumValues_table (s : Interner) (t : TypeId) :
    r.target.enumValues (r.table s) t = u.enumValues s t := by
  unfold enumValues
  rw [data_table]
  rcases s.data t with f | _ | _ | _
  · cases f with
    | reference inst =>
      obtain ⟨symbol, args⟩ := inst
      cases symbol with
      | declared id =>
        simp only [data, form, declaration?_target]
        cases u.declaration? id with
        | none => rfl
        | some d =>
          obtain ⟨name, exported, line, params, body⟩ := d
          cases body <;> rfl
      | _ => rfl
    | _ => rfl
  all_goals rfl

theorem collectLeaves_table (s : Interner) : ∀ (fuel : Nat) (t : TypeId)
    (met : List TypeId × List TypeId),
    r.target.collectLeaves (r.table s) fuel t met = u.collectLeaves s fuel t met
  | 0, _, _ => rfl
  | fuel + 1, t, (leaves, unions) => by
    have hbranches : r.target.branches? (r.table s) t = u.branches? s t := by
      unfold branches?
      rw [isEnum_table, union?_table]
    have hself : (fun met b => r.target.collectLeaves (r.table s) fuel b met) =
        fun met b => u.collectLeaves s fuel b met :=
      funext fun met => funext fun b => collectLeaves_table s fuel b met
    unfold collectLeaves
    rw [hbranches, hself]

theorem leaves_table (s : Interner) (t : TypeId) :
    r.target.leaves (r.table s) t = u.leaves s t := by
  unfold leaves
  rw [collectLeaves_table, size_table]

theorem isLiteralUnion_table (s : Interner) (t : TypeId) :
    isLiteralUnion (r.table s) t = isLiteralUnion s t := by
  simp only [isLiteralUnion, union?_table, literal?_table]

theorem realLeaves_table (s : Interner) (leaves : List TypeId) :
    realLeaves (r.table s) leaves = realLeaves s leaves := by
  simp only [realLeaves, literal?_table, isNull_table]

theorem hasProperties_table (s : Interner) (t : TypeId) {o o' : Origin} (h : OriginBecomes o o')
    (isEnum : Bool) : hasProperties (r.table s) t o' isEnum = hasProperties s t o isEnum := by
  unfold hasProperties
  rw [isLiteralUnion_table, h.builtin]
  cases hbuiltin : o.builtin with
  | false => rfl
  | true => rw [h.name hbuiltin]

/-! ## Passes in step

The operations of a pass.  The number of a key is found by comparing keys, and here the
condition on texts is used. -/

/-- The nodes differ only in their names, and for a check of data not even in these. -/
def NodeBecomes (n n' : SchemaNode) : Prop :=
  ∃ name displayName, n' = { n with name, displayName } ∧ SameWord n.displayName displayName

theorem NodeBecomes.refl (n : SchemaNode) : NodeBecomes n n := ⟨_, _, rfl, .refl _⟩

variable {r}

/-- Two passes in step: their tables are those before and after the renaming, and they have met
the same types in the same order. -/
structure InStep (r : u.Renaming) (tr tr' : Trace) : Prop where
  types : r.Seen tr.types tr'.types
  entries : List.Forall₂ (fun e e' => r.KeyBecomes e.1 e'.1 ∧ e.2 = e'.2) tr.entries.toList
    tr'.entries.toList
  nodes : List.Forall₂ NodeBecomes tr.nodes.toList tr'.nodes.toList
  calls : List.Forall₂ (fun c c' : Call => c.type = c'.type ∧ c.id = c'.id) tr.calls tr'.calls

section Operations

variable {α β : Type}

theorem ask_inStep {R : α → β → Prop} {m : Session α} {m' : Session β} (h : Mirrors r.Seen R m m') :
    Mirrors r.InStep R (monadLift (ask m) : Traced α) (monadLift (ask m') : Traced β) := by
  rintro tr tr' hstep a tr₁ hrun
  have hrun : Traced.ofBuild (ask m) tr = some (a, tr₁) := hrun
  unfold Traced.ofBuild ask at hrun
  cases hanswer : m tr.state.types with
  | none =>
    rw [hanswer] at hrun
    cases hrun
  | some p =>
    obtain ⟨b, types⟩ := p
    rw [hanswer] at hrun
    cases hrun
    obtain ⟨b, types', hrun', htypes, hab⟩ := h _ _ hstep.types a types hanswer
    refine ⟨b, tr'.moveTo { tr'.state with types := types' }, ?_,
      ⟨htypes, hstep.entries, hstep.nodes, hstep.calls⟩, hab⟩
    show Traced.ofBuild (ask m') tr' = _
    unfold Traced.ofBuild ask
    rw [show m' tr'.state.types = some (b, types') from hrun']

theorem query_inStep {R : α → β → Prop} {f : Interner → α} {f' : Interner → β}
    (h : ∀ s, R (f s) (f' (r.table s))) :
    Mirrors r.InStep R (monadLift (ask (Session.query f)) : Traced α)
      (monadLift (ask (Session.query f')) : Traced β) :=
  ask_inStep (query_seen h)

theorem known_inStep (htexts : r.KeepsTexts) {key key' : TypeKey} (h : r.KeyBecomes key key') :
    Mirrors r.InStep Eq (monadLift (known? key) : Traced _) (monadLift (known? key') : Traced _) := by
  rintro tr tr' hstep a tr₁ hrun
  cases hrun
  refine ⟨_, tr'.moveTo tr'.state, rfl, ⟨hstep.types, hstep.entries, hstep.nodes, hstep.calls⟩, ?_⟩
  exact (KeyTable.get?_alike (fun _ _ ha => isEqual_becomes htexts ha h) hstep.entries).symm

theorem allocate_inStep {key key' : TypeKey} (h : r.KeyBecomes key key') :
    Mirrors r.InStep Eq (monadLift (allocate key) : Traced _)
      (monadLift (allocate key') : Traced _) := by
  rintro tr tr' hstep a tr₁ hrun
  cases hrun
  have hsize : tr'.state.nodes.size = tr.state.nodes.size := hstep.nodes.length_eq.symm
  have hid : NodeId.mk tr.state.nodes.size = ⟨tr'.state.nodes.size⟩ := congrArg NodeId.mk hsize.symm
  refine ⟨_, tr'.moveTo (allocated tr'.state key'), rfl, ⟨hstep.types, ?_, ?_, hstep.calls⟩, hid⟩
  · show List.Forall₂ _ (tr.state.keys.entries.push (key, ⟨tr.state.nodes.size⟩)).toList
      (tr'.state.keys.entries.push (key', ⟨tr'.state.nodes.size⟩)).toList
    rw [Array.toList_push, Array.toList_push]
    exact List.rel_append hstep.entries (.cons ⟨h, hid⟩ .nil)
  · show List.Forall₂ _ (tr.state.nodes.push .placeholder).toList
      (tr'.state.nodes.push .placeholder).toList
    rw [Array.toList_push, Array.toList_push]
    exact List.rel_append hstep.nodes (.cons (.refl _) .nil)

theorem finishNode_inStep (id : NodeId) {n n' : SchemaNode} (h : NodeBecomes n n') :
    Mirrors r.InStep Eq (monadLift (finishNode id n) : Traced _)
      (monadLift (finishNode id n') : Traced _) := by
  rintro tr tr' hstep a tr₁ hrun
  cases hrun
  refine ⟨(), tr'.moveTo (finished tr'.state id n'), rfl, ⟨hstep.types, hstep.entries, ?_,
    hstep.calls⟩, rfl⟩
  show List.Forall₂ _ (tr.state.nodes.setIfInBounds id.index n).toList
    (tr'.state.nodes.setIfInBounds id.index n').toList
  rw [Array.toList_setIfInBounds, Array.toList_setIfInBounds]
  exact forall₂_set h hstep.nodes id.index

theorem noted_inStep (t : TypeId) {m m' : Traced NodeId} (h : Mirrors r.InStep Eq m m') :
    Mirrors r.InStep Eq (Traced.noted t m) (Traced.noted t m') := by
  rintro tr tr' hstep a tr₁ hrun
  unfold Traced.noted at hrun
  cases hanswer : m tr with
  | none =>
    rw [hanswer] at hrun
    cases hrun
  | some p =>
    obtain ⟨id, tr₂⟩ := p
    rw [hanswer] at hrun
    cases hrun
    obtain ⟨_, tr₂', hrun', hstep₂, rfl⟩ := h tr tr' hstep a tr₂ hanswer
    refine ⟨a, tr₂'.note ⟨t, tr'.state, a, tr₂'.state⟩, ?_, ⟨hstep₂.types, hstep₂.entries,
      hstep₂.nodes, .cons ⟨rfl, rfl⟩ hstep₂.calls⟩, rfl⟩
    unfold Traced.noted
    rw [hrun']

end Operations

/-! ## The step of a pass

The description of a node in the order of the program, with related nodes on both sides. -/

section Step

variable {self self' : TypeId → Traced NodeId}

/-- Every type gets the same number after the renaming. -/
def BuildsInStep (r : u.Renaming) (self self' : TypeId → Traced NodeId) : Prop :=
  ∀ t, Mirrors r.InStep Eq (self t) (self' t)

/-! The steps of the builder one after another, each with the conditions that it needs: that
circles are kept for the lists, that words are kept for the texts, that texts are kept for
the keys. -/

theorem unionNodes_inStep (hself : r.BuildsInStep self self') (t : TypeId) (real : List TypeId) :
    Mirrors r.InStep Eq (unionNodes self t real) (unionNodes self' t real) := by
  unfold unionNodes
  by_cases h : real = [t]
  · rw [if_pos h, if_pos h]
    exact .pure rfl
  · rw [if_neg h, if_neg h]
    exact .mapM_same fun t _ => hself t

theorem elementNode_inStep (hself : r.BuildsInStep self self') (element : Option TypeId) :
    Mirrors r.InStep Eq (elementNode self element) (elementNode self' element) := by
  cases element with
  | none => exact .pure rfl
  | some t => exact (hself t).map fun id id' h => congrArg some h

variable (hcircles : r.KeepsCircles)

include hcircles

theorem describeMembers_inStep (hself : r.BuildsInStep self self') (fuel : Nat) (t : TypeId)
    {n n' : SchemaNode} (hn : NodeBecomes n n') :
    Mirrors r.InStep NodeBecomes (u.describeMembers fuel self t n)
      (r.target.describeMembers fuel self' t n') := by
  obtain ⟨name, displayName, rfl, hword⟩ := hn
  unfold describeMembers
  refine (ask_inStep (members_seen hcircles fuel t)).bind ?_
  rintro ms _ rfl
  refine Mirrors.bind (R := Eq) (.mapM_same fun m _ => ?_) ?_
  · refine (hself m.2).bind ?_
    rintro id _ rfl
    exact .pure rfl
  rintro properties _ rfl
  refine (ask_inStep (indexes_seen hcircles fuel t)).bind ?_
  rintro is _ rfl
  refine Mirrors.bind (R := Eq) (.mapM_same fun x _ => ?_) ?_
  · refine (hself x.key).bind ?_
    rintro key _ rfl
    refine (hself x.value).bind ?_
    rintro value _ rfl
    exact .pure rfl
  rintro indexes _ rfl
  exact .pure ⟨name, displayName, rfl, hword⟩

theorem describeDeclared_inStep (hself : r.BuildsInStep self self') (fuel : Nat) (s : Interner)
    (t : TypeId) {n n' : SchemaNode} (hn : NodeBecomes n n') {o o' : Option Origin}
    (horigin : Option.Rel OriginBecomes o o') :
    Mirrors r.InStep NodeBecomes (u.describeDeclared fuel self s t n o)
      (r.target.describeDeclared fuel self' (r.table s) t n' o') := by
  cases horigin with
  | none => exact .pure hn
  | @some o o' h =>
    have hnamed : NodeBecomes (u.nameNode s t o n) (r.target.nameNode (r.table s) t o' n') := by
      obtain ⟨name, displayName, rfl, hword⟩ := hn
      refine ⟨if o.builtin then name else some o'.name, displayName, ?_, hword⟩
      unfold nameNode
      simp only [h.kind, h.location, h.builtin, enumValues_table]
    have hisEnum : (r.target.nameNode (r.table s) t o' n').isEnum = (u.nameNode s t o n).isEnum := by
      obtain ⟨_, _, heq, -⟩ := hnamed
      rw [heq]
    unfold describeDeclared
    dsimp only
    rw [hisEnum, r.hasProperties_table s t h]
    split
    · exact describeMembers_inStep hcircles hself fuel t hnamed
    · exact .pure hnamed

variable (hwords : r.KeepsWords)

include hwords

theorem describe_inStep (hself : r.BuildsInStep self self') (fuel : Nat) (t : TypeId)
    (leaves : List TypeId) :
    Mirrors r.InStep NodeBecomes (u.describe fuel self t leaves)
      (r.target.describe fuel self' t leaves) := by
  have htable : Mirrors r.InStep (fun s s' => s' = r.table s)
      (monadLift (ask (Session.query fun s => s)) : Traced Interner)
      (monadLift (ask (Session.query fun s => s)) : Traced Interner) := query_inStep fun _ => rfl
  unfold describe
  refine (ask_inStep (display_seen hcircles hwords fuel t)).bind fun text text' hword => ?_
  refine htable.bind ?_
  rintro s _ rfl
  rw [realLeaves_table, element?_table]
  refine (unionNodes_inStep hself t _).bind ?_
  rintro unionOf _ rfl
  refine (elementNode_inStep hself _).bind ?_
  rintro arrayOf _ rfl
  have hnull : (r.table s).isNull = s.isNull := funext (r.isNull_table s)
  have hliteral : (r.table s).literal? = s.literal? := funext (r.literal?_table s)
  rw [hnull, hliteral]
  refine htable.bind ?_
  rintro s₂ _ rfl
  refine (describeDeclared_inStep hcircles hself fuel s₂ t ⟨none, text', rfl, hword⟩
    (r.originOf?_table s₂ t)).bind ?_
  rintro n _ ⟨name, displayName, rfl, hword⟩
  refine Mirrors.bind (R := Eq) (query_inStep fun s => (r.isNullable_table s t).symm) ?_
  rintro nullable _ rfl
  exact .pure ⟨name, displayName, rfl, hword⟩

variable (htexts : r.KeepsTexts)

include htexts

theorem buildStep_inStep (hself : r.BuildsInStep self self') (fuel : Nat) (t : TypeId) :
    Mirrors r.InStep Eq (u.buildStep fuel self t) (r.target.buildStep fuel self' t) := by
  unfold buildStep
  refine Mirrors.bind (R := Eq) (query_inStep fun s => (r.leaves_table s t).symm) ?_
  rintro leaves _ rfl
  refine (ask_inStep (keyOfBranches_seen hcircles hwords fuel leaves)).bind fun key key' hkey => ?_
  refine (known_inStep htexts hkey).bind ?_
  rintro found _ rfl
  cases found with
  | some id => exact .pure rfl
  | none =>
    refine (allocate_inStep hkey).bind ?_
    rintro id _ rfl
    refine (describe_inStep hcircles hwords hself fuel t leaves).bind fun n n' hn => ?_
    exact (finishNode_inStep id hn).bind fun _ _ _ => .pure rfl

/-- **Every type gets the same number after the renaming, with a node that differs in names only.** -/
theorem tracedNode_inStep : ∀ fuel, r.BuildsInStep (u.tracedNode fuel) (r.target.tracedNode fuel)
  | 0, _ => fun _ _ _ _ _ h => by cases h
  | fuel + 1, t => noted_inStep t (buildStep_inStep hcircles hwords htexts (tracedNode_inStep fuel) fuel t)

end Step

/-! ## Questions and passes

A pass may begin after any questions.  They are asked by handles, and handles are the same,
so each of them can be asked of the renamed universe too. -/

theorem looks_of_reaches {s s' : Interner} (hs : Relation.ReflTransGen u.Looks u.start s)
    (h : u.Reaches s s') : Relation.ReflTransGen u.Looks u.start s' :=
  reaches_induction (P := fun s => Relation.ReflTransGen u.Looks u.start s)
    (fun _ _ hs hlook => hs.tail hlook) hs h

theorem has_table {s : Interner} {t : TypeId} : (r.table s).Has t ↔ s.Has t := by
  unfold Interner.Has
  rw [size_table]

theorem run_of_seen {α β : Type} {R : α → β → Prop} {m : Session α} {m' : Session β}
    (h : Mirrors r.Seen R m m') {s s' : Interner} {a : α}
    (hs : Relation.ReflTransGen u.Looks u.start s) (hrun : m s = some (a, s')) :
    ∃ b, m' (r.table s) = some (b, r.table s') := by
  obtain ⟨b, _, hrun', ⟨-, rfl⟩, -⟩ := h s _ ⟨hs, rfl⟩ a s' hrun
  exact ⟨b, hrun'⟩

theorem reaches_of_asks (hcircles : r.KeepsCircles) (hwords : r.KeepsWords) {s s' : Interner}
    (hs : Relation.ReflTransGen u.Looks u.start s) (h : u.Asks s s') :
    r.target.Reaches (r.table s) (r.table s') := by
  cases h with
  | @declared fuel name found run =>
    unfold declared? at run
    cases hfind : u.find? name 0 with
    | none =>
      rw [hfind] at run
      cases run
      exact .refl
    | some id =>
      obtain ⟨d, hmem, hname⟩ := mem_declarations_of_find? hfind
      have hd := mem_declarations_iff.1 hmem
      rw [hfind] at run
      obtain ⟨t, s₁, run, hpure⟩ := bind_eq_some.1 run
      cases hpure
      obtain ⟨t', run'⟩ := run_of_seen (instantiate_seen hcircles fuel hd) hs run
      have hfind' := (r.find?_name (hname ▸ (r.fresh id d hd).1) 0).trans hfind
      have run'' : r.target.declared? fuel (r.name 0 name) (r.table s) =
          some (some t', r.table s') := by
        unfold declared?
        rw [hfind']
        exact bind_eq_some.2 ⟨t', _, run', rfl⟩
      exact .single (.declared run'')
  | exported run =>
    obtain ⟨_, run'⟩ := run_of_seen (exportedTypes_seen hcircles _) hs run
    exact .single (.exported run')
  | members ht run =>
    obtain ⟨_, run'⟩ := run_of_seen (members_seen hcircles _ _) hs run
    exact .single (.members (has_table.2 ht) run')
  | indexes ht run =>
    obtain ⟨_, run'⟩ := run_of_seen (indexes_seen hcircles _ _) hs run
    exact .single (.indexes (has_table.2 ht) run')
  | display ht run =>
    obtain ⟨_, run'⟩ := run_of_seen (display_seen hcircles hwords _ _) hs run
    exact .single (.display (has_table.2 ht) run')
  | key hts run =>
    obtain ⟨_, run'⟩ := run_of_seen (keyOfBranches_seen hcircles hwords _ _) hs run
    exact .single (.key (fun t ht => has_table.2 (hts t ht)) run')

theorem reaches_table (hcircles : r.KeepsCircles) (hwords : r.KeepsWords) {s s' : Interner}
    (hs : Relation.ReflTransGen u.Looks u.start s) (h : u.Reaches s s') :
    r.target.Reaches (r.table s) (r.table s') := by
  induction h with
  | refl => exact .refl
  | tail hreach hask ih => exact ih.trans (reaches_of_asks hcircles hwords (looks_of_reaches hs hreach) hask)

/-- **Every pass has its counterpart after the renaming.** -/
theorem pass_inStep (hcircles : r.KeepsCircles) (hwords : r.KeepsWords) (htexts : r.KeepsTexts)
    {tr : Trace} (pass : u.Pass tr) : ∃ tr', r.target.Pass tr' ∧ r.InStep tr tr' := by
  induction pass with
  | @start types h =>
    have hreaches := reaches_table hcircles hwords .refl h
    rw [← start_target] at hreaches
    exact ⟨_, .start hreaches, ⟨⟨looks_of_reaches .refl h, rfl⟩, .nil, .nil, .nil⟩⟩
  | @ask tr types _ asked ih =>
    obtain ⟨tr', pass', hstep⟩ := ih
    have hreaches := reaches_table hcircles hwords hstep.types.looks asked
    rw [← hstep.types.table] at hreaches
    exact ⟨_, pass'.ask hreaches, ⟨⟨looks_of_reaches hstep.types.looks asked, rfl⟩, hstep.entries,
      hstep.nodes, hstep.calls⟩⟩
  | @build tr tr₁ fuel t id _ ht run ih =>
    obtain ⟨tr', pass', hstep⟩ := ih
    obtain ⟨_, tr₁', run', hstep₁, -⟩ :=
      tracedNode_inStep hcircles hwords htexts fuel t tr tr' hstep id tr₁ run
    have ht' : tr'.types.Has t := by
      rw [hstep.types.table]
      exact has_table.2 ht
    exact ⟨tr₁', pass'.build ht' run', hstep₁⟩

/-- **The schema of the exported declarations has its counterpart after the renaming.** -/
theorem tracedSchema?_inStep (hcircles : r.KeepsCircles) (hwords : r.KeepsWords)
    (htexts : r.KeepsTexts) {fuel : Nat} {tr : Trace} (h : u.tracedSchema? fuel = some tr) :
    ∃ tr', r.target.tracedSchema? fuel = some tr' ∧ r.InStep tr tr' := by
  unfold tracedSchema? at h ⊢
  obtain ⟨⟨exported, types⟩, hexported, h⟩ := Option.bind_eq_some_iff.1 h
  obtain ⟨⟨ids, trace⟩, hnodes, h⟩ := Option.bind_eq_some_iff.1 h
  cases h
  obtain ⟨_, types', hexported', htypes, rfl⟩ :=
    exportedTypes_seen hcircles fuel _ _ (.start r) exported types hexported
  have hall : Mirrors r.InStep Eq (u.tracedNodes fuel exported) (r.target.tracedNodes fuel exported) :=
    .mapM_same fun t _ => tracedNode_inStep hcircles hwords htexts fuel t
  have hstart : r.InStep ⟨.start types, [], []⟩ ⟨.start types', [], []⟩ :=
    ⟨htypes, .nil, .nil, .nil⟩
  obtain ⟨_, tr', hnodes', hstep, rfl⟩ := hall _ _ hstart ids tr hnodes
  exact ⟨tr', Option.bind_eq_some_iff.2 ⟨(exported, types'), hexported',
    Option.bind_eq_some_iff.2 ⟨(ids, tr'), hnodes', rfl⟩⟩, hstep⟩

end Renaming
end Universe
end TypedJson
