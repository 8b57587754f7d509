import TypedJson.Proofs.RenamedResolution
/-!
# Questions after a renaming

The members and the index signatures of a handle are, after a renaming, those of the renamed table
(`Renaming.members_asking`, `Renaming.indexes_asking`).

Lists are computed between questions, when no alias is under way; that fixes the parameter
of `Keeping`, and the recursion over the fuel is as before.  Names of members are texts that
the renaming leaves alone, so the lists of the renamed table are the same lists.
-/
namespace TypedJson
namespace Universe
namespace Renaming

variable {u : Universe} {r : u.Renaming} {α : Type}

/-- Between questions no alias is under way. -/
abbrev Asking (r : u.Renaming) (m m' : Session α) : Prop := r.Keeping [] m m'

theorem query_asking {f f' : Interner → α} (h : ∀ s, f' (r.table s) = f s) :
    r.Asking (Session.query f) (Session.query f') := by
  rintro s _ ⟨hs, he, rfl⟩ a s₁ hrun
  cases hrun
  exact ⟨_, _, rfl, ⟨hs, he, rfl⟩, (h s).symm⟩

/-! Between questions whatever is looked up may be resolved, so it is enough that the texts lie
within what the table is grounded in. -/

theorem resolve_asking (hcircles : r.KeepsCircles) (fuel : Nat) {scope : Scope} {e : TypeExpr}
    (h : u.Within scope e) :
    r.Asking (u.resolve fuel scope e) (r.target.resolve fuel scope (r.text scope.unit e)) :=
  resolve_alike hcircles fuel [] scope e h (guarded_nil u scope e)

theorem resolveMembers_asking (hcircles : r.KeepsCircles) (fuel : Nat) {scope : Scope}
    {members : List Member} {indexes : List Index} (h : u.Within scope (.object members indexes)) :
    r.Asking (resolveMembers (u.resolve fuel) scope members)
      (resolveMembers (r.target.resolve fuel) scope (r.members scope.unit members)) := by
  refine .mapM_map fun m hm => ?_
  have htype : r.Asking (memberType (u.resolve fuel) scope m)
      (memberType (r.target.resolve fuel) scope (m.map (r.text scope.unit))) := by
    obtain ⟨name, optional, method, type⟩ := m
    unfold memberType
    cases method with
    | true => exact .pure rfl
    | false =>
      cases type with
      | none => exact .pure rfl
      | some e =>
        have hpart : u.Within scope e := h.part fun _ _ hn => .member rfl hm rfl rfl hn
        exact (resolve_asking hcircles fuel hpart).map fun t t' ht => congrArg some ht
  refine htype.bind ?_
  rintro type _ rfl
  exact .pure rfl

theorem resolveIndexes_asking (hcircles : r.KeepsCircles) (fuel : Nat) {scope : Scope}
    {members : List Member} {indexes : List Index} (h : u.Within scope (.object members indexes)) :
    r.Asking (resolveIndexes (u.resolve fuel) scope indexes)
      (resolveIndexes (r.target.resolve fuel) scope (r.indexes scope.unit indexes)) := by
  refine .mapM_map fun x hx => ?_
  have hkey : u.Within scope x.key := h.part fun _ _ hn => .key rfl hx hn
  have hvalue : u.Within scope x.value := h.part fun _ _ hn => .value rfl hx hn
  refine (resolve_asking hcircles fuel hkey).bind ?_
  rintro key _ rfl
  refine (resolve_asking hcircles fuel hvalue).bind ?_
  rintro value _ rfl
  exact .pure rfl

theorem bases_asking {listOf listOf' : TypeId → Session α} (hcircles : r.KeepsCircles) (fuel : Nat)
    {scope : Scope} {bases : List TypeExpr} (h : ∀ base ∈ bases, u.Within scope base)
    (hlist : ∀ t, r.Asking (listOf t) (listOf' t)) :
    r.Asking (bases.mapM fun base => do listOf (← u.resolve fuel scope base))
      ((bases.map (r.text scope.unit)).mapM fun base => do
        listOf' (← r.target.resolve fuel scope base)) := by
  refine .mapM_map fun base hbase => ?_
  refine (resolve_asking hcircles fuel (h base hbase)).bind ?_
  rintro t _ rfl
  exact hlist t

theorem computeMembers_asking (hcircles : r.KeepsCircles) (fuel : Nat)
    {membersOf membersOf' : TypeId → Session (List TypeMember)}
    (hof : ∀ t, r.Asking (membersOf t) (membersOf' t)) (t : TypeId) :
    r.Asking (u.computeMembers (u.resolve fuel) membersOf t)
      (r.target.computeMembers (r.target.resolve fuel) membersOf' t) := by
  intro s s' hrel
  have hs := hrel.grounded
  obtain rfl := hrel.table
  unfold computeMembers
  intro a s₁ hrun
  rw [Session.query_bind] at hrun ⊢
  rw [data_table, interface?_target]
  revert a s₁
  cases hinterface : u.interface? (s.data t) with
  | some found =>
    obtain ⟨scope, bases, members, indexes⟩ := found
    obtain ⟨hobject, hbases⟩ := interface?_within hs hinterface
    refine Mirrors.bind (resolveMembers_asking hcircles fuel hobject) ?_ s _ hrel
    rintro own _ rfl
    refine (bases_asking hcircles fuel hbases hof).bind ?_
    rintro inherited _ rfl
    exact .pure rfl
  | none =>
    have hexplained := hs.data t
    cases hdata : s.data t with
    | object origin shape =>
      rw [hdata] at hexplained
      cases shape with
      | literal members indexes scope =>
        exact resolveMembers_asking hcircles fuel hexplained s _ hrel
      | intersection parts =>
        refine Mirrors.bind (Mirrors.mapM_same fun part _ => hof part) ?_ s _ hrel
        rintro lists _ rfl
        exact .pure rfl
      | record key value =>
        refine Mirrors.bind (query_asking fun s => ?_) ?_ s _ hrel
        · exact congrArg (·.getD []) (r.literalKeys?_table s key)
        · rintro names _ rfl
          exact .pure rfl
    | form | namedUnion | reserved => exact Mirrors.pure rfl s _ hrel

/-- The lists of a type are noted in its slot. -/
theorem update_asking {f : Interner → Interner} (hgrounded : ∀ s, u.Grounded s → u.Grounded (f s))
    (hexpanding : ∀ s, (f s).expanding = s.expanding) (htable : ∀ s, f (r.table s) = r.table (f s)) :
    r.Asking (Session.update f) (Session.update f) := by
  rintro s _ ⟨hs, he, rfl⟩ a s₁ hrun
  cases hrun
  exact ⟨(), _, rfl, ⟨hgrounded s hs, (hexpanding s).trans he, htable s⟩, rfl⟩

theorem members_asking (hcircles : r.KeepsCircles) : ∀ (fuel : Nat) (t : TypeId),
    r.Asking (u.members fuel t) (r.target.members fuel t)
  | 0, _ => fun _ _ _ _ _ h => by cases h
  | fuel + 1, t => by
    have hset : ∀ ms, r.Asking (Session.update (·.setMembers t ms)) (Session.update (·.setMembers t ms)) :=
      fun ms => update_asking (fun s hs => hs.setMembers t ms) (fun _ => rfl)
        fun s => r.setMembers_table s t ms
    unfold Universe.members
    refine (query_asking fun s => r.members?_table s t).bind ?_
    rintro found _ rfl
    cases found with
    | some ms => exact .pure rfl
    | none =>
      refine (hset []).bind fun _ _ _ => ?_
      refine (computeMembers_asking hcircles fuel (members_asking hcircles fuel) t).bind ?_
      rintro ms _ rfl
      exact (hset ms).bind fun _ _ _ => .pure rfl

theorem computeIndexes_asking (hcircles : r.KeepsCircles) (fuel : Nat)
    {indexesOf indexesOf' : TypeId → Session (List TypeIndex)}
    (hof : ∀ t, r.Asking (indexesOf t) (indexesOf' t)) (t : TypeId) :
    r.Asking (u.computeIndexes (u.resolve fuel) indexesOf t)
      (r.target.computeIndexes (r.target.resolve fuel) indexesOf' t) := by
  intro s s' hrel
  have hs := hrel.grounded
  obtain rfl := hrel.table
  unfold computeIndexes
  intro a s₁ hrun
  rw [Session.query_bind] at hrun ⊢
  rw [data_table, interface?_target]
  revert a s₁
  cases hinterface : u.interface? (s.data t) with
  | some found =>
    obtain ⟨scope, bases, members, indexes⟩ := found
    obtain ⟨hobject, hbases⟩ := interface?_within hs hinterface
    refine Mirrors.bind (resolveIndexes_asking hcircles fuel hobject) ?_ s _ hrel
    rintro own _ rfl
    refine (bases_asking hcircles fuel hbases hof).bind ?_
    rintro inherited _ rfl
    exact .pure rfl
  | none =>
    have hexplained := hs.data t
    cases hdata : s.data t with
    | object origin shape =>
      rw [hdata] at hexplained
      cases shape with
      | literal members indexes scope =>
        exact resolveIndexes_asking hcircles fuel hexplained s _ hrel
      | intersection parts =>
        refine Mirrors.bind (Mirrors.mapM_same fun part _ => hof part) ?_ s _ hrel
        rintro lists _ rfl
        exact .pure rfl
      | record key value =>
        refine Mirrors.bind (query_asking fun s => r.literalKeys?_table s key) ?_ s _ hrel
        rintro names _ rfl
        cases names with
        | some _ => exact .pure rfl
        | none => exact .pure rfl
    | form | namedUnion | reserved => exact Mirrors.pure rfl s _ hrel

theorem indexes_asking (hcircles : r.KeepsCircles) : ∀ (fuel : Nat) (t : TypeId),
    r.Asking (u.indexes fuel t) (r.target.indexes fuel t)
  | 0, _ => fun _ _ _ _ _ h => by cases h
  | fuel + 1, t => by
    have hset : ∀ is, r.Asking (Session.update (·.setIndexes t is)) (Session.update (·.setIndexes t is)) :=
      fun is => update_asking (fun s hs => hs.setIndexes t is) (fun _ => rfl)
        fun s => r.setIndexes_table s t is
    unfold Universe.indexes
    refine (query_asking fun s => r.indexes?_table s t).bind ?_
    rintro found _ rfl
    cases found with
    | some is => exact .pure rfl
    | none =>
      refine (hset []).bind fun _ _ _ => ?_
      refine (computeIndexes_asking hcircles fuel (indexes_asking hcircles fuel) t).bind ?_
      rintro is _ rfl
      exact (hset is).bind fun _ _ _ => .pure rfl

end Renaming
end Universe
end TypedJson
