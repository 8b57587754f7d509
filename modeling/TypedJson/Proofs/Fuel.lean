import TypedJson.Proofs.Resolution
import TypedJson.Types.Key
/-!
# Fuel

More fuel never changes an answer: a question that is answered is answered the same with
one more step of fuel, hence with any larger amount.  So two answers to one question at
one table are equal however much fuel each of them was given.

A resolver is covered by another one that gives every result it gives.  All functions that
take a resolver are monotone in this order, one lemma each, and by induction on the fuel
every amount is covered by the next.  Where the program runs with a fixed amount of fuel, a
statement about it can then be made for some amount, and holds for all that suffice.
-/
namespace TypedJson
namespace Universe

/-- The second resolver gives every result that the first gives. -/
def ResolverCovered (self self' : Resolver) : Prop :=
  ∀ scope e, CoveredBy (self scope e) (self' scope e)

section Resolution

variable {self self' : Resolver}

/-! One lemma for each function of the resolver: the same branch is taken on both sides, since
only what the resolver answers may differ, and the branches do not depend on that. -/

theorem expandTransparent_covered (h : ResolverCovered self self') (name : String)
    (inst : Instance) (scope : Scope) (e : TypeExpr) :
    CoveredBy (expandTransparent self name inst scope e)
      (expandTransparent self' name inst scope e) := by
  unfold expandTransparent
  refine .bind (.refl _) fun again => ?_
  by_cases hagain : again = true
  · rw [if_pos hagain, if_pos hagain]
    exact .refl _
  · rw [if_neg hagain, if_neg hagain]
    exact .bind (.refl _) fun _ => .bind (h scope e) fun t => .refl _

theorem expandAlias_covered (h : ResolverCovered self self') (name : String)
    (params : List String) (unit : Nat) (body : TypeExpr) (inst : Instance) :
    CoveredBy (expandAlias self name params unit body inst)
      (expandAlias self' name params unit body inst) := by
  unfold expandAlias
  refine .bind (.refl _) fun found => ?_
  cases found with
  | some t => exact .refl _
  | none =>
    have htransparent := expandTransparent_covered h name inst ⟨unit, params.zip inst.args⟩
    cases body with
    | union branches =>
      exact .bind (.refl _) fun t => .bind (.mapM branches (h _)) fun ts => .refl _
    | object members indexes => exact .refl _
    | intersection parts =>
      exact .bind (.refl _) fun t => .bind (.mapM parts (h _)) fun ts => .refl _
    | name n => exact htransparent _
    | generic n es => exact htransparent _
    | array e => exact htransparent _
    | literal value => exact htransparent _

theorem instantiate_covered (u : Universe) (h : ResolverCovered self self') (id : DeclarationId)
    (args : List TypeId) :
    CoveredBy (u.instantiate self id args) (u.instantiate self' id args) := by
  unfold instantiate
  split
  · exact .refl _
  · refine .bind (.refl _) fun missing => ?_
    split
    · exact .refl _
    · exact .refl _
    · exact expandAlias_covered h _ _ _ _ _

theorem resolveName_covered (u : Universe) (h : ResolverCovered self self') (scope : Scope)
    (name : String) (args : List TypeExpr) :
    CoveredBy (u.resolveName self scope name args) (u.resolveName self' scope name args) := by
  unfold resolveName
  split
  · exact .refl _
  · split
    · exact .refl _
    · by_cases htrue : name = "true"
      · rw [if_pos htrue, if_pos htrue]
        exact .refl _
      rw [if_neg htrue, if_neg htrue]
      by_cases hfalse : name = "false"
      · rw [if_pos hfalse, if_pos hfalse]
        exact .refl _
      rw [if_neg hfalse, if_neg hfalse]
      refine .bind (.mapM args (h scope)) fun ts => ?_
      split
      · exact instantiate_covered u h _ ts
      · exact .refl _

theorem resolveStep_covered (u : Universe) (h : ResolverCovered self self') :
    ResolverCovered (u.resolveStep self) (u.resolveStep self') := by
  intro scope e
  cases e with
  | name n => exact resolveName_covered u h scope n []
  | generic n args => exact resolveName_covered u h scope n args
  | array e => exact .bind (h scope e) fun t => .refl _
  | union branches => exact .bind (.mapM branches (h scope)) fun ts => .refl _
  | intersection parts => exact .bind (.mapM parts (h scope)) fun ts => .refl _
  | literal value => exact .refl _
  | object members indexes => exact .refl _

theorem resolveMembers_covered (h : ResolverCovered self self') (scope : Scope)
    (members : List Member) :
    CoveredBy (resolveMembers self scope members) (resolveMembers self' scope members) := by
  refine .mapM members fun m => ?_
  refine .bind ?_ fun type => .refl _
  unfold memberType
  split
  · exact .map some (h scope _)
  · exact .refl _

theorem resolveIndexes_covered (h : ResolverCovered self self') (scope : Scope)
    (indexes : List Index) :
    CoveredBy (resolveIndexes self scope indexes) (resolveIndexes self' scope indexes) :=
  .mapM indexes fun x => .bind (h scope x.key) fun _ => .bind (h scope x.value) fun _ => .refl _

/-! The lists use the resolver for their texts, and are asked for again for bases and parts. -/

theorem computeMembers_covered (u : Universe) (h : ResolverCovered self self')
    {membersOf membersOf' : TypeId → Session (List TypeMember)}
    (hof : ∀ t, CoveredBy (membersOf t) (membersOf' t)) (t : TypeId) :
    CoveredBy (u.computeMembers self membersOf t) (u.computeMembers self' membersOf' t) := by
  unfold computeMembers
  refine .bind (.refl _) fun data => ?_
  split
  · refine .bind (resolveMembers_covered h _ _) fun own => ?_
    exact .bind (.mapM _ fun base => .bind (h _ base) hof) fun inherited => .refl _
  · split
    · exact resolveMembers_covered h _ _
    · exact .bind (.mapM _ hof) fun lists => .refl _
    · exact .refl _
    · exact .refl _

theorem computeIndexes_covered (u : Universe) (h : ResolverCovered self self')
    {indexesOf indexesOf' : TypeId → Session (List TypeIndex)}
    (hof : ∀ t, CoveredBy (indexesOf t) (indexesOf' t)) (t : TypeId) :
    CoveredBy (u.computeIndexes self indexesOf t) (u.computeIndexes self' indexesOf' t) := by
  unfold computeIndexes
  refine .bind (.refl _) fun data => ?_
  split
  · refine .bind (resolveIndexes_covered h _ _) fun own => ?_
    exact .bind (.mapM _ fun base => .bind (h _ base) hof) fun inherited => .refl _
  · split
    · exact resolveIndexes_covered h _ _
    · exact .bind (.mapM _ hof) fun lists => .refl _
    · exact .refl _
    · exact .refl _

end Resolution

/-! ## One more step

Each function hands its fuel to the ones below it, so the induction is on the fuel for all
of them in the order in which they call one another. -/

theorem resolve_covered (u : Universe) : ∀ fuel,
    ResolverCovered (u.resolve fuel) (u.resolve (fuel + 1))
  | 0 => fun _ _ _ _ h => by cases h
  | fuel + 1 => resolveStep_covered u (resolve_covered u fuel)

theorem members_covered (u : Universe) : ∀ (fuel : Nat) (t : TypeId),
    CoveredBy (u.members fuel t) (u.members (fuel + 1) t)
  | 0, _ => fun _ _ h => by cases h
  | fuel + 1, t => by
    rw [members.eq_def u (fuel + 1), members.eq_def u (fuel + 1 + 1)]
    refine .bind (.refl _) fun found => ?_
    cases found with
    | some ms => exact .refl _
    | none =>
      refine .bind (.refl _) fun _ => ?_
      exact .bind (computeMembers_covered u (resolve_covered u fuel) (members_covered u fuel) t)
        fun ms => .refl _

theorem indexes_covered (u : Universe) : ∀ (fuel : Nat) (t : TypeId),
    CoveredBy (u.indexes fuel t) (u.indexes (fuel + 1) t)
  | 0, _ => fun _ _ h => by cases h
  | fuel + 1, t => by
    rw [indexes.eq_def u (fuel + 1), indexes.eq_def u (fuel + 1 + 1)]
    refine .bind (.refl _) fun found => ?_
    cases found with
    | some is => exact .refl _
    | none =>
      refine .bind (.refl _) fun _ => ?_
      exact .bind (computeIndexes_covered u (resolve_covered u fuel) (indexes_covered u fuel) t)
        fun is => .refl _

/-! The text of an inline object shows its members, and a key may be a text; so texts come
after the lists, and keys after the texts. -/

theorem genericText_covered (u : Universe) {displayOf displayOf' : TypeId → Session String}
    (h : ∀ t, CoveredBy (displayOf t) (displayOf' t)) (inst : Instance) :
    CoveredBy (u.genericText displayOf inst) (u.genericText displayOf' inst) := by
  unfold genericText
  by_cases hargs : inst.args.isEmpty = true
  · rw [if_pos hargs, if_pos hargs]
    exact .refl _
  · rw [if_neg hargs, if_neg hargs]
    exact .bind (.mapM inst.args h) fun args => .refl _

theorem memberText_covered {displayOf displayOf' : TypeId → Session String}
    (h : ∀ t, CoveredBy (displayOf t) (displayOf' t)) (m : TypeMember) :
    CoveredBy (memberText displayOf m) (memberText displayOf' m) := by
  unfold memberText
  cases m.type with
  | none => exact .refl _
  | some t => exact .bind (h t) fun text => .refl _

theorem display_covered (u : Universe) : ∀ (fuel : Nat) (t : TypeId),
    CoveredBy (u.display fuel t) (u.display (fuel + 1) t)
  | 0, _ => fun _ _ h => by cases h
  | fuel + 1, t => by
    have hof := display_covered u fuel
    rw [display.eq_def u (fuel + 1), display.eq_def u (fuel + 1 + 1)]
    refine .bind (.refl _) fun data => ?_
    split
    · exact .refl _
    · exact .refl _
    · exact .refl _
    · exact .refl _
    · exact .bind (hof _) fun inner => .refl _
    · exact genericText_covered u hof _
    · exact .bind (.mapM _ hof) fun texts => .refl _
    · exact genericText_covered u hof _
    · exact genericText_covered u hof _
    · exact .bind (.mapM _ hof) fun texts => .refl _
    · refine .bind (members_covered u fuel t) fun ms => ?_
      exact .bind (.mapM ms (memberText_covered hof)) fun fields => .refl _
    · exact .refl _

theorem keyWithin_covered (u : Universe) : ∀ (fuel : Nat) (opened : List TypeId) (t : TypeId),
    CoveredBy (u.keyWithin fuel opened t) (u.keyWithin (fuel + 1) opened t)
  | 0, _, _ => fun _ _ h => by cases h
  | fuel + 1, opened, t => by
    have htext : CoveredBy (do pure (TypeKey.opaqueText (← u.display fuel t)))
        (do pure (TypeKey.opaqueText (← u.display (fuel + 1) t))) :=
      .bind (display_covered u fuel t) fun text => .refl _
    rw [keyWithin.eq_def u (fuel + 1), keyWithin.eq_def u (fuel + 1 + 1)]
    refine .bind (.refl _) fun data => ?_
    split
    · exact .refl _
    · exact .refl _
    · exact .refl _
    · exact .refl _
    · split
      · by_cases hopened : opened.contains t = true
        · rw [if_pos hopened, if_pos hopened]
          split
          · exact .refl _
          · exact htext
        · rw [if_neg hopened, if_neg hopened]
          exact .bind (.mapM _ (keyWithin_covered u fuel (t :: opened))) fun keys => .refl _
      · exact htext
      · split
        · exact .refl _
        · exact .bind (.mapM _ (keyWithin_covered u fuel opened)) fun keys => .refl _

theorem keyOfBranches_covered (u : Universe) (fuel : Nat) (ts : List TypeId) :
    CoveredBy (u.keyOfBranches fuel ts) (u.keyOfBranches (fuel + 1) ts) := by
  unfold keyOfBranches
  split
  · exact .refl _
  · exact keyWithin_covered u fuel [] _
  · exact .bind (.mapM _ (keyWithin_covered u fuel [])) fun keys => .refl _

/-- **The key of a list of branches does not depend on the fuel.** -/
theorem keyOfBranches_unique (u : Universe) {s : Interner} {ts : List TypeId} {fuel fuel' : Nat}
    {r r' : TypeKey × Interner} (h : u.keyOfBranches fuel ts s = some r)
    (h' : u.keyOfBranches fuel' ts s = some r') : r = r' :=
  CoveredBy.agree (m := fun fuel => u.keyOfBranches fuel ts)
    (fun fuel => keyOfBranches_covered u fuel ts) h h'

end Universe
end TypedJson
