import TypedJson.Proofs.Grounded
import TypedJson.Proofs.Questions
/-!
# Where unresolved types come from

Between questions no alias is under way, so whatever is looked up may be resolved, and every
table that questions lead to is grounded (`grounded_of_reaches`).  So each of its unresolved
types has the name of something unknown or of a circular alias (`unresolved_of_reaches`).

An alias is circular also if it leads back to itself by way of an alias with a handle of its
own.  It depends on the order of the questions whether that leaves it unresolved
(`listUniverse_order`).

The second half goes the other way: a declared name can be unresolved only if its
declaration is a transparent alias.  Every other declaration has a handle that is filled in
with something else, whatever its parts come to.
-/
namespace TypedJson
namespace Universe

variable {u : Universe}

/-- The question keeps the table grounded if no alias is under way. -/
def Asked (u : Universe) (m : Session α) : Prop :=
  ∀ s, u.Grounded s → s.expanding = [] → u.Keeps s m

namespace Asked

variable {α β : Type}

theorem pure (a : α) : u.Asked (Pure.pure a) := fun _ hs _ => .pure hs a

theorem bind {m : Session α} {f : α → Session β} (hm : u.Asked m) (hf : ∀ a, u.Asked (f a)) :
    u.Asked (m >>= f) :=
  fun s hs he => .bind (hm s hs he) fun a s' h' he' => hf a s' h' (he'.trans he)

theorem mapM {f : α → Session β} (hf : ∀ a, u.Asked (f a)) (as : List α) : u.Asked (as.mapM f) :=
  fun _ hs he => .mapM as hs fun a _ s' h' he' => hf a s' h' (he'.trans he)

theorem query (f : Interner → α) : u.Asked (Session.query f) := by
  rintro s hs - a s' hrun
  cases hrun
  exact ⟨hs, rfl, fun _ ht => ht⟩

end Asked

section Questions

variable {s : Interner}

theorem resolve_asked (fuel : Nat) {scope : Scope} {e : TypeExpr} (h : u.Within scope e) :
    u.Asked (u.resolve fuel scope e) := fun s hs he =>
  resolve_grounds u fuel s scope e hs h (by rw [he]; exact guarded_nil u scope e)

theorem resolveMembers_asked (fuel : Nat) {scope : Scope} {members : List Member}
    {indexes : List Index} (h : u.Within scope (.object members indexes)) :
    u.Asked (resolveMembers (u.resolve fuel) scope members) := by
  intro s hs he
  refine .mapM members hs fun m hm s' h' he' => ?_
  refine .bind ?_ fun type s'' h'' _ => .pure h'' _
  unfold memberType
  split
  · rename_i e hmethod htype
    have hpart : u.Within scope e := h.part fun _ _ hn => .member rfl hm hmethod htype hn
    exact .map some (resolve_asked fuel hpart s' h' (he'.trans he))
  · exact .pure h' none

theorem resolveIndexes_asked (fuel : Nat) {scope : Scope} {members : List Member}
    {indexes : List Index} (h : u.Within scope (.object members indexes)) :
    u.Asked (resolveIndexes (u.resolve fuel) scope indexes) := by
  intro s hs he
  refine .mapM indexes hs fun x hx s' h' he' => ?_
  have hkey : u.Within scope x.key := h.part fun _ _ hn => .key rfl hx hn
  have hvalue : u.Within scope x.value := h.part fun _ _ hn => .value rfl hx hn
  refine .bind (resolve_asked fuel hkey s' h' (he'.trans he)) fun key s₁ h₁ he₁ => ?_
  refine .bind (resolve_asked fuel hvalue s₁ h₁ (he₁.trans (he'.trans he))) fun value s₂ h₂ _ => ?_
  exact .pure h₂ _

/-! What a list is computed from lies within what the table is grounded in: the texts of an
interface by its declaration, those of an inline object by the table itself.  Bases and parts
are handles, and asking for their lists is a question again. -/

theorem interface?_within (hs : u.Grounded s) {t : TypeId} {scope : Scope}
    {bases : List TypeExpr} {members : List Member} {indexes : List Index}
    (h : u.interface? (s.data t) = some (scope, bases, members, indexes)) :
    u.Within scope (.object members indexes) ∧ ∀ base ∈ bases, u.Within scope base := by
  have hexplained := hs.data t
  obtain ⟨id, d, args, hdata, hd, hbody, rfl⟩ := exists_interface h
  rw [hdata] at hexplained
  have htexts : d.texts = .object members indexes :: bases := by rw [Declaration.texts, hbody]
  have hwithin := fun {e} (he : e ∈ d.texts) => within_text hd (hexplained d hd) he
  rw [htexts] at hwithin
  exact ⟨hwithin List.mem_cons_self, fun base hbase => hwithin (List.mem_cons_of_mem _ hbase)⟩

theorem bases_asked {α : Type} (fuel : Nat) {scope : Scope} {bases : List TypeExpr}
    (h : ∀ base ∈ bases, u.Within scope base) {listOf : TypeId → Session α}
    (hlist : ∀ t, u.Asked (listOf t)) :
    u.Asked (bases.mapM fun base => do listOf (← u.resolve fuel scope base)) :=
  fun _ hs he => .mapM bases hs fun base hbase s' h' he' =>
    (resolve_asked fuel (h base hbase)).bind hlist s' h' (he'.trans he)

theorem computeMembers_asked (fuel : Nat) {membersOf : TypeId → Session (List TypeMember)}
    (hof : ∀ t, u.Asked (membersOf t)) (t : TypeId) :
    u.Asked (u.computeMembers (u.resolve fuel) membersOf t) := by
  intro s hs he
  unfold computeMembers
  refine .query_bind _ ?_
  split
  · rename_i scope bases members indexes hinterface
    obtain ⟨hobject, hbases⟩ := interface?_within hs hinterface
    refine Asked.bind (resolveMembers_asked fuel hobject) (fun own => ?_) s hs he
    exact .bind (bases_asked fuel hbases hof) fun inherited => .pure _
  · split
    · rename_i origin members indexes scope hdata
      have hwithin := hs.data t
      rw [hdata] at hwithin
      exact resolveMembers_asked fuel hwithin s hs he
    · exact Asked.bind (.mapM hof _) (fun lists => .pure _) s hs he
    · exact Asked.bind (.query _) (fun names => .pure _) s hs he
    · exact .pure hs []

theorem computeIndexes_asked (fuel : Nat) {indexesOf : TypeId → Session (List TypeIndex)}
    (hof : ∀ t, u.Asked (indexesOf t)) (t : TypeId) :
    u.Asked (u.computeIndexes (u.resolve fuel) indexesOf t) := by
  intro s hs he
  unfold computeIndexes
  refine .query_bind _ ?_
  split
  · rename_i scope bases members indexes hinterface
    obtain ⟨hobject, hbases⟩ := interface?_within hs hinterface
    refine Asked.bind (resolveIndexes_asked fuel hobject) (fun own => ?_) s hs he
    exact .bind (bases_asked fuel hbases hof) fun inherited => .pure _
  · split
    · rename_i origin members indexes scope hdata
      have hwithin := hs.data t
      rw [hdata] at hwithin
      exact resolveIndexes_asked fuel hwithin s hs he
    · exact Asked.bind (.mapM hof _) (fun lists => .pure _) s hs he
    · refine Asked.bind (.query _) (fun names => ?_) s hs he
      split
      · exact .pure _
      · exact .pure _
    · exact .pure hs []

theorem members_asked (u : Universe) : ∀ (fuel : Nat) (t : TypeId), u.Asked (u.members fuel t)
  | 0, _ => fun _ _ _ _ _ h => by cases h
  | fuel + 1, t => by
    unfold members
    refine .bind (.query _) fun found => ?_
    cases found with
    | some ms => exact .pure ms
    | none =>
      have hset : ∀ ms, u.Asked (Session.update (·.setMembers t ms)) := by
        rintro ms s hs - _ s' hrun
        cases hrun
        exact ⟨hs.setMembers t ms, rfl, fun _ ht => (Interner.has_modifySlot s t _).2 ht⟩
      refine .bind (hset []) fun _ => ?_
      refine .bind (computeMembers_asked fuel (members_asked u fuel) t) fun ms => ?_
      exact .bind (hset ms) fun _ => .pure ms

theorem indexes_asked (u : Universe) : ∀ (fuel : Nat) (t : TypeId), u.Asked (u.indexes fuel t)
  | 0, _ => fun _ _ _ _ _ h => by cases h
  | fuel + 1, t => by
    unfold indexes
    refine .bind (.query _) fun found => ?_
    cases found with
    | some is => exact .pure is
    | none =>
      have hset : ∀ is, u.Asked (Session.update (·.setIndexes t is)) := by
        rintro is s hs - _ s' hrun
        cases hrun
        exact ⟨hs.setIndexes t is, rfl, fun _ ht => (Interner.has_modifySlot s t _).2 ht⟩
      refine .bind (hset []) fun _ => ?_
      refine .bind (computeIndexes_asked fuel (indexes_asked u fuel) t) fun is => ?_
      exact .bind (hset is) fun _ => .pure is

theorem instantiate_asked (fuel : Nat) {id : DeclarationId} {d : Declaration}
    (hd : u.declaration? id = some d) (args : List TypeId) :
    u.Asked (u.instantiate (u.resolve fuel) id args) := fun _ hs he =>
  instantiate_keeps (resolve_grounds u fuel) hs hd args (by rw [he]; exact leadTo_nil u id)

end Questions

/-! ## What questions lead to

The table before any question is grounded, as there is nothing in it but type parameters;
and each kind of question keeps it so.  The induction is on the series of questions. -/

theorem looks_keeps {s s' : Interner} (hs : u.Grounded s ∧ s.expanding = [])
    (h : u.Looks s s') : u.Grounded s' ∧ s'.expanding = [] := by
  have hend : ∀ {α : Type} {m : Session α} {a : α}, u.Asked m → m s = some (a, s') →
      u.Grounded s' ∧ s'.expanding = [] := by
    intro α m a hm hrun
    obtain ⟨h', he', -⟩ := hm s hs.1 hs.2 a s' hrun
    exact ⟨h', he'.trans hs.2⟩
  cases h with
  | instantiate hd run => exact hend (instantiate_asked _ hd []) run
  | members run => exact hend (members_asked u _ _) run
  | indexes run => exact hend (indexes_asked u _ _) run

theorem start_grounded (u : Universe) : u.Grounded u.start ∧ u.start.expanding = [] := by
  refine start_induction (P := fun s => u.Grounded s ∧ s.expanding = []) ⟨.empty u, rfl⟩
    fun s id position d _ _ ⟨hs, he⟩ => ?_
  have hkeeps := Keeps.intern hs (f := .param (.param id position)) trivial
  obtain ⟨h', he', -⟩ := hkeeps _ _ rfl
  exact ⟨h', he'.trans he⟩

theorem grounded_of_reaches {s : Interner} (h : u.Reaches u.start s) :
    u.Grounded s ∧ s.expanding = [] :=
  reaches_induction (fun _ _ => looks_keeps) (start_grounded u) h

/-! ## Declared names

What a name is resolved to is followed through the three kinds of declarations.  The example
below shows that the reason given for transparent aliases cannot be sharpened to the aliases
alone: with the same declarations, one order of questions leaves a type unresolved and
another does not. -/

theorem reserveInstance_answers {α : Type} (s : Interner) (inst : Instance) (parts : Session α)
    (data : α → TypeData) : After s (do
      let t ← reserveInstance inst
      let a ← parts
      Session.update (·.define t (data a))
      pure t) fun t s' => (∃ a, s'.data t = data a) ∨ s'.data t = .reserved := by
  intro t s₃ hrun
  obtain ⟨t', s₁, -, hrun⟩ := bind_eq_some.1 hrun
  obtain ⟨a, s₂, -, hrun⟩ := bind_eq_some.1 hrun
  cases hrun
  by_cases ht : s₂.Has t
  · exact .inl ⟨a, by rw [Interner.data_define ht, if_pos rfl]⟩
  · exact .inr (Interner.data_of_not_has fun h => ht ((Interner.has_modifySlot s₂ t _).1 h))

/-- **Only a transparent alias can stand for an unresolved type.** -/
theorem instantiate_answers {self : Resolver} {s : Interner} (hs : u.Grounded s)
    {id : DeclarationId} {d : Declaration} (hd : u.declaration? id = some d)
    (hnamed : ¬ d.IsTransparent) (args : List TypeId) :
    After s (u.instantiate self id args) fun t s' => ∀ n, s'.data t ≠ .form (.unresolved n) := by
  have hreference : ∀ s (inst : Instance), After s (Session.intern (.reference inst))
      fun t s' => ∀ n, s'.data t ≠ .form (.unresolved n) := fun s inst =>
    (intern_answers s _).mono fun t s' hdata n hn => by
      rw [hdata] at hn
      cases hn
  have hfilled : ∀ {α : Type} s inst (parts : Session α) (data : α → TypeData),
      (∀ a n, data a ≠ .form (.unresolved n)) → After s (do
        let t ← reserveInstance inst
        let a ← parts
        Session.update (·.define t (data a))
        pure t) fun t s' => ∀ n, s'.data t ≠ .form (.unresolved n) := by
    intro α s inst parts data hnot
    refine (reserveInstance_answers s inst parts data).mono fun t s' hdata n hn => ?_
    rcases hdata with ⟨a, hdata⟩ | hdata
    · exact hnot a n (hdata.symm.trans hn)
    · rw [hdata] at hn
      cases hn
  unfold instantiate
  rw [hd]
  refine After.bind (missing_keeps hs id _) fun missing s₁ ⟨h₁, _⟩ => ?_
  cases hbody : d.body with
  | interface bases members indexes => exact hreference s₁ _
  | enum members => exact hreference s₁ _
  | typeAlias body =>
    have hstructure : body.isStructure ≠ false := fun h => hnamed ⟨body, hbody, h⟩
    unfold expandAlias
    refine After.bind (P := fun found s' => s' = s₁ ∧ found = s₁.instance?
      ⟨.declared id, args.take d.typeParams.length ++ missing⟩) ?_ fun found s₂ ⟨heq, hfound⟩ => ?_
    · rintro found s₂ hrun
      cases hrun
      exact ⟨rfl, rfl⟩
    subst heq
    cases found with
    | some t =>
      exact .pure (h₁.named _ t id d (Interner.mem_of_instance? hfound.symm) rfl hd hnamed).2
    | none =>
      cases body with
      | union branches => exact hfilled _ _ _ _ fun _ _ h => by cases h
      | object members indexes =>
        exact hfilled _ _ (pure ())
          (fun _ => .object _ (.literal members indexes _)) fun _ _ h => by cases h
      | intersection parts => exact hfilled _ _ _ _ fun _ _ h => by cases h
      | name | generic | array | literal => exact absurd rfl hstructure

/-- **Why a type is unresolved.**  Whatever has been asked, in whatever order, each unresolved
type has the name of something unknown, or that of a transparent alias which leads back to
itself.  And a name that has a declaration stands for an unresolved type only if that is a
transparent alias. -/
theorem unresolved_of_reaches {s : Interner} (h : u.Reaches u.start s) :
    (∀ t n, s.data t = .form (.unresolved n) → u.Unknown n ∨ u.Circular n) ∧
    ∀ fuel name unit id args t s', u.find? name unit = some id →
      u.instantiate (u.resolve fuel) id args s = some (t, s') →
      ∀ n, s'.data t = .form (.unresolved n) →
        (u.Unknown n ∨ u.Circular n) ∧ ∃ d, u.declaration? id = some d ∧ d.IsTransparent := by
  obtain ⟨hs, he⟩ := grounded_of_reaches h
  have hreason : ∀ {s}, u.Grounded s → ∀ t n, s.data t = .form (.unresolved n) → u.Degrades n := by
    intro s hs t n hn
    have hexplained := hs.data t
    rw [hn] at hexplained
    exact hexplained
  refine ⟨hreason hs, ?_⟩
  intro fuel name unit id args t s' hfind hrun n hn
  obtain ⟨d, hmem, -⟩ := mem_declarations_of_find? hfind
  have hd := mem_declarations_iff.1 hmem
  refine ⟨hreason (instantiate_asked fuel hd args s hs he t s' hrun).1 t n hn, d, hd, ?_⟩
  by_contra hnamed
  exact instantiate_answers hs hd hnamed args t s' hrun n hn

/-- One unit: an alias of an array and an alias of a union that mention each other. -/
def listUniverse : Universe where
  units := [⟨"list.ts", [
    { name := "List", exported := true, line := none, typeParams := []
      body := .typeAlias (.array (.name "Item")) },
    { name := "Item", exported := true, line := none, typeParams := []
      body := .typeAlias (.union [.name "string", .name "List"]) }]⟩]
  distinct := by decide

/-- Asked for in source order, the list is left unresolved in its items, as it leads back to
itself. -/
theorem listUniverse_unresolved : ∃ s t, listUniverse.Reaches listUniverse.start s ∧
    s.data t = .form (.unresolved "List") ∧ listUniverse.Circular "List" := by
  have hrun : (listUniverse.exportedTypes 6 listUniverse.start).map
      (fun r => (r.2.find? (.unresolved "List")).isSome) = some true := by decide +kernel
  obtain ⟨⟨ts, s⟩, hexported, hfound⟩ := Option.map_eq_some_iff.1 hrun
  obtain ⟨t, ht⟩ := Option.isSome_iff_exists.1 hfound
  have hreach : listUniverse.Reaches listUniverse.start s := .single (.exported hexported)
  have hdata := (Interner.data_of_find? ht).2
  refine ⟨s, t, hreach, hdata, ?_⟩
  rcases (unresolved_of_reaches hreach).1 t "List" hdata with hunknown | hcircular
  · exact absurd rfl (hunknown.notDeclared ⟨0, 0⟩ _ rfl)
  · exact hcircular

/-- The declaration is a transparent alias. -/
def TransparentAt (u : Universe) (id : DeclarationId) : Prop :=
  ∃ d, u.declaration? id = some d ∧ d.IsTransparent

theorem listUniverse_transparent {id : DeclarationId} (h : listUniverse.TransparentAt id) :
    id = ⟨0, 0⟩ := by
  obtain ⟨d, hd, body, hbody, hopen⟩ := h
  have hmem : (id, d) ∈ listUniverse.declarations := mem_declarations_iff.2 hd
  rcases List.mem_cons.1 hmem with heq | hmem
  · exact congrArg Prod.fst heq
  · cases List.mem_singleton.1 hmem
    cases hbody
    cases hopen

/-- **The order of the questions decides.**  Every cycle of aliases passes through one with a
handle of its own, and both names are declared.  Yet the list is left unresolved if it is asked
for first, and nothing is if its item is. -/
theorem listUniverse_order :
    (∀ id, ¬ Relation.TransGen (fun a b => listUniverse.Mentions a b ∧
      listUniverse.TransparentAt a ∧ listUniverse.TransparentAt b) id id) ∧
    (∃ id, listUniverse.find? "List" 0 = some id) ∧
    (∃ t s x, listUniverse.declared? 6 "List" listUniverse.start = some (some t, s) ∧
      s.data x = .form (.unresolved "List")) ∧
    ∃ t s t' s', listUniverse.declared? 6 "Item" listUniverse.start = some (some t, s) ∧
      listUniverse.declared? 6 "List" s = some (some t', s') ∧
      s'.find? (.unresolved "List") = none := by
  have hstep : ∀ a b, ¬ (listUniverse.Mentions a b ∧
      listUniverse.TransparentAt a ∧ listUniverse.TransparentAt b) := by
    rintro a b ⟨⟨d, body, n, hd, hbody, hn, -, hfind⟩, ha, hb⟩
    obtain rfl := listUniverse_transparent ha
    obtain rfl := listUniverse_transparent hb
    cases hd
    cases hbody
    cases hn with
    | element hname =>
      cases hname
      revert hfind
      decide
  refine ⟨fun id h => ?_, ⟨⟨0, 0⟩, by decide⟩, ?_, ?_⟩
  · cases h with
    | single h => exact hstep _ _ h
    | tail _ h => exact hstep _ _ h
  · have hrun : (listUniverse.declared? 6 "List" listUniverse.start).map
        (fun r => (r.1.isSome, (r.2.find? (.unresolved "List")).isSome)) = some (true, true) := by
      decide +kernel
    obtain ⟨⟨found, s⟩, hdeclared, hfound⟩ := Option.map_eq_some_iff.1 hrun
    obtain ⟨hsome, hunresolved⟩ := Prod.mk.inj hfound
    obtain ⟨t, rfl⟩ := Option.isSome_iff_exists.1 hsome
    obtain ⟨x, hx⟩ := Option.isSome_iff_exists.1 hunresolved
    exact ⟨t, s, x, hdeclared, (Interner.data_of_find? hx).2⟩
  · have hrun : ((listUniverse.declared? 6 "Item" listUniverse.start).bind fun r =>
        (listUniverse.declared? 6 "List" r.2).map fun r' =>
          (r.1.isSome, r'.1.isSome, (r'.2.find? (.unresolved "List")).isNone)) =
        some (true, true, true) := by decide +kernel
    obtain ⟨⟨found, s⟩, hitem, hrun⟩ := Option.bind_eq_some_iff.1 hrun
    obtain ⟨⟨found', s'⟩, hlist, hfound⟩ := Option.map_eq_some_iff.1 hrun
    obtain ⟨hsome, hrest⟩ := Prod.mk.inj hfound
    obtain ⟨hsome', hnone⟩ := Prod.mk.inj hrest
    obtain ⟨t, rfl⟩ := Option.isSome_iff_exists.1 hsome
    obtain ⟨t', rfl⟩ := Option.isSome_iff_exists.1 hsome'
    exact ⟨t, s, t', s', hitem, hlist, Option.isNone_iff_eq_none.1 hnone⟩

end Universe
end TypedJson
