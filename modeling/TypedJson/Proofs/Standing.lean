import TypedJson.Proofs.Relisting
/-!
# What has been asked leaves a table that keeps to its names

Every table that questions lead to keeps to its names (`standing_of_reaches`), and what it names it
spells out: the texts of the aliases that are noted in it have names in it (`Prepared.spelled`).  So
what is resolved or listed in one such table is resolved or listed in every other one, and is
called the same there.

Here the two halves meet.  A table that questions lead to keeps to its names, which was shown
of resolution and of lists; and it gives, for everything that it has resolved, the names
which the converse needs.  The aliases noted in the one table are finitely many, so any other
table lacks finitely many of them.
-/
namespace TypedJson
namespace Universe

variable {u : Universe} {s : Interner} {V V' W : NamedTable} {busy : List (Listing × TypeId)}
  {k : Listing} {t : TypeId}

/-! ## Declarations -/

theorem instantiate_does (hcircular : ∀ n, ¬ u.Circular n) (fuel : Nat) (hV : u.Prepared busy V)
    {id : DeclarationId} {d : Declaration} (hd : u.declaration? id = some d) :
    u.Does busy (fun _ => False) V (u.instantiate (u.resolve fuel) id []) fun t V' =>
      u.Called (.inst (.declared id) (completeNames id d.typeParams.length [])) t V' := by
  have hargs : ∀ x ∈ ([] : List TypeId), V.Has x := fun _ h => by cases h
  refine (Does.of_calls hV
    (instantiate_calls (resolve_designates hcircular fuel) hcircular hV.naming hd hargs
      (by rw [hV.idle]; exact leadTo_nil u id))
    (instantiate_yields (resolve_resolves u fuel) hV.kept.sound hd fun _ h => by cases h)
    (instantiate_means (resolve_interprets u fuel) hV.kept.meaningful hd [])).mono
    (fun _ h => h) fun t V' _ ht => ht.1

/-- What is called so in some table is resolved in every one that lacks finitely many of its
aliases. -/
theorem declaration_returns (hcircular : ∀ n, ¬ u.Circular n)
    {K : DeclarationId → List TypeName → Prop} {L : List (DeclarationId × List TypeName)}
    (hK : u.Spelled K) (hV : u.Prepared busy V) (hlacks : Lacks K L V) {id : DeclarationId}
    {d : Declaration} (hd : u.declaration? id = some d) {N : TypeName}
    (hN : u.Names K (.inst (.declared id) (completeNames id d.typeParams.length [])) N) :
    Returns V.table fun fuel => u.instantiate (u.resolve fuel) id [] :=
  instantiate_returns hd hV.naming (fun _ h => by cases h) (by rw [hV.idle]; exact leadTo_nil u id)
    hlacks (phrase_returns hcircular hK L.length L rfl hN)

/-! ## Tables that questions lead to

The table before any question is made of type parameters, each called after itself. -/

theorem naming_empty (u : Universe) (name : TypeId → TypeName) : u.Naming ⟨.empty, name⟩ where
  parts := fun _ ht => absurd ht (Nat.not_lt_zero _)
  injective := fun _ _ ht => absurd ht (Nat.not_lt_zero _)
  stands := fun _ ht => absurd ht (Nat.not_lt_zero _)
  begun := by
    rintro inst (⟨t, hmem⟩ | hmem)
    · cases hmem
    · cases hmem
  noted := fun _ _ hmem => by cases hmem
  recorded := fun _ _ _ ht => absurd ht (Nat.not_lt_zero _)
  sites := fun _ _ ht => absurd ht (Nat.not_lt_zero _)
  expanding := fun _ hmem => by cases hmem

theorem start_prepared (u : Universe) : ∃ V : NamedTable, V.table = u.start ∧ u.Prepared [] V := by
  have hstart : ∃ V : NamedTable, V.table = u.start ∧ u.Naming V ∧ V.table.expanding = [] ∧
      ∀ k t, V.table.kept? k t = none := by
    refine start_induction (P := fun s => ∃ V : NamedTable, V.table = s ∧ u.Naming V ∧
      V.table.expanding = [] ∧ ∀ k t, V.table.kept? k t = none) ?_ ?_
    · refine ⟨⟨.empty, fun _ => .intrinsic .unknown⟩, rfl, naming_empty u _, rfl, fun k t => ?_⟩
      exact Interner.kept?_of_not_has (Nat.not_lt_zero _)
    · rintro _ id position _ _ _ ⟨V, rfl, hV, hidle, hkept⟩
      have hcalls : u.Calls (fun _ => False) V (Session.intern (.param (.param id position)))
          fun _ _ => True :=
        (Calls.intern hV fun x hx => by cases hx).mono (fun _ h => h) fun _ _ _ _ => trivial
      obtain ⟨V', hs, h', -⟩ := hcalls _ _ rfl
      refine ⟨V', hs, h'.naming, h'.expanding.trans hidle, fun k t => ?_⟩
      rw [hs]
      split
      · exact hkept k t
      · exact (NamedTable.kept?_push (V := V) (N := .intrinsic .unknown) k).trans (hkept k t)
  obtain ⟨V, hs, hV, hidle, hkept⟩ := hstart
  refine ⟨V, hs, hV, ?_, hidle, fun k t l hl => ?_⟩
  · rw [hs]
    exact start_kept u
  · rw [hkept k t] at hl
    cases hl

/-- The table is one that questions lead to, and keeps to its names. -/
structure Standing (u : Universe) (V : NamedTable) : Prop where
  prepared : u.Prepared [] V
  reached : u.Reaches u.start V.table

theorem awaits_nil (u : Universe) (k : Listing) (t : TypeId) (s : Interner) : u.Awaits [] k t s :=
  fun _ h => by cases h

theorem looks_prepared (hcircular : ∀ n, ¬ u.Circular n) (hV : u.Prepared [] V) {s' : Interner}
    (h : u.Looks V.table s') : ∃ V' : NamedTable, V'.table = s' ∧ u.Prepared [] V' := by
  have hlist : ∀ (k : Listing) {fuel t} {l : List k.Item}, u.list fuel k t V.table = some (l, s') →
      ∃ V' : NamedTable, V'.table = s' ∧ u.Prepared [] V' := by
    intro k fuel t l hrun
    by_cases ht : V.Has t
    · obtain ⟨V', hs, h', -⟩ :=
        list_does hcircular k fuel t V [] hV ht (awaits_nil u k t _) l s' hrun
      exact ⟨V', hs, h'.after⟩
    · exact ⟨V, (list_of_not_has ht fuel k hrun).symm, hV⟩
  cases h with
  | instantiate hd run =>
    obtain ⟨V', hs, h', -⟩ := instantiate_does hcircular _ hV hd _ s' run
    exact ⟨V', hs, h'.after⟩
  | members run => exact hlist .members run
  | indexes run => exact hlist .indexes run

/-- **Every table that questions lead to keeps to its names.** -/
theorem standing_of_reaches (hcircular : ∀ n, ¬ u.Circular n) (h : u.Reaches u.start s) :
    ∃ V : NamedTable, V.table = s ∧ u.Standing V := by
  obtain ⟨V, rfl, hV⟩ := reaches_induction (P := fun s => ∃ V : NamedTable, V.table = s ∧ u.Prepared [] V)
    (fun _ _ ⟨_, hs, hV⟩ hlooks => by
      subst hs
      exact looks_prepared hcircular hV hlooks) (start_prepared u) h
  exact ⟨V, rfl, hV, h⟩

/-! ## What a table spells out

A noted alias is called after its parts, and those are what its text says; so the text has a
name. -/

theorem HasBody.isStructure {id : DeclarationId} {args : List TypeName} {scope : NameScope}
    {body : TypeExpr} (h : u.HasBody (.named (.declared id) args) scope body)
    (hbody : body.isStructure = true) {S : DeclarationId → List TypeName → Prop} (hS : S id args) :
    u.Names S (.inst (.declared id) args) (.named (.declared id) args) := by
  cases h with
  | mk hd htext => exact .nominal hd htext hbody hS

/-- The parts of an alias that stands for a union or an intersection have names. -/
theorem Stands.parts_names {S : DeclarationId → List TypeName → Prop} {name : TypeId → TypeName}
    {d : TypeData} {id : DeclarationId} {args : List TypeName}
    (h : u.Stands S name d (.named (.declared id) args)) (hopen : d ≠ .reserved) {scope : NameScope}
    {body : TypeExpr} {es : List TypeExpr} (hbody : u.HasBody (.named (.declared id) args) scope body)
    (hes : body = .union es ∨ body = .intersection es) :
    ∃ xs, u.NamesAll S (home (.named (.declared id) args)) scope es xs := by
  have hparts : ∀ {make : List TypeExpr → TypeExpr} {xs : List TypeName},
      u.HasParts S (.named (.declared id) args) make xs → (∀ es', make es' = body → es' = es) →
        ∃ xs, u.NamesAll S (home (.named (.declared id) args)) scope es xs := by
    rintro make xs ⟨scope', es', hbody', hxs⟩ hmake
    obtain ⟨rfl, heq⟩ := hbody.unique hbody'
    obtain rfl := hmake es' heq
    exact ⟨xs, hxs⟩
  cases d with
  | reserved => exact absurd rfl hopen
  | form f =>
    have hname : TypeName.named (.declared id) args = f.nameBy name := h
    cases f with
    | _ => cases hname
  | namedUnion origin branches =>
    refine hparts h.2 fun es' heq => ?_
    rcases hes with rfl | rfl
    · exact TypeExpr.union.inj heq
    · cases heq
  | object origin shape =>
    cases origin with
    | none =>
      cases shape with
      | literal => obtain ⟨p, hname⟩ := h; cases hname
      | intersection => obtain ⟨p, hname⟩ := h; cases hname
      | record => cases h
    | some origin =>
      cases shape with
      | literal =>
        have heq := (hbody.unique h.2).2
        rcases hes with rfl | rfl
        · cases heq
        · cases heq
      | intersection =>
        refine hparts h.2 fun es' heq => ?_
        rcases hes with rfl | rfl
        · cases heq
        · exact TypeExpr.intersection.inj heq
      | record =>
        obtain ⟨rfl, hname⟩ := h
        cases hname

/-- The texts of the aliases that are noted in the table have names in it. -/
theorem Prepared.spelled (hV : u.Prepared busy V) : u.Spelled V.Recorded := by
  rintro id _ ⟨xs, t, hmem, rfl⟩ scope body es hbody hes
  obtain ⟨ht, hnames⟩ := hV.naming.noted _ t hmem
  have hstructure : body.isStructure = true := by
    rcases hes with rfl | rfl
    · rfl
    · rfl
  have hname := hnames.unique (hbody.isStructure hstructure
    (show V.Recorded id (V.names xs) from ⟨xs, t, hmem, rfl⟩))
  have hstands := hV.naming.stands t ht
  rw [hname] at hstands
  exact hstands.parts_names (hV.kept.closed t ht) hbody hes

/-- The aliases that are noted in a table. -/
def notedAliases (V : NamedTable) : List (DeclarationId × List TypeName) :=
  V.table.instances.filterMap fun entry =>
    match entry.1.symbol with
    | .declared id => some (id, V.names entry.1.args)
    | _ => none

theorem lacks_notedAliases (V W : NamedTable) : Lacks V.Recorded (notedAliases V) W := by
  rintro id _ ⟨xs, t, hmem, rfl⟩
  exact .inr (List.mem_filterMap.2 ⟨_, hmem, rfl⟩)

end Universe
end TypedJson
