import TypedJson.Proofs.FiniteTexts
import TypedJson.Proofs.Image
/-!
# Questions come to an end

A question comes to an end if it has one and the same result with every sufficient amount of
fuel (`Ends`).  Members and index signatures are listed within the budget of the table.  The text
of a type goes on to earlier types and, through the members of inline objects, to expressions
that have less to come; the key of a type goes on to earlier types and enters a union once only.

`Ends` speaks of a family of computations, one for each amount of fuel, and says of the
result how it moves the table; the relation is a parameter, since the same steps are used
for tables that may still grow and for ones that stay as they are.
-/
namespace TypedJson

/-- With enough fuel the computation has a result, the same for any amount, and moves the state
along the relation. -/
def Ends {σ α : Type} (R : σ → σ → Prop) (s : σ) (m : Nat → StateT σ Option α) : Prop :=
  ∃ a s', R s s' ∧ ∃ n, ∀ fuel, n ≤ fuel → m fuel s = some (a, s')

namespace Ends

variable {σ α β : Type} {R : σ → σ → Prop} {s : σ}

theorem pure (hrefl : R s s) (a : α) : Ends R s fun _ => Pure.pure a :=
  ⟨a, s, hrefl, 0, fun _ _ => rfl⟩

theorem of_run {m : Nat → StateT σ Option α} (hmore : ∀ fuel, CoveredBy (m fuel) (m (fuel + 1)))
    {fuel : Nat} {a : α} {s' : σ} (hrun : m fuel s = some (a, s')) (hR : R s s') : Ends R s m :=
  ⟨a, s', hR, fuel, fun _ hle => CoveredBy.of_le hmore hle s _ hrun⟩

theorem succ {m : Nat → StateT σ Option α} (h : Ends R s fun fuel => m (fuel + 1)) :
    Ends R s m := by
  obtain ⟨a, s', hR, n, hrun⟩ := h
  refine ⟨a, s', hR, n + 1, fun fuel hle => ?_⟩
  obtain ⟨k, rfl⟩ : ∃ k, fuel = k + 1 := ⟨fuel - 1, by omega⟩
  exact hrun k (by omega)

theorem bind (htrans : ∀ ⦃s₁ s₂ s₃⦄, R s₁ s₂ → R s₂ s₃ → R s₁ s₃)
    {m : Nat → StateT σ Option α} {f : Nat → α → StateT σ Option β} (hm : Ends R s m)
    (hf : ∀ a s', R s s' → (∃ fuel, m fuel s = some (a, s')) → Ends R s' fun fuel => f fuel a) :
    Ends R s fun fuel => m fuel >>= f fuel := by
  obtain ⟨a, s₁, hR, n, hrun⟩ := hm
  obtain ⟨b, s₂, hR', n', hrun'⟩ := hf a s₁ hR ⟨n, hrun n (Nat.le_refl n)⟩
  refine ⟨b, s₂, htrans hR hR', max n n', fun fuel hle => bind_eq_some.2 ⟨a, s₁, ?_, ?_⟩⟩
  · exact hrun fuel (by omega)
  · exact hrun' fuel (by omega)

theorem map (htrans : ∀ ⦃s₁ s₂ s₃⦄, R s₁ s₂ → R s₂ s₃ → R s₁ s₃) (hrefl : ∀ s, R s s)
    {m : Nat → StateT σ Option α} (g : α → β) (hm : Ends R s m) :
    Ends R s fun fuel => g <$> m fuel := by
  simp only [map_eq_pure_bind]
  exact hm.bind htrans fun a s' _ _ => pure (hrefl s') (g a)

theorem mapM (htrans : ∀ ⦃s₁ s₂ s₃⦄, R s₁ s₂ → R s₂ s₃ → R s₁ s₃) (hrefl : ∀ s, R s s)
    {f : Nat → α → StateT σ Option β} : ∀ (as : List α) {s : σ},
    (∀ a ∈ as, ∀ s', R s s' → Ends R s' fun fuel => f fuel a) →
    Ends R s fun fuel => as.mapM (f fuel)
  | [], s, _ => by
    simp only [List.mapM_nil]
    exact pure (hrefl s) []
  | a :: as, s, hf => by
    simp only [List.mapM_cons]
    refine bind htrans (hf a List.mem_cons_self s (hrefl s)) fun b s₁ h₁ _ => ?_
    refine bind htrans (mapM htrans hrefl as fun x hx s' h' =>
      hf x (List.mem_cons_of_mem a hx) s' (htrans h₁ h')) fun bs s₂ _ _ => ?_
    exact pure (hrefl s₂) (b :: bs)

theorem query_bind {R : Interner → Interner → Prop} {s : Interner} {f : Interner → α}
    {g : Nat → α → Session β} (h : Ends R s fun fuel => g fuel (f s)) :
    Ends R s fun fuel => Session.query f >>= g fuel := h

end Ends

namespace Universe

/-- The second table may come of the first as declarations are resolved and members and index
signatures are listed. -/
abbrev LooksOn (u : Universe) : Interner → Interner → Prop := Relation.ReflTransGen u.Looks

/-- The question comes to an end, and leaves behind a table that looking leads to. -/
abbrev Answers {α : Type} (u : Universe) (s : Interner) (m : Nat → Session α) : Prop :=
  Ends u.LooksOn s m

namespace Answers

variable {u : Universe} {s : Interner} {α β : Type}

theorem pure (a : α) : u.Answers s fun _ => Pure.pure a := Ends.pure .refl a

theorem bind {m : Nat → Session α} {f : Nat → α → Session β} (hm : u.Answers s m)
    (hf : ∀ a s', u.LooksOn s s' → (∃ fuel, m fuel s = some (a, s')) →
      u.Answers s' fun fuel => f fuel a) : u.Answers s fun fuel => m fuel >>= f fuel :=
  Ends.bind (fun _ _ _ => .trans) hm hf

theorem query_bind {f : Interner → α} {g : Nat → α → Session β}
    (h : u.Answers s fun fuel => g fuel (f s)) :
    u.Answers s fun fuel => Session.query f >>= g fuel := Ends.query_bind h

theorem mapM {f : Nat → α → Session β} (as : List α)
    (hf : ∀ a ∈ as, ∀ s', u.LooksOn s s' → u.Answers s' fun fuel => f fuel a) :
    u.Answers s fun fuel => as.mapM (f fuel) :=
  Ends.mapM (fun _ _ _ => .trans) (fun _ => .refl) as hf

end Answers

variable {u : Universe} {bound : Nat} {s s' : Interner} {t : TypeId}

/-! ## Tables that looking keeps

The three invariants that the proofs rest on, soundness, the provenance of inline objects
and the bound on the budget, in one structure, so that they are carried along together. -/

/-- The table is sound, keeps to the declarations, and has a bounded budget. -/
structure Steady (u : Universe) (bound : Nat) (s : Interner) : Prop where
  sound : u.Sound s
  written : u.Written s
  idle : s.expanding = []
  bounded : u.budget s ≤ bound

theorem grown_of_looks (hs : u.Sound s) (h : u.Looks s s') : u.Grown s s' := by
  cases h with
  | instantiate hd run =>
    exact (instantiate_yields (resolve_resolves u _) hs hd (fun t ht => by cases ht) _ _ run).1
  | @members fuel t ms run =>
    by_cases ht : s.Has t
    · exact (members_settles hs ht fuel ms s' run).1
    · cases fuel with
      | zero => cases run
      | succ fuel =>
        rw [members_of_not_has ht] at run
        cases run
        exact .refl hs
  | @indexes fuel t is run =>
    by_cases ht : s.Has t
    · exact (indexes_settles hs ht fuel is s' run).1
    · cases fuel with
      | zero => cases run
      | succ fuel =>
        rw [indexes_of_not_has ht] at run
        cases run
        exact .refl hs

namespace Steady

theorem looks (hu : u.Monomorphic) (h : u.Steady bound s) (hlooks : u.Looks s s') :
    u.Steady bound s' := by
  obtain ⟨hretains, hbudget⟩ := budget_of_looks hu h.idle hlooks
  exact ⟨(grown_of_looks h.sound hlooks).sound, (written_of_looks hu h.written hlooks).1,
    hretains.expanding.trans h.idle, hbudget.trans h.bounded⟩

theorem looksOn (hu : u.Monomorphic) (h : u.Steady bound s) (hlooks : u.LooksOn s s') :
    u.Steady bound s' ∧ s.Grows s' ∧ s.KeepsTexts s' := by
  induction hlooks with
  | refl => exact ⟨h, .refl s, .refl s⟩
  | tail _ hlook ih =>
    obtain ⟨hsteady, hgrows, hkeeps⟩ := ih
    exact ⟨hsteady.looks hu hlook, hgrows.trans (grown_of_looks hsteady.sound hlook).grows,
      hkeeps.trans (written_of_looks hu hsteady.written hlook).2⟩

theorem start (hu : u.Monomorphic) : u.Steady (u.budget u.start) u.start :=
  ⟨start_sound u, written_of_reaches hu .refl, (budget_of_reaches hu .refl).1, Nat.le_refl _⟩

theorem of_reaches (hu : u.Monomorphic) (h : u.Reaches u.start s) :
    u.Steady (u.budget u.start) s :=
  reaches_induction (fun _ _ h hlooks => h.looks hu hlooks) (.start hu) h

theorem size_le (h : u.Steady bound s) : s.slots.size ≤ bound :=
  (size_le_budget u s).trans h.bounded

end Steady

/-! ## Lists and declarations

These were shown to be answered within the budget, and the budget is bounded, so one amount
of fuel suffices for all tables to come. -/

theorem members_answers (hu : u.Monomorphic) (s : Interner) (t : TypeId) :
    u.Answers s fun fuel => u.members fuel t := by
  obtain ⟨ms, s', hrun, -, -⟩ := members_affords hu (u.budget s) t s (Nat.le_refl _)
  exact .of_run (fun fuel => members_covered u fuel t) hrun (.single (.members hrun))

theorem indexes_answers (hu : u.Monomorphic) (s : Interner) (t : TypeId) :
    u.Answers s fun fuel => u.indexes fuel t := by
  obtain ⟨is, s', hrun, -, -⟩ := indexes_affords hu (u.budget s) t s (Nat.le_refl _)
  exact .of_run (fun fuel => indexes_covered u fuel t) hrun (.single (.indexes hrun))

theorem instantiate_answers_within (hu : u.Monomorphic) (s : Interner) {id : DeclarationId}
    {d : Declaration} (hd : u.declaration? id = some d) :
    u.Answers s fun fuel => u.instantiate (u.resolve fuel) id [] := by
  have hself := resolve_solvent hu (u.budget s + entryCost s)
  obtain ⟨t, s', hrun, -, -⟩ := instantiate_affords hu hself hd [] (Nat.le_refl _)
  exact .of_run (fun fuel => instantiate_covered u (resolve_covered u fuel) id []) hrun
    (.single (.instantiate hd hrun))

theorem exportedTypes_answers (hu : u.Monomorphic) (s : Interner) :
    u.Answers s fun fuel => u.exportedTypes fuel :=
  .mapM _ fun _ hmem s' _ =>
    instantiate_answers_within hu s' (mem_declarations_iff.1 (List.mem_filter.1 hmem).1)

/-! ## Texts

Two inductions are nested.  The outer one is on what the expression may still come to, and is
used when the text goes into the members of an inline object.  The inner one is on the handle
and is used for the parts of a type, which are earlier handles. -/

theorem genericText_answers {displayOf : Nat → TypeId → Session String} {inst : Instance}
    (h : ∀ x ∈ inst.args, ∀ s', u.LooksOn s s' → u.Answers s' fun fuel => displayOf fuel x) :
    u.Answers s fun fuel => u.genericText (displayOf fuel) inst := by
  unfold genericText
  dsimp only
  split
  · exact .pure _
  · exact (Answers.mapM _ h).bind fun args s' _ _ => .pure _

theorem memberText_answers {displayOf : Nat → TypeId → Session String} {m : TypeMember}
    (h : ∀ x, m.type = some x → u.Answers s fun fuel => displayOf fuel x) :
    u.Answers s fun fuel => memberText (displayOf fuel) m := by
  unfold memberText
  cases htype : m.type with
  | some x => exact (h x htype).bind fun text s' _ _ => .pure _
  | none => exact .pure _

/-- The text of a type comes to an end if those of its parts do, and those of the members if it
is an inline object. -/
theorem display_answers_step (hu : u.Monomorphic) (hs : u.Steady bound s)
    (hshown : ∀ x ∈ (s.data t).shown, ∀ s', u.LooksOn s s' →
      u.Answers s' fun fuel => u.display fuel x)
    (hmember : ∀ q q' x s', (s.data t).inline? = some q → q.HasMember q' → u.LooksOn s s' →
      u.WrittenAs s' q' x → u.Answers s' fun fuel => u.display fuel x) :
    u.Answers s fun fuel => u.display fuel t := by
  refine Ends.succ ?_
  simp only [display]
  refine Answers.query_bind ?_
  have hlawful := hs.sound.lawful t
  cases hdata : s.data t with
  | form f =>
    rw [hdata] at hshown
    cases f with
    | array element =>
      refine (hshown element List.mem_cons_self s .refl).bind fun inner s₁ _ _ => ?_
      refine Answers.query_bind ?_
      split
      · exact .pure _
      · exact .pure _
    | reference inst => exact genericText_answers hshown
    | union branches => exact (Answers.mapM branches hshown).bind fun texts s' _ _ => .pure _
    | intrinsic | literal | unresolved | param => exact .pure _
  | namedUnion origin branches =>
    rw [hdata] at hshown
    exact genericText_answers hshown
  | reserved => exact .pure _
  | object origin shape =>
    rw [hdata] at hshown hlawful hmember
    cases origin with
    | some inst => exact genericText_answers hshown
    | none =>
      cases shape with
      | intersection parts => exact (Answers.mapM parts hshown).bind fun texts s' _ _ => .pure _
      | record key value => cases hlawful
      | literal members indexes scope =>
        refine (members_answers hu s t).bind fun ms s₁ h₁ hlisted => ?_
        obtain ⟨fuel, hrun⟩ := hlisted
        have hms := (members_writes hu fuel t s hs.written ms s₁ hrun).2 _ (by rw [hdata]; rfl)
        have hfields : u.Answers s₁ fun fuel => ms.mapM (memberText (u.display fuel)) := by
          refine .mapM ms fun m hm s₂ h₂ => memberText_answers fun x hx => ?_
          obtain ⟨q', hq', hwritten⟩ := hms m hm x hx
          obtain ⟨hs₂, -, -⟩ := hs.looksOn hu (h₁.trans h₂)
          obtain ⟨-, -, hkeeps⟩ := (hs.looksOn hu h₁).1.looksOn hu h₂
          exact hmember _ q' x s₂ rfl hq' (h₁.trans h₂) (hwritten.kept hs₂.written.earlier hkeeps)
        refine hfields.bind fun fields s₂ _ _ => ?_
        split
        · exact .pure _
        · exact .pure _

/-- What is written as an expression has a text: by induction on what the expression may come to,
and for one expression on the handle. -/
theorem display_answers_written (hu : u.Monomorphic) (hfinite : u.FiniteTexts) (p : Spot) :
    ∀ (n : Nat) (t : TypeId) (s : Interner), t.index = n → u.Steady bound s → u.WrittenAs s p t →
      u.Answers s fun fuel => u.display fuel t := by
  induction p using (below_wellFounded hfinite).induction with
  | _ p ihp =>
    intro n
    induction n using Nat.strong_induction_on with
    | _ n ihn =>
      rintro t s rfl hs hwritten
      refine display_answers_step hu hs (fun x hx s' hlooks => ?_) fun q q' x s' hq hq' hlooks hx => ?_
      · obtain ⟨hs', -, hkeeps⟩ := hs.looksOn hu hlooks
        have hpart := (hwritten.of_mem (hs.written.earlier t) hx).kept hs'.written.earlier hkeeps
        exact ihn x.index (hs.written.earlier t x hx) x s' rfl hs' hpart
      · have hbelow : u.Below q' p := ⟨q, hwritten.2 t q .refl hq, hq'⟩
        exact ihp q' hbelow x.index x s' rfl (hs.looksOn hu hlooks).1 hx

/-- **The text of every type comes to an end.** -/
theorem display_answers (hu : u.Monomorphic) (hfinite : u.FiniteTexts) :
    ∀ (n : Nat) (t : TypeId) (s : Interner), t.index = n → u.Steady bound s →
      u.Answers s fun fuel => u.display fuel t := by
  intro n
  induction n using Nat.strong_induction_on with
  | _ n ih =>
    rintro t s rfl hs
    refine display_answers_step hu hs (fun x hx s' hlooks => ?_) fun q q' x s' _ _ hlooks hx => ?_
    · exact ih x.index (hs.written.earlier t x hx) x s' rfl (hs.looksOn hu hlooks).1
    · exact display_answers_written hu hfinite q' x.index x s' rfl (hs.looksOn hu hlooks).1 hx

/-! ## Texts without an end

The members of an inline object may lead back to a type around it: through an alias that is no
union, object or intersection nothing with a name comes in between.  Then the text of each type on
the way contains itself. -/

/-- The text of a type goes on to the types that it is shown with, and from an inline object to
those of the members that are kept for it. -/
inductive TextStep (s : Interner) (t x : TypeId) : Prop
  | shown (hx : x ∈ (s.data t).shown)
  | member {spot : Spot} {ms : List TypeMember} {m : TypeMember}
    (hinline : (s.data t).inline? = some spot) (hms : s.members? t = some ms) (hm : m ∈ ms)
    (hx : m.type = some x)

theorem TextStep.has {x : TypeId} (h : TextStep s t x) : s.Has t := by
  refine Interner.has_of_data_ne fun hdata => ?_
  cases h with
  | shown hx =>
    rw [hdata] at hx
    cases hx
  | member hinline =>
    rw [hdata] at hinline
    cases hinline

theorem TextStep.grown {x : TypeId} (h : TextStep s t x) (hs : s.Grows s') : TextStep s' t x := by
  have hdata := hs.data t h.has
  cases h with
  | shown hx => exact .shown (by rw [hdata]; exact hx)
  | member hinline hms hm hx => exact .member (by rw [hdata]; exact hinline) (hs.members t _ hms) hm hx

/-- Texts in a row that add nothing to the table are such texts each. -/
theorem exists_display_of_mapM (hs : u.Sound s) {fuel : Nat} {ts : List TypeId}
    {texts : List String} (hts : ∀ x ∈ ts, s.Has x)
    (hrun : ts.mapM (u.display fuel) s = some (texts, s)) :
    ∀ x ∈ ts, ∃ text, u.display fuel x s = some (text, s) :=
  Settles.exists_of_mapM hs
    (fun y hy s' h' => display_settles u fuel y s' h'.sound (h'.has (hts y hy))) hrun

theorem exists_display_of_genericText (hs : u.Sound s) {fuel : Nat} {inst : Instance}
    {text : String} (hargs : ∀ x ∈ inst.args, s.Has x)
    (hrun : u.genericText (u.display fuel) inst s = some (text, s)) :
    ∀ x ∈ inst.args, ∃ text', u.display fuel x s = some (text', s) := by
  intro x hx
  unfold genericText at hrun
  split at hrun
  · rename_i hempty
    rw [List.isEmpty_iff.1 hempty] at hx
    cases hx
  · obtain ⟨texts, s₁, htexts, hpure⟩ := bind_eq_some.1 hrun
    cases hpure
    exact exists_display_of_mapM hs hargs htexts x hx

theorem exists_display_of_memberText {fuel : Nat} {m : TypeMember} {text : String} {x : TypeId}
    (hrun : memberText (u.display fuel) m s = some (text, s)) (hx : m.type = some x) :
    ∃ text', u.display fuel x s = some (text', s) := by
  unfold memberText at hrun
  rw [hx] at hrun
  obtain ⟨text', s₁, hrun', hpure⟩ := bind_eq_some.1 hrun
  cases hpure
  exact ⟨text', hrun'⟩

theorem exists_display_of_shown (hs : u.Sound s) {x : TypeId} {fuel : Nat} {text : String}
    (hrun : u.display (fuel + 1) t s = some (text, s)) (hx : x ∈ (s.data t).shown) :
    ∃ text', u.display fuel x s = some (text', s) := by
  have hparts : ∀ y ∈ (s.data t).parts, s.Has y := hs.parts t
  rw [display, Session.query_bind] at hrun
  cases hdata : s.data t with
  | form f =>
    rw [hdata] at hx hrun hparts
    cases f with
    | array element =>
      obtain rfl := List.mem_singleton.1 hx
      obtain ⟨inner, s₁, hinner, hrun⟩ := bind_eq_some.1 hrun
      rw [Session.query_bind] at hrun
      generalize s₁.data x = d at hrun
      obtain rfl : s₁ = s := by
        split at hrun <;> cases hrun <;> rfl
      exact ⟨inner, hinner⟩
    | reference inst => exact exists_display_of_genericText hs hparts hrun x hx
    | union branches =>
      obtain ⟨texts, s₁, htexts, hpure⟩ := bind_eq_some.1 hrun
      cases hpure
      exact exists_display_of_mapM hs hparts htexts x hx
    | intrinsic | literal | unresolved | param => cases hx
  | namedUnion origin branches =>
    rw [hdata] at hx hrun hparts
    exact exists_display_of_genericText hs (fun y hy => hparts y (List.mem_append_left _ hy)) hrun x hx
  | object origin shape =>
    rw [hdata] at hx hrun hparts
    cases origin with
    | some inst =>
      exact exists_display_of_genericText hs (fun y hy => hparts y (List.mem_append_left _ hy)) hrun x hx
    | none =>
      cases shape with
      | intersection parts =>
        obtain ⟨texts, s₁, htexts, hpure⟩ := bind_eq_some.1 hrun
        cases hpure
        exact exists_display_of_mapM hs hparts htexts x hx
      | literal | record => cases hx
  | reserved =>
    rw [hdata] at hx
    cases hx

theorem exists_display_of_member (hs : u.Sound s) {x : TypeId} {fuel : Nat} {text : String}
    (hrun : u.display (fuel + 1) t s = some (text, s)) {spot : Spot} {ms : List TypeMember}
    {m : TypeMember} (hinline : (s.data t).inline? = some spot) (hms : s.members? t = some ms)
    (hm : m ∈ ms) (hx : m.type = some x) : ∃ text', u.display fuel x s = some (text', s) := by
  obtain ⟨members, indexes, scope, hdata⟩ : ∃ members indexes scope,
      s.data t = .object none (.literal members indexes scope) := by
    unfold TypeData.inline? at hinline
    split at hinline
    · exact ⟨_, _, _, ‹_›⟩
    · cases hinline
  rw [display, Session.query_bind, hdata] at hrun
  obtain ⟨ms', s₁, hlisted, hrun⟩ := bind_eq_some.1 hrun
  obtain ⟨fuel, rfl⟩ : ∃ k, fuel = k + 1 := by
    cases fuel with
    | zero => cases hlisted
    | succ k => exact ⟨k, rfl⟩
  -- the members are kept, so that to list them adds nothing
  rw [(members_of_kept hms fuel).now] at hlisted
  cases hlisted
  obtain ⟨fields, s₁, hfields, hrun⟩ := bind_eq_some.1 hrun
  obtain rfl : s₁ = s := by
    split at hrun <;> cases hrun <;> rfl
  obtain ⟨field, hfield⟩ := Settles.exists_of_mapM hs (fun y hy s' h' =>
    memberText_settles h'.sound fun z hz =>
      display_settles u _ z s' h'.sound (h'.has (hs.members t ms hms y hy z hz))) hfields m hm
  exact exists_display_of_memberText hfield hx

/-- **A text that adds nothing to the table is made of such texts.** -/
theorem exists_display_of_textStep (hs : u.Sound s) {x : TypeId} {fuel : Nat} {text : String}
    (hrun : u.display (fuel + 1) t s = some (text, s)) (hstep : TextStep s t x) :
    ∃ text', u.display fuel x s = some (text', s) := by
  cases hstep with
  | shown hx => exact exists_display_of_shown hs hrun hx
  | member hinline hms hm hx => exact exists_display_of_member hs hrun hinline hms hm hx

/-- The text of the type leads on to one that leads back to itself. -/
def TextCircles (s : Interner) (t : TypeId) : Prop :=
  ∃ x, Relation.ReflTransGen (TextStep s) t x ∧ Relation.TransGen (TextStep s) x x

theorem TextCircles.grown (h : TextCircles s t) (hs : s.Grows s') : TextCircles s' t := by
  obtain ⟨x, hto, hcycle⟩ := h
  have hup : ∀ a b, TextStep s a b → TextStep s' a b := fun _ _ hstep => hstep.grown hs
  exact ⟨x, Relation.ReflTransGen.mono hup t x hto, Relation.TransGen.mono hup x x hcycle⟩

/-- The circle leads on from its own types, too. -/
theorem TextCircles.exists_step (h : TextCircles s t) : ∃ x, TextStep s t x ∧ TextCircles s x := by
  obtain ⟨x, hto, hcycle⟩ := h
  obtain ⟨y, hstep, hrest⟩ : ∃ y, TextStep s t y ∧ Relation.ReflTransGen (TextStep s) y x := by
    rcases hto.cases_head with rfl | hstep
    · exact Relation.TransGen.head'_iff.1 hcycle
    · exact hstep
  exact ⟨y, hstep, x, hrest, hcycle⟩

theorem TextCircles.display_ne (hs : u.Sound s) : ∀ (fuel : Nat) {t : TypeId} {text : String},
    TextCircles s t → u.display fuel t s ≠ some (text, s)
  | 0, _, _, _ => fun hrun => by cases hrun
  | fuel + 1, _, _, h => fun hrun => by
    obtain ⟨x, hstep, hrest⟩ := h.exists_step
    obtain ⟨text', hrun'⟩ := exists_display_of_textStep hs hrun hstep
    exact hrest.display_ne hs fuel hrun'

/-- **A text that comes to contain itself has no end**, with whatever fuel. -/
theorem TextCircles.display_eq_none (h : TextCircles s t) (hs : u.Sound s) (ht : s.Has t)
    (fuel : Nat) : u.display fuel t s = none := by
  refine Option.eq_none_iff_forall_ne_some.2 fun ⟨text, s'⟩ hrun => ?_
  -- asked again the text adds nothing, and the table has the circle still
  obtain ⟨hgrown, hlasts, -⟩ := display_settles u fuel t s hs ht text s' hrun
  exact (h.grown hgrown.grows).display_ne hgrown.sound fuel hlasts.now

/-! ## Keys

The key opens a union once; the list of opened unions grows on the way down and is without
repetitions, so its length is bounded by the size of the table.  Between two unions the
handles decrease.  Texts enter only where a type has no identity, or is a union without a
name that is open already. -/

theorem arguments_shown (d : TypeData) : d.arguments ⊆ d.shown := by
  intro x hx
  unfold TypeData.arguments at hx
  split at hx
  · exact hx
  · exact hx
  · exact hx
  · exact hx
  · cases hx

/-- The key of a type goes on to the branches of a union that is not open yet and to the
arguments of any other type; it takes the text of what has no identity, of a union only if it is
open. -/
theorem keyWithin_ends_step {R : Interner → Interner → Prop} (hrefl : ∀ s, R s s)
    (htrans : ∀ ⦃s₁ s₂ s₃⦄, R s₁ s₂ → R s₂ s₃ → R s₁ s₃) {opened : List TypeId}
    (htext : (s.data t).symbol? t = none → ((s.data t).union?.isSome = true → t ∈ opened) →
      Ends R s fun fuel => u.display fuel t)
    (hbranches : ∀ branches, (s.data t).union? = some branches → t ∉ opened →
      Ends R s fun fuel => branches.mapM (u.keyWithin fuel (t :: opened)))
    (hargs : (s.data t).union? = none →
      Ends R s fun fuel => (s.data t).arguments.mapM (u.keyWithin fuel opened)) :
    Ends R s fun fuel => u.keyWithin fuel opened t := by
  have hkey : ∀ {α : Type} {m : Nat → Session α} (f : α → TypeKey), Ends R s m →
      Ends R s fun fuel => (do pure (f (← m fuel))) := fun f hm =>
    hm.bind htrans fun a s' _ _ => .pure (hrefl s') (f a)
  refine Ends.succ ?_
  simp only [keyWithin]
  refine Ends.query_bind ?_
  cases hi : (s.data t).intrinsic? with
  | some i => cases i <;> exact .pure (hrefl s) _
  | none =>
    cases hl : (s.data t).literal? with
    | some value => exact .pure (hrefl s) _
    | none =>
      dsimp only
      cases hunion : (s.data t).union? with
      | some branches =>
        dsimp only
        by_cases hmem : opened.contains t = true
        · simp only [if_pos hmem]
          cases hsymbol : (s.data t).symbol? t with
          | some origin => exact .pure (hrefl s) _
          | none =>
            exact hkey .opaqueText (htext hsymbol fun _ => List.contains_iff_mem.1 hmem)
        · simp only [if_neg hmem]
          have hnew : t ∉ opened := fun h => hmem (List.contains_iff_mem.2 h)
          exact hkey .union (hbranches branches hunion hnew)
      | none =>
        cases hsymbol : (s.data t).symbol? t with
        | none =>
          refine hkey .opaqueText (htext hsymbol fun hsome => ?_)
          rw [hunion] at hsome
          cases hsome
        | some symbol =>
          dsimp only
          split
          · exact .pure (hrefl s) _
          · exact hkey (.generic symbol) (hargs hunion)

/-- A union is entered once, as long as there is room for unions that were not entered yet; and
everything else goes on to earlier types. -/
theorem keyWithin_answers_within (hu : u.Monomorphic) (hfinite : u.FiniteTexts) :
    ∀ (room n : Nat) (opened : List TypeId) (t : TypeId) (s : Interner), t.index = n →
      bound < room + opened.length → u.Steady bound s → opened.Nodup →
      (∀ o ∈ opened, s.Has o) → s.Has t → u.Answers s fun fuel => u.keyWithin fuel opened t := by
  intro room
  induction room with
  | zero =>
    intro n opened t s _ hroom hs hnodup hopened _
    have hlength := length_le_of_nodup_of_lt TypeId.index TypeId.index_injective _ _ hnodup hopened
    have hsize := hs.size_le
    omega
  | succ room ihroom =>
    intro n
    induction n using Nat.strong_induction_on with
    | _ n ih =>
      rintro opened t s rfl hroom hs hnodup hopened ht
      refine keyWithin_ends_step (fun _ => .refl) (fun _ _ _ => .trans)
        (fun _ _ => display_answers hu hfinite t.index t s rfl hs) (fun branches hunion hnew => ?_)
        fun _ => ?_
      · have hopened' : ∀ o ∈ t :: opened, s.Has o := List.forall_mem_cons.2 ⟨ht, hopened⟩
        refine Answers.mapM branches fun b hb s' hlooks => ?_
        obtain ⟨hs', hgrows, -⟩ := hs.looksOn hu hlooks
        have hb' : s.Has b := hs.sound.parts t b (TypeData.union?_parts hunion hb)
        refine ihroom b.index (t :: opened) b s' rfl ?_ hs' (List.nodup_cons.2 ⟨hnew, hnodup⟩)
          (fun o ho => hgrows.has (hopened' o ho)) (hgrows.has hb')
        rw [List.length_cons]
        omega
      · refine Answers.mapM _ fun x hx s' hlooks => ?_
        obtain ⟨hs', hgrows, -⟩ := hs.looksOn hu hlooks
        have hlt := hs.written.earlier t x (arguments_shown _ hx)
        exact ih x.index hlt opened x s' rfl hroom hs' hnodup (fun o ho => hgrows.has (hopened o ho))
          (hgrows.has (hlt.trans ht))

/-- **The key of every type comes to an end.** -/
theorem keyOf_answers (hu : u.Monomorphic) (hfinite : u.FiniteTexts) (hs : u.Steady bound s)
    (ht : s.Has t) : u.Answers s fun fuel => u.keyOf fuel t :=
  keyWithin_answers_within hu hfinite (bound + 1) t.index [] t s rfl (Nat.lt_succ_self bound) hs
    List.nodup_nil (fun o ho => by cases ho) ht

theorem keyOfBranches_answers (hu : u.Monomorphic) (hfinite : u.FiniteTexts)
    (hs : u.Steady bound s) {ts : List TypeId} (hts : ∀ t ∈ ts, s.Has t) :
    u.Answers s fun fuel => u.keyOfBranches fuel ts := by
  have hone : ∀ t ∈ ts, ∀ s', u.LooksOn s s' → u.Answers s' fun fuel => u.keyOf fuel t :=
    fun t ht s' hlooks => by
      obtain ⟨hs', hgrows, -⟩ := hs.looksOn hu hlooks
      exact keyOf_answers hu hfinite hs' (hgrows.has (hts t ht))
  have hall := (Answers.mapM ts hone).bind (f := fun _ keys => pure (TypeKey.union keys))
    fun keys s' _ _ => .pure _
  unfold keyOfBranches
  split
  · exact .pure _
  · exact hone _ List.mem_cons_self s .refl
  · exact hall

end Universe
end TypedJson
