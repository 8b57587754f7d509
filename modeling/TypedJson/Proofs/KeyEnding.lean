import TypedJson.Proofs.BackReferences
import TypedJson.Proofs.Descent
import TypedJson.Proofs.Ending
/-!
# Keys come to an end

The key of a type goes on to the branches of a union, which is open from then on, and to the
arguments of any other type (`Interner.KeyStep`).  Each step comes to an earlier handle, but for
those into the branches of a named union, which was not open before; so no way of a key goes on
for ever (`Interner.keyStep_wellFounded`).

What a key does not bound is the text of a union without a name that it meets within that union
itself (`Interner.KeyShows`).  It has an end if these texts do (`Universe.keyWithin_ends`), and
only if they do (`Universe.exists_display_of_keyShows`).  The display of the type says nothing of
them: a union with a name is shown by its name, while its key goes on to its branches.

Where the key of a named union is cut short, it stands within the key of that very union
(`Keyed.enclosed`).
-/
namespace TypedJson

/-! ## The way of a key

The measure has two parts: the handles that are not open yet, and the handle itself.  Into
the branches of a union without a name, or into arguments, the handle gets smaller; into
those of a named union it may not, but the union was not open, so there is one handle less
to be opened. -/

namespace Interner

/-- From a type within the unions that are open the key goes on to this type within those. -/
inductive KeyStep (s : Interner) : List TypeId × TypeId → List TypeId × TypeId → Prop
  | branch {opened : List TypeId} {t b : TypeId} {branches : List TypeId}
    (hunion : s.union? t = some branches) (hnew : t ∉ opened) (hb : b ∈ branches) :
    KeyStep s (opened, t) (t :: opened, b)
  | argument {opened : List TypeId} {t x : TypeId} (hunion : s.union? t = none)
    (hx : x ∈ s.arguments t) : KeyStep s (opened, t) (opened, x)

variable {s : Interner} {p q : List TypeId × TypeId}

theorem has_of_union? {t : TypeId} {branches : List TypeId} (h : s.union? t = some branches) :
    s.Has t := by
  refine has_of_data_ne fun hdata => ?_
  rw [union?, hdata] at h
  cases h

/-- **A step of a key comes to an earlier handle, unless it opens a named union.** -/
theorem KeyStep.descends (h : s.Descends) (hstep : s.KeyStep p q) :
    q.2.index < p.2.index ∨
      p.2 ∉ p.1 ∧ q.1 = p.2 :: p.1 ∧ ∃ origin branches, s.data p.2 = .namedUnion origin branches := by
  cases hstep with
  | @branch opened t b branches hunion hnew hb =>
    rcases TypeData.union?_eq_some_iff.1 hunion with hdata | ⟨origin, hdata⟩
    · exact .inl (h t b (by rw [hdata]; exact hb))
    · exact .inr ⟨hnew, rfl, origin, branches, hdata⟩
  | argument _ hx => exact .inl (h _ _ (Universe.arguments_shown _ hx))

/-- The handles that are not among those that are open. -/
def unopened (s : Interner) (opened : List TypeId) : Finset Nat :=
  (Finset.range s.slots.size).filter fun i => TypeId.mk i ∉ opened

theorem card_unopened_lt {opened : List TypeId} {t : TypeId} (ht : s.Has t) (hnew : t ∉ opened) :
    (s.unopened (t :: opened)).card < (s.unopened opened).card := by
  refine Finset.card_lt_card (Finset.ssubset_iff_of_subset ?_ |>.2 ⟨t.index, ?_, ?_⟩)
  · exact Finset.monotone_filter_right _ fun i _ hi hmem => hi (List.mem_cons_of_mem t hmem)
  · exact Finset.mem_filter.2 ⟨Finset.mem_range.2 ht, hnew⟩
  · exact fun hmem => (Finset.mem_filter.1 hmem).2 List.mem_cons_self

/-- **No way of a key goes on for ever**: with each union that it enters there are fewer left, and
otherwise it comes to earlier handles. -/
theorem keyStep_wellFounded (h : s.Descends) : WellFounded fun q p => s.KeyStep p q := by
  refine Subrelation.wf (r := InvImage (Prod.Lex (· < ·) (· < ·)) fun p =>
    ((s.unopened p.1).card, p.2.index)) (fun {q p} hstep => ?_)
    (InvImage.wf _ (WellFounded.prod_lex Nat.lt_wfRel.wf Nat.lt_wfRel.wf))
  cases hstep with
  | branch hunion hnew hb => exact .left _ _ (card_unopened_lt (has_of_union? hunion) hnew)
  | argument hunion hx => exact .right _ (h _ _ (Universe.arguments_shown _ hx))

theorem KeyStep.grown {s' : Interner} (h : s.KeyStep p q) (hs : s.Grows s') : s'.KeyStep p q := by
  cases h with
  | @branch opened t b branches hunion hnew hb =>
    refine .branch ?_ hnew hb
    rw [union?, hs.data t (has_of_union? hunion)]
    exact hunion
  | @argument opened t x hunion hx =>
    have ht : s.Has t := has_of_data_ne fun hdata => by
      rw [arguments, hdata] at hx
      cases hx
    have hdata := hs.data t ht
    refine .argument ?_ ?_
    · rw [union?, hdata]
      exact hunion
    · rw [arguments, hdata]
      exact hx

/-- The key of the type asks for the text of this union, which has no name and which the key comes
to within itself. -/
def KeyShows (s : Interner) (t x : TypeId) : Prop :=
  (∃ branches, s.data x = .form (.union branches)) ∧
    ∃ opened, x ∈ opened ∧ Relation.ReflTransGen s.KeyStep ([], t) (opened, x)

theorem KeyShows.has {t x : TypeId} (h : s.KeyShows t x) : s.Has x := by
  obtain ⟨⟨branches, hdata⟩, -⟩ := h
  exact has_of_data_ne (by rw [hdata]; exact nofun)

theorem KeyShows.grown {s' : Interner} {t x : TypeId} (h : s.KeyShows t x) (hs : s.Grows s') :
    s'.KeyShows t x := by
  have hdata := hs.data x h.has
  obtain ⟨⟨branches, hunion⟩, opened, hx, hway⟩ := h
  refine ⟨⟨branches, hdata.trans hunion⟩, opened, hx, ?_⟩
  exact Relation.ReflTransGen.mono (fun _ _ hstep => hstep.grown hs) _ _ hway

end Interner

namespace Universe

variable {u : Universe} {s s' : Interner} {t : TypeId}

/-! ## Keys with an end

By well-founded induction along the steps.  The texts that are asked for are assumed to end
in every table to come, since the key of one branch may add to the table before the next is
looked at. -/

/-- The text of the type comes to an end, whatever is asked in the meantime. -/
def TextEnds (u : Universe) (s : Interner) (t : TypeId) : Prop :=
  ∀ s', u.Reaches s s' → ∃ fuel text s'', u.display fuel t s' = some (text, s'')

theorem TextEnds.ends (h : u.TextEnds s t) (hreaches : u.Reaches s s') (ht : s'.Has t) :
    Ends u.Reaches s' fun fuel => u.display fuel t := by
  obtain ⟨fuel, text, s'', hrun⟩ := h s' hreaches
  exact .of_run (fun fuel => display_covered u fuel t) hrun (.single (.display ht hrun))

theorem display_ends_of_word (hunion : (s.data t).union? = none)
    (hsymbol : (s.data t).symbol? t = none) : Ends u.Reaches s fun fuel => u.display fuel t := by
  refine Ends.succ ?_
  simp only [display]
  refine Ends.query_bind ?_
  cases hdata : s.data t with
  | form f =>
    rw [hdata] at hunion hsymbol
    cases f with
    | intrinsic | literal | unresolved => exact .pure .refl _
    | param | array | reference => cases hsymbol
    | union => cases hunion
  | namedUnion origin branches =>
    rw [hdata] at hunion
    cases hunion
  | object origin shape =>
    rw [hdata] at hsymbol
    cases origin with
    | none => cases hsymbol
    | some => cases hsymbol
  | reserved => exact .pure .refl _

/-- The key of a type comes to an end, and so does that of each type on its way, if the texts do
that it asks for. -/
theorem keyWithin_ends (hs : u.Sound s) (hdescends : s.Descends)
    (htexts : ∀ x, s.KeyShows t x → u.TextEnds s x) (p : List TypeId × TypeId) : s.Has p.2 →
    Relation.ReflTransGen s.KeyStep ([], t) p → ∀ s', u.Reaches s s' →
      Ends u.Reaches s' fun fuel => u.keyWithin fuel p.1 p.2 := by
  induction p using (Interner.keyStep_wellFounded hdescends).induction with
  | _ p ih =>
    obtain ⟨opened, x⟩ := p
    intro hx hway s' hreaches
    have hgrown := reaches_grown hs hreaches
    have hdata : s'.data x = s.data x := hgrown.grows.data x hx
    -- every type that the key goes on to has its key, in whatever table comes of this one
    have hparts : ∀ {opened' : List TypeId} {xs : List TypeId},
        (∀ y ∈ xs, s.KeyStep (opened, x) (opened', y)) → (∀ y ∈ xs, y ∈ (s.data x).parts) →
        Ends u.Reaches s' fun fuel => xs.mapM (u.keyWithin fuel opened') := by
      intro opened' xs hsteps hxs
      refine .mapM (fun _ _ _ => .trans) (fun _ => .refl) xs fun y hy s'' hreaches' => ?_
      have hstep := hsteps y hy
      exact ih _ hstep (hs.parts x y (hxs y hy)) (hway.tail hstep) s'' (hreaches.trans hreaches')
    refine keyWithin_ends_step (fun _ => .refl) (fun _ _ _ => .trans) (fun hsymbol hopen => ?_)
      (fun branches hunion hnew => ?_) fun hunion => ?_
    · cases hunion : (s'.data x).union? with
      | none => exact display_ends_of_word hunion hsymbol
      | some branches =>
        have hmem : x ∈ opened := hopen (by rw [hunion]; rfl)
        rw [hdata] at hunion hsymbol
        rcases TypeData.union?_eq_some_iff.1 hunion with hform | ⟨origin, hnamed⟩
        · have hends := htexts x ⟨⟨branches, hform⟩, opened, hmem, hway⟩
          exact hends.ends hreaches (hgrown.has hx)
        · rw [hnamed] at hsymbol
          cases hsymbol
    · rw [hdata] at hunion
      exact hparts (fun b hb => .branch hunion hnew hb) (TypeData.union?_parts hunion)
    · rw [hdata] at hunion ⊢
      exact hparts (fun y hy => .argument hunion hy) (TypeData.arguments_parts _)

/-- The texts of declarations without type parameters are finite if no alias is around an inline
object which mentions it. -/
theorem textEnds_of_finiteTexts (hu : u.Monomorphic) (hfinite : u.FiniteTexts)
    (h : u.Reaches u.start s) (t : TypeId) : u.TextEnds s t := by
  intro s' hreaches
  have hsteady := Steady.of_reaches hu (h.trans hreaches)
  obtain ⟨text, s'', -, n, hrun⟩ := display_answers hu hfinite t.index t s' rfl hsteady
  exact ⟨n, text, s'', hrun n (Nat.le_refl n)⟩

/-! ## Keys without an end

The converse is read off a run.  Asked again, a key adds nothing, so the table can be taken
to be one at which the key is found without a change; there the runs for the parts leave the
table as it is as well, down to the text. -/

theorem keyWithin_union {opened branches : List TypeId} (hunion : s.union? t = some branches)
    (hnew : t ∉ opened) (fuel : Nat) : u.keyWithin (fuel + 1) opened t s =
      (do pure (TypeKey.union (← branches.mapM (u.keyWithin fuel (t :: opened)))) : Session TypeKey) s := by
  have hopened : ¬ opened.contains t = true := fun h => hnew (List.contains_iff_mem.1 h)
  rw [keyWithin, Session.query_bind]
  rcases TypeData.union?_eq_some_iff.1 hunion with hdata | ⟨origin, hdata⟩
  · rw [hdata]
    simp only [TypeData.intrinsic?, TypeData.literal?, TypeData.union?, if_neg hopened]
  · rw [hdata]
    simp only [TypeData.intrinsic?, TypeData.literal?, TypeData.union?, if_neg hopened]

theorem keyWithin_union_within {opened branches : List TypeId}
    (hdata : s.data t = .form (.union branches)) (ht : t ∈ opened) (fuel : Nat) :
    u.keyWithin (fuel + 1) opened t s =
      (do pure (TypeKey.opaqueText (← u.display fuel t)) : Session TypeKey) s := by
  rw [keyWithin, Session.query_bind, hdata]
  simp only [TypeData.intrinsic?, TypeData.literal?, TypeData.union?, TypeData.symbol?,
    if_pos (List.contains_iff_mem.2 ht)]

theorem exists_keyWithin_generic (hunion : s.union? t = none) (hargs : s.arguments t ≠ [])
    (opened : List TypeId) (fuel : Nat) : ∃ symbol, u.keyWithin (fuel + 1) opened t s =
      (do pure (TypeKey.generic symbol (← (s.arguments t).mapM (u.keyWithin fuel opened))) :
        Session TypeKey) s := by
  rw [keyWithin, Session.query_bind]
  unfold Interner.arguments at hargs ⊢
  unfold Interner.union? at hunion
  cases hdata : s.data t with
  | form f =>
    rw [hdata] at hargs
    cases f with
    | array element => exact ⟨_, rfl⟩
    | reference inst =>
      obtain ⟨symbol, _ | ⟨a, as⟩⟩ := inst
      · exact absurd rfl hargs
      · exact ⟨symbol, rfl⟩
    | intrinsic | literal | unresolved | param | union => exact absurd rfl hargs
  | namedUnion origin branches =>
    rw [hdata] at hunion
    cases hunion
  | object origin shape =>
    rw [hdata] at hargs
    cases origin with
    | none => exact absurd rfl hargs
    | some inst =>
      obtain ⟨symbol, _ | ⟨a, as⟩⟩ := inst
      · exact absurd rfl hargs
      · exact ⟨symbol, rfl⟩
  | reserved =>
    rw [hdata] at hargs
    exact absurd rfl hargs

/-- A key that adds nothing to the table is made of such keys. -/
theorem exists_keyWithin_of_keyStep (hs : u.Sound s) {p q : List TypeId × TypeId} {fuel : Nat}
    {key : TypeKey} (hrun : u.keyWithin (fuel + 1) p.1 p.2 s = some (key, s))
    (hstep : s.KeyStep p q) : ∃ key', u.keyWithin fuel q.1 q.2 s = some (key', s) := by
  have hlist : ∀ {t : TypeId} {opened ts : List TypeId} {keys : List TypeKey},
      (∀ y ∈ ts, y ∈ (s.data t).parts) → ts.mapM (u.keyWithin fuel opened) s = some (keys, s) →
        ∀ y ∈ ts, ∃ key', u.keyWithin fuel opened y s = some (key', s) := by
    intro t opened ts keys hts hkeys y hy
    exact Settles.exists_of_mapM hs (fun z hz s' h' => keyWithin_settles u fuel opened z s'
      h'.sound (h'.has (hs.parts t z (hts z hz)))) hkeys y hy
  cases hstep with
  | @branch opened t b branches hunion hnew hb =>
    rw [keyWithin_union hunion hnew] at hrun
    obtain ⟨keys, s₁, hkeys, hpure⟩ := bind_eq_some.1 hrun
    cases hpure
    exact hlist (fun y hy => TypeData.union?_parts hunion hy) hkeys b hb
  | @argument opened t x hunion hx =>
    obtain ⟨symbol, hgeneric⟩ := exists_keyWithin_generic (u := u) hunion (List.ne_nil_of_mem hx) opened fuel
    rw [hgeneric] at hrun
    obtain ⟨keys, s₁, hkeys, hpure⟩ := bind_eq_some.1 hrun
    cases hpure
    exact hlist (fun y hy => TypeData.arguments_parts _ hy) hkeys x hx

theorem exists_keyWithin_of_way (hs : u.Sound s) {p q : List TypeId × TypeId} {fuel : Nat}
    {key : TypeKey} (hrun : u.keyWithin fuel p.1 p.2 s = some (key, s))
    (hway : Relation.ReflTransGen s.KeyStep p q) :
    ∃ fuel key, u.keyWithin fuel q.1 q.2 s = some (key, s) := by
  induction hway with
  | refl => exact ⟨fuel, key, hrun⟩
  | tail _ hstep ih =>
    obtain ⟨n, key', hrun'⟩ := ih
    cases n with
    | zero => cases hrun'
    | succ n => exact ⟨n, exists_keyWithin_of_keyStep hs hrun' hstep⟩

/-- **A key has the texts that it asks for.** -/
theorem exists_display_of_keyShows (hs : u.Sound s) {fuel : Nat} {key : TypeKey} {x : TypeId}
    (hrun : u.keyOf fuel t s = some (key, s)) (h : s.KeyShows t x) :
    ∃ fuel text, u.display fuel x s = some (text, s) := by
  obtain ⟨⟨branches, hdata⟩, opened, hx, hway⟩ := h
  obtain ⟨n, key', hrun'⟩ := exists_keyWithin_of_way hs (p := ([], t)) hrun hway
  cases n with
  | zero => cases hrun'
  | succ n =>
    rw [keyWithin_union_within hdata hx] at hrun'
    obtain ⟨text, s₁, htext, hpure⟩ := bind_eq_some.1 hrun'
    cases hpure
    exact ⟨n, text, htext⟩

/-- They come to an end then, whatever is asked after the key. -/
theorem textEnds_of_keyShows (hs : u.Sound s) (ht : s.Has t) {fuel : Nat} {key : TypeKey}
    (hrun : u.keyOf fuel t s = some (key, s')) {x : TypeId} (h : s.KeyShows t x) :
    u.TextEnds s' x := by
  obtain ⟨hgrown, hlasts, -⟩ := keyWithin_settles u fuel [] t s hs ht key s' hrun
  obtain ⟨n, text, htext⟩ := exists_display_of_keyShows hgrown.sound hlasts.now (h.grown hgrown.grows)
  have hx : s'.Has x := hgrown.has h.has
  obtain ⟨-, htextLasts, -⟩ := display_settles u n x s' hgrown.sound hx text s' htext
  intro s'' hreaches
  exact ⟨n, text, s'', htextLasts s'' (reaches_grown hgrown.sound hreaches).grows⟩

end Universe

/-! ## Places in a key

A place is a path of numbers through the parts of a key, and the same path leads through the
branches and arguments of the type.  Where the key is cut short, the union that it names has
to be on that path. -/

/-- The keys of branches or arguments that the key is made of. -/
def TypeKey.parts : TypeKey → List TypeKey
  | .union keys => keys
  | .generic _ keys => keys
  | _ => []

/-- The alias of the union that the key stands for within itself. -/
def TypeKey.backReference? : TypeKey → Option Symbol
  | .recursive origin => some origin
  | _ => none

theorem TypeKey.backReference?_eq_some_iff {key : TypeKey} {origin : Symbol} :
    key.backReference? = some origin ↔ key = .recursive origin := by
  constructor
  · intro h
    unfold backReference? at h
    split at h
    · cases h
      rfl
    · cases h
  · rintro rfl
    rfl

/-- The key at a place, each step to which leads to the part of that number. -/
def TypeKey.at? (key : TypeKey) (path : List Nat) : Option TypeKey :=
  path.foldlM (fun k i => k.parts[i]?) key

/-- The type whose key stands at the place in the key of the type. -/
def Interner.keyedAt? (s : Interner) (t : TypeId) (path : List Nat) : Option TypeId :=
  path.foldlM (fun x i => ((s.union? x).getD (s.arguments x))[i]?) t

/-- On the way to the place in the key of the type stands the key of the union. -/
def Enclosed (s : Interner) (t : TypeId) (key : TypeKey) (path : List Nat) (x : TypeId) : Prop :=
  ∃ before rest opened keys, path = before ++ rest ∧ rest ≠ [] ∧ s.keyedAt? t before = some x ∧
    key.at? before = some (.union keys) ∧ Keyed s opened x (.union keys)

section Places

variable {s : Interner} {t x : TypeId} {key : TypeKey} {opened : List TypeId}

theorem TypeKey.at?_cons (key : TypeKey) (i : Nat) (path : List Nat) :
    key.at? (i :: path) = key.parts[i]?.bind (·.at? path) := List.foldlM_cons ..

theorem Interner.keyedAt?_cons (s : Interner) (t : TypeId) (i : Nat) (path : List Nat) :
    s.keyedAt? t (i :: path) =
      ((s.union? t).getD (s.arguments t))[i]?.bind (s.keyedAt? · path) := List.foldlM_cons ..

theorem Enclosed.cons {k : TypeKey} {b : TypeId} {i : Nat} {path : List Nat}
    (hk : key.parts[i]? = some k) (hb : ((s.union? t).getD (s.arguments t))[i]? = some b)
    (h : Enclosed s b k path x) : Enclosed s t key (i :: path) x := by
  obtain ⟨before, rest, opened, keys, rfl, hrest, hx, hunion, hkeyed⟩ := h
  refine ⟨i :: before, rest, opened, keys, rfl, hrest, ?_, ?_, hkeyed⟩
  · rw [Interner.keyedAt?_cons, hb]
    exact hx
  · rw [TypeKey.at?_cons, hk]
    exact hunion

theorem exists_part {ts : List TypeId} {keys : List TypeKey} (hparts : key.parts = keys)
    (hts : (s.union? t).getD (s.arguments t) = ts) (hlen : ts.length = keys.length) {i : Nat}
    {path : List Nat} {k : TypeKey} (hat : key.at? (i :: path) = some k) :
    ∃ b kb, (b, kb) ∈ ts.zip keys ∧ key.parts[i]? = some kb ∧
      ((s.union? t).getD (s.arguments t))[i]? = some b ∧ kb.at? path = some k := by
  rw [TypeKey.at?_cons] at hat
  obtain ⟨kb, hkb, hat⟩ := Option.bind_eq_some_iff.1 hat
  subst hparts hts
  obtain ⟨hi, -⟩ := List.getElem?_eq_some_iff.1 hkb
  have hb := List.getElem?_eq_getElem (hlen.symm ▸ hi)
  exact ⟨_, kb, List.mem_of_getElem? (List.getElem?_zip_eq_some.2 ⟨hb, hkb⟩), hkb, hb, hat⟩

/-- **Where a key is cut short, it stands within the key of the union that it goes back to**, or
this is one of those around the type. -/
theorem Keyed.enclosed (h : Keyed s opened t key) : ∀ {path : List Nat} {origin : Symbol},
    key.at? path = some (.recursive origin) → ∃ x, s.keyedAt? t path = some x ∧
      s.symbol? x = some origin ∧ (x ∈ opened ∨ Enclosed s t key path x) := by
  have hplain : ∀ {key : TypeKey}, key.parts = [] → (∀ symbol, key ≠ .recursive symbol) →
      ∀ {path : List Nat} {origin : Symbol}, key.at? path ≠ some (.recursive origin) := by
    intro key hparts hne path origin hat
    cases path with
    | nil => exact hne origin (Option.some.inj hat)
    | cons i path =>
      rw [TypeKey.at?_cons, hparts] at hat
      cases hat
  induction h with
  | null | undefined | intrinsic | literal | cut | symbol | text =>
    exact fun hat => absurd hat (hplain rfl fun _ h => by cases h)
  | @recursive opened t _ _ ht hsymbol =>
    intro path origin hat
    cases path with
    | nil =>
      cases hat
      exact ⟨t, rfl, hsymbol, .inl ht⟩
    | cons i path =>
      rw [TypeKey.at?_cons] at hat
      cases hat
  | @union opened t branches keys hunion hnew hlen hkeys ih =>
    intro path origin hat
    cases path with
    | nil => cases hat
    | cons i path =>
      obtain ⟨b, k, hmem, hk, hb, hat⟩ := exists_part rfl (by rw [hunion]; rfl) hlen hat
      obtain ⟨x, hx, hsymbol, hplace⟩ := ih hmem hat
      refine ⟨x, by rw [Interner.keyedAt?_cons, hb]; exact hx, hsymbol, ?_⟩
      rcases hplace with hopen | henclosed
      · rcases List.mem_cons.1 hopen with rfl | hopen
        -- it goes back to this union, whose key is the whole
        · exact .inr ⟨[], i :: path, opened, keys, rfl, List.cons_ne_nil i path, rfl, rfl,
            .union hunion hnew hlen hkeys⟩
        · exact .inl hopen
      · exact .inr (henclosed.cons hk hb)
  | @generic opened t symbol keys _ _ hunion _ hlen _ ih =>
    intro path origin hat
    cases path with
    | nil => cases hat
    | cons i path =>
      obtain ⟨b, k, hmem, hk, hb, hat⟩ := exists_part rfl (by rw [hunion]; rfl) hlen hat
      obtain ⟨x, hx, hsymbol, hplace⟩ := ih hmem hat
      refine ⟨x, by rw [Interner.keyedAt?_cons, hb]; exact hx, hsymbol, ?_⟩
      exact hplace.imp_right fun henclosed => henclosed.cons hk hb

end Places

namespace Universe

variable {u : Universe} {s : Interner} {t : TypeId}

/-- **Keys have an end and are well scoped.**  Whatever has been asked: each step of a key comes
to an earlier handle unless it opens a named union, and so no way of a key goes on for ever; the
key of a type has an end if the texts have one of the unions without a name that it meets within
themselves, and only then; and wherever it is cut short at a named union it stands within the key
of that union. -/
theorem key_terminates_scoped (h : u.Reaches u.start s) (ht : s.Has t) :
    (∀ opened x opened' y, s.KeyStep (opened, x) (opened', y) → y.index < x.index ∨
      x ∉ opened ∧ opened' = x :: opened ∧ ∃ origin branches, s.data x = .namedUnion origin branches) ∧
    (WellFounded fun q p => s.KeyStep p q) ∧
    ((∀ x, s.KeyShows t x → u.TextEnds s x) →
      ∃ n key s', ∀ fuel, n ≤ fuel → u.keyOf fuel t s = some (key, s')) ∧
    ∀ fuel key s', u.keyOf fuel t s = some (key, s') → (∀ x, s.KeyShows t x → u.TextEnds s' x) ∧
      ∀ path origin, key.at? path = some (.recursive origin) → ∃ x, s'.keyedAt? t path = some x ∧
        s'.symbol? x = some origin ∧ Enclosed s' t key path x := by
  have hs := (reaches_grown (start_sound u) h).sound
  have hdescends := descends_of_reaches h
  refine ⟨fun _ _ _ _ hstep => hstep.descends hdescends, Interner.keyStep_wellFounded hdescends,
    fun htexts => ?_, fun fuel key s' hrun => ⟨fun x hx => textEnds_of_keyShows hs ht hrun hx,
      fun path origin hat => ?_⟩⟩
  · obtain ⟨key, s', -, n, hrun⟩ := keyWithin_ends hs hdescends htexts ([], t) ht .refl s .refl
    exact ⟨n, key, s', hrun⟩
  · obtain ⟨hgrown, hlasts, -⟩ := keyWithin_settles u fuel [] t s hs ht key s' hrun
    have hkeyed := keyed_of_run hgrown.sound fuel (hgrown.has ht) hlasts.now
    obtain ⟨x, hx, hsymbol, hplace⟩ := hkeyed.enclosed hat
    exact ⟨x, hx, hsymbol, hplace.resolve_left List.not_mem_nil⟩

/-- One unit: a named union that comes up in the elements of an array, in a union without a
name. -/
def thicketUniverse : Universe where
  units := [⟨"thicket.ts", [
    { name := "Tree", exported := true, line := none, typeParams := []
      body := .typeAlias (.union [.name "string", .array (.union [.name "Tree", .name "null"])]) }]⟩]
  distinct := by decide

theorem thicketUniverse_monomorphic : thicketUniverse.Monomorphic := by
  intro entry hmem
  cases List.mem_singleton.1 hmem
  rfl

theorem thicketUniverse_finiteTexts : thicketUniverse.FiniteTexts := by
  intro id d body hd hbody hopen
  have hmem : (id, d) ∈ thicketUniverse.declarations := mem_declarations_iff.2 hd
  cases List.mem_singleton.1 hmem
  cases hbody
  cases hopen

/-- The key of the tree is cut short at its subtrees, which are the first branch of the elements
of its second branch. -/
theorem thicketUniverse_key : ∃ s t, thicketUniverse.Reaches thicketUniverse.start s ∧ s.Has t ∧
    (∀ x, s.KeyShows t x → thicketUniverse.TextEnds s x) ∧
    (∃ n key s', ∀ fuel, n ≤ fuel → thicketUniverse.keyOf fuel t s = some (key, s')) ∧
    ∃ key s' x, thicketUniverse.keyOf 6 t s = some (key, s') ∧
      key.at? [1, 0, 0] = some (.recursive (.declared ⟨0, 0⟩)) ∧
      s'.symbol? x = some (.declared ⟨0, 0⟩) ∧ Enclosed s' t key [1, 0, 0] x := by
  have hrun : ((thicketUniverse.declared? 6 "Tree" thicketUniverse.start).bind fun r =>
      r.1.bind fun t => (thicketUniverse.keyOf 6 t r.2).bind fun k =>
        (k.1.at? [1, 0, 0]).bind (·.backReference?)) = some (.declared ⟨0, 0⟩) := by decide +kernel
  obtain ⟨⟨found, s⟩, hdeclared, hrun⟩ := Option.bind_eq_some_iff.1 hrun
  obtain ⟨t, rfl, hrun⟩ := Option.bind_eq_some_iff.1 hrun
  obtain ⟨⟨key, s'⟩, hkey, hrun⟩ := Option.bind_eq_some_iff.1 hrun
  obtain ⟨_, hat, hcut⟩ := Option.bind_eq_some_iff.1 hrun
  obtain rfl := TypeKey.backReference?_eq_some_iff.1 hcut
  have ht : s.Has t :=
    (declared?_yields (start_sound thicketUniverse) 6 "Tree" _ _ hdeclared).2 t rfl
  have hreaches : thicketUniverse.Reaches thicketUniverse.start s := .single (.declared hdeclared)
  have htexts : ∀ x, s.KeyShows t x → thicketUniverse.TextEnds s x := fun x _ =>
    textEnds_of_finiteTexts thicketUniverse_monomorphic thicketUniverse_finiteTexts hreaches x
  obtain ⟨-, -, hends, hscoped⟩ := key_terminates_scoped hreaches ht
  obtain ⟨x, -, hsymbol, henclosed⟩ := (hscoped 6 key s' hkey).2 _ _ hat
  exact ⟨s, t, hreaches, ht, htexts, hends htexts, key, s', x, hkey, hat, hsymbol, henclosed⟩

/-! ## A type with a finite text and no key

A text that contains itself has no end with any fuel, and a key that asks for it has none.
The type below is shown by its name alone; its key comes to a union without a name within
that union itself, and one of the branches of that union is such a text. -/

theorem display_namedUnion {symbol : Symbol} {branches : List TypeId}
    (hdata : s.data t = .namedUnion ⟨symbol, []⟩ branches) (fuel : Nat) :
    u.display (fuel + 1) t s = some (u.symbolName symbol, s) := by
  rw [display, Session.query_bind, hdata]
  rfl

/-- **A key that asks for a text without an end has none**, with whatever fuel. -/
theorem keyOf_eq_none_of_circles (hs : u.Sound s) (ht : s.Has t) {x : TypeId}
    (hshows : s.KeyShows t x) (hcircles : TextCircles s x) (fuel : Nat) :
    u.keyOf fuel t s = none := by
  refine Option.eq_none_iff_forall_ne_some.2 fun ⟨key, s'⟩ hrun => ?_
  have hgrown := (keyWithin_settles u fuel [] t s hs ht key s' hrun).1
  obtain ⟨n, text, s'', htext⟩ := textEnds_of_keyShows hs ht hrun hshows s' .refl
  rw [(hcircles.grown hgrown.grows).display_eq_none hgrown.sound (hgrown.has hshows.has)] at htext
  cases htext

/-- One unit: rows of inline objects that lead back to the rows through an alias that is no union,
and two named unions of arrays of what is a branch or rows. -/
def hedgeUniverse : Universe where
  units := [⟨"hedge.ts", [
    { name := "Row", exported := true, line := none, typeParams := []
      body := .typeAlias (.array (.object [⟨"next", false, false, some (.name "Row")⟩] [])) },
    { name := "Branch", exported := true, line := none, typeParams := []
      body := .typeAlias (.union [.name "number", .array (.union [.name "Branch", .name "Row"])]) },
    { name := "Hedge", exported := true, line := none, typeParams := []
      body := .typeAlias (.union [.name "string", .array (.union [.name "Branch", .name "Row"])]) }]⟩]
  distinct := by decide

/-- What the table says of the hedge (0), the branch (2) and what both are arrays (7) of (6), and of
the rows (5) and their object (4), once this has been asked for its members. -/
structure HedgeTable (s : Interner) : Prop where
  hedge : s.union? ⟨0⟩ = some [⟨1⟩, ⟨7⟩]
  name : s.symbol? ⟨0⟩ = some (.declared ⟨0, 2⟩) ∧ s.arguments ⟨0⟩ = []
  branch : s.union? ⟨2⟩ = some [⟨3⟩, ⟨7⟩]
  either : s.union? ⟨6⟩ = some [⟨2⟩, ⟨5⟩] ∧ s.symbol? ⟨6⟩ = none
  array : s.element? ⟨7⟩ = some ⟨6⟩
  rows : s.element? ⟨5⟩ = some ⟨4⟩
  object : (s.data ⟨4⟩).inline?.isSome = true ∧ s.members? ⟨4⟩ = some [⟨"next", false, some ⟨5⟩⟩]

instance (s : Interner) : Decidable (HedgeTable s) :=
  decidable_of_iff (_ ∧ _ ∧ _ ∧ _ ∧ _ ∧ _ ∧ _)
    ⟨fun ⟨h₁, h₂, h₃, h₄, h₅, h₆, h₇⟩ => ⟨h₁, h₂, h₃, h₄, h₅, h₆, h₇⟩,
      fun ⟨h₁, h₂, h₃, h₄, h₅, h₆, h₇⟩ => ⟨h₁, h₂, h₃, h₄, h₅, h₆, h₇⟩⟩

namespace HedgeTable

theorem data_hedge (h : HedgeTable s) :
    s.data ⟨0⟩ = .namedUnion ⟨.declared ⟨0, 2⟩, []⟩ [⟨1⟩, ⟨7⟩] := by
  obtain ⟨hsymbol, hargs⟩ := h.name
  rcases TypeData.union?_eq_some_iff.1 h.hedge with hdata | ⟨⟨symbol, args⟩, hdata⟩
  · rw [Interner.symbol?, hdata] at hsymbol
    cases hsymbol
  · rw [Interner.symbol?, hdata] at hsymbol
    rw [Interner.arguments, hdata] at hargs
    cases hsymbol
    cases hargs
    exact hdata

theorem data_either (h : HedgeTable s) : s.data ⟨6⟩ = .form (.union [⟨2⟩, ⟨5⟩]) := by
  obtain ⟨hunion, hsymbol⟩ := h.either
  rcases TypeData.union?_eq_some_iff.1 hunion with hdata | ⟨origin, hdata⟩
  · exact hdata
  · rw [Interner.symbol?, hdata] at hsymbol
    cases hsymbol

/-- The key goes from the hedge to its array, to what this is an array of, to the branch and through
its array back. -/
theorem keyShows (h : HedgeTable s) : s.KeyShows ⟨0⟩ ⟨6⟩ := by
  have harray : ∀ opened, s.KeyStep (opened, ⟨7⟩) (opened, ⟨6⟩) := fun opened => by
    have hdata := TypeData.element?_eq_some_iff.1 h.array
    refine .argument ?_ ?_
    · rw [Interner.union?, hdata]
      rfl
    · rw [Interner.arguments, hdata]
      exact List.mem_cons_self
  refine ⟨⟨_, h.data_either⟩, [⟨2⟩, ⟨6⟩, ⟨0⟩], by decide, ?_⟩
  have hway : Relation.ReflTransGen s.KeyStep ([], ⟨0⟩) ([⟨0⟩], ⟨6⟩) :=
    .tail (.single (.branch h.hedge (by decide) (by decide))) (harray _)
  have hbranch : s.KeyStep ([⟨0⟩], ⟨6⟩) ([⟨6⟩, ⟨0⟩], ⟨2⟩) := .branch h.either.1 (by decide) (by decide)
  have hback : s.KeyStep ([⟨6⟩, ⟨0⟩], ⟨2⟩) ([⟨2⟩, ⟨6⟩, ⟨0⟩], ⟨7⟩) :=
    .branch h.branch (by decide) (by decide)
  exact ((hway.tail hbranch).tail hback).tail (harray _)

/-- The text goes on to the rows, and from these to their object and back for ever. -/
theorem textCircles (h : HedgeTable s) : TextCircles s ⟨6⟩ := by
  obtain ⟨hinline, hmembers⟩ := h.object
  obtain ⟨spot, hinline⟩ := Option.isSome_iff_exists.1 hinline
  have hrows : TextStep s ⟨6⟩ ⟨5⟩ := .shown (by rw [h.data_either]; decide)
  have hobject : TextStep s ⟨5⟩ ⟨4⟩ :=
    .shown (by rw [TypeData.element?_eq_some_iff.1 h.rows]; exact List.mem_cons_self)
  have hnext : TextStep s ⟨4⟩ ⟨5⟩ := .member hinline hmembers List.mem_cons_self rfl
  exact ⟨⟨5⟩, .single hrows, .tail (.single hobject) hnext⟩

end HedgeTable

/-- **The display of the hedge is its name, and its key has no end**, whatever is asked once the
rows have been asked for their members. -/
theorem hedgeUniverse_key_endless : ∃ s t, hedgeUniverse.Reaches hedgeUniverse.start s ∧ s.Has t ∧
    ∀ s', hedgeUniverse.Reaches s s' → ∀ fuel,
      hedgeUniverse.display (fuel + 1) t s' = some ("Hedge", s') ∧
        hedgeUniverse.keyOf fuel t s' = none := by
  have hrun : ((hedgeUniverse.declared? 8 "Hedge" hedgeUniverse.start).bind fun r =>
      (hedgeUniverse.members 8 ⟨4⟩ r.2).bind fun m =>
        if 4 < r.2.slots.size ∧ HedgeTable m.2 then some () else none) = some () := by decide +kernel
  obtain ⟨⟨found, s₁⟩, hdeclared, hrun⟩ := Option.bind_eq_some_iff.1 hrun
  obtain ⟨⟨ms, s⟩, hmembers, hrun⟩ := Option.bind_eq_some_iff.1 hrun
  obtain ⟨hsize, htable⟩ : 4 < s₁.slots.size ∧ HedgeTable s := by
    split at hrun
    · assumption
    · cases hrun
  have hreaches : hedgeUniverse.Reaches hedgeUniverse.start s :=
    .tail (.single (.declared hdeclared)) (.members hsize hmembers)
  have hs := (reaches_grown (start_sound hedgeUniverse) hreaches).sound
  have ht : s.Has ⟨0⟩ := Interner.has_of_union? htable.hedge
  refine ⟨s, ⟨0⟩, hreaches, ht, fun s' h' fuel => ?_⟩
  obtain ⟨hs', hgrows⟩ := reaches_grown hs h'
  refine ⟨display_namedUnion ((hgrows.data ⟨0⟩ ht).trans htable.data_hedge) fuel, ?_⟩
  exact keyOf_eq_none_of_circles hs' (hgrows.has ht) (htable.keyShows.grown hgrows)
    (htable.textCircles.grown hgrows) fuel

end Universe
end TypedJson
