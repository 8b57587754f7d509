import TypedJson.Proofs.Edits
/-!
# Handles stand for one thing each

A form has one handle, and so has a record type and every instance of an alias that names a union,
an object or an intersection: the handle of a form is found by what it stands for, that of an
instance by the note that is made when the handle is reserved, before its parts are resolved
(`Universe.Consistent`).  Each change of the table keeps this (`Consistent.edit`), so it holds at
every moment, and whatever asks twice is answered alike (`Obtains.unique`), whether the second
call comes after the first one or within it.

The invariant is about two lists that have to agree: the handles with their data, and the
notes with the instances.  An open handle is noted for the one instance that it was reserved
for; when it is filled in, its data names that instance.  Notes for transparent aliases are
another matter, as many of them may lead to one handle, so they are left out (`Individual`).
-/
namespace TypedJson

theorem Interner.mem_record_both {s : Interner} {inst inst₁ inst₂ : Instance} {t t₁ t₂ : TypeId}
    (hinst : ∀ t', (inst, t') ∉ s.instances) (ht : ∀ inst', (inst', t) ∉ s.instances)
    (h₁ : (inst₁, t₁) ∈ (s.record inst t).instances)
    (h₂ : (inst₂, t₂) ∈ (s.record inst t).instances) (hshare : inst₁ = inst₂ ∨ t₁ = t₂) :
    (inst₁ = inst₂ ∧ t₁ = t₂) ∨ ((inst₁, t₁) ∈ s.instances ∧ (inst₂, t₂) ∈ s.instances) := by
  rcases List.mem_cons.1 h₁ with heq₁ | hold₁
  · cases heq₁
    rcases List.mem_cons.1 h₂ with heq₂ | hold₂
    · cases heq₂
      exact .inl ⟨rfl, rfl⟩
    · rcases hshare with rfl | rfl
      · exact absurd hold₂ (hinst t₂)
      · exact absurd hold₂ (ht inst₂)
  · rcases List.mem_cons.1 h₂ with heq₂ | hold₂
    · cases heq₂
      rcases hshare with rfl | rfl
      · exact absurd hold₁ (hinst t₁)
      · exact absurd hold₁ (ht inst₁)
    · exact .inr ⟨hold₁, hold₂⟩

namespace Universe

variable {u : Universe} {s s' : Interner} {inst : Instance} {t : TypeId}

/-- The instance is one of a record or of an alias with a handle of its own. -/
def Individual (u : Universe) (inst : Instance) : Prop :=
  u.IsNominal inst ∨ ∃ key value, inst = recordInstance key value

theorem individual_record (u : Universe) (key value : TypeId) :
    u.Individual (recordInstance key value) := .inr ⟨key, value, rfl⟩

theorem Individual.not_transparent (h : u.Individual inst) : ¬ u.IsTransparent inst := by
  rcases h with hnominal | ⟨key, value, rfl⟩
  · exact hnominal.not_transparent
  · rintro ⟨_, _, ⟨_, _, hid, -⟩, -⟩
    cases hid

/-! ## What exists

A handle or symbol is that of something if it is in the table or declared; this is a
consequence of soundness and of where notes come from. -/

/-- The symbol is that of something there is. -/
def SymbolIn (u : Universe) (s : Interner) : Symbol → Prop
  | .builtin _ => True
  | .declared id => ∃ d, u.declaration? id = some d
  | .param id position => ∃ d, u.declaration? id = some d ∧ position < d.typeParams.length
  | .anonymous t => s.Has t ∧ ∃ shape, s.data t = .object none shape

/-- The symbol of the instance and its arguments are those of something there is. -/
def InstanceIn (u : Universe) (s : Interner) (inst : Instance) : Prop :=
  u.SymbolIn s inst.symbol ∧ ∀ a ∈ inst.args, s.Has a

/-- Every handle and every symbol that the table holds is that of something there is. -/
structure InRange (u : Universe) (s : Interner) : Prop where
  parts : ∀ t, ∀ p ∈ (s.data t).parts, s.Has p
  symbols : ∀ t symbol, s.symbol? t = some symbol → u.SymbolIn s symbol
  lists : ∀ k t l, s.kept? k t = some l → s.Has t ∧ k.ItemsIn l s
  instances : ∀ inst t, (inst, t) ∈ s.instances → u.InstanceIn s inst ∧ s.Has t
  expanding : ∀ inst ∈ s.expanding, u.InstanceIn s inst

theorem IsAlias.symbolIn {symbol : Symbol} (h : u.IsAlias symbol) : u.SymbolIn s symbol := by
  obtain ⟨id, d, body, rfl, hd, -⟩ := h
  exact ⟨d, hd⟩

theorem IsBody.symbolIn {body : TypeExpr} {scope : Scope} (h : u.IsBody inst body scope) :
    u.SymbolIn s inst.symbol := by
  obtain ⟨id, d, hid, hd, -⟩ := h
  rw [hid]
  exact ⟨d, hd⟩

/-- The instance is one that a type may be noted for. -/
structure Notable (u : Universe) (s : Interner) (inst : Instance) : Prop where
  kind : u.Individual inst ∨ u.IsTransparent inst
  args : ∀ a ∈ inst.args, s.Has a
  all : u.IsNominal inst → u.TakesAll inst

theorem Notable.mono (h : u.Notable s inst) (hhas : ∀ t, s.Has t → s'.Has t) : u.Notable s' inst :=
  ⟨h.kind, fun a ha => hhas a (h.args a ha), h.all⟩

theorem Notable.instanceIn (h : u.Notable s inst) : u.InstanceIn s inst := by
  refine ⟨?_, h.args⟩
  rcases h.kind with (⟨_, _, hbody, -⟩ | ⟨key, value, rfl⟩) | ⟨_, _, hbody, -⟩
  · exact hbody.symbolIn
  · trivial
  · exact hbody.symbolIn

theorem notable_record {key value : TypeId} (hk : s.Has key) (hv : s.Has value) :
    u.Notable s (recordInstance key value) where
  kind := .inl (individual_record u key value)
  args := List.forall_mem_cons.2 ⟨hk, List.forall_mem_singleton.2 hv⟩
  all hnominal := absurd hnominal (not_isNominal_builtin .record [key, value])

theorem IsTransparent.notable (h : u.IsTransparent inst) (hargs : ∀ a ∈ inst.args, s.Has a) :
    u.Notable s inst :=
  ⟨.inr h, hargs, fun hnominal => absurd h hnominal.not_transparent⟩

theorem Sound.symbolIn (hs : u.Sound s) {symbol : Symbol} (h : s.symbol? t = some symbol) :
    u.SymbolIn s symbol := by
  have hlawful := hs.lawful t
  unfold Interner.symbol? at h
  cases hdata : s.data t with
  | form f =>
    rw [hdata] at h hlawful
    cases f with
    | param symbol' =>
      cases h
      obtain ⟨id, position, d, rfl, hd, hposition⟩ := hlawful
      exact ⟨d, hd, hposition⟩
    | reference inst =>
      cases h
      rcases hlawful with ⟨b, -, rfl⟩ | ⟨id, d, hid, hd, -⟩
      · trivial
      · show u.SymbolIn s inst.symbol
        rw [hid]
        exact ⟨d, hd⟩
    | array element =>
      cases h
      trivial
    | _ => cases h
  | namedUnion origin branches =>
    rw [hdata] at h hlawful
    cases h
    exact hlawful.symbolIn
  | object origin shape =>
    rw [hdata] at h hlawful
    cases origin with
    | none =>
      cases h
      refine ⟨Interner.has_of_data_ne fun hreserved => ?_, shape, hdata⟩
      rw [hdata] at hreserved
      cases hreserved
    | some origin =>
      cases h
      cases shape with
      | record key value =>
        cases hlawful
        trivial
      | literal | intersection => exact IsAlias.symbolIn hlawful
  | reserved =>
    rw [hdata] at h
    cases h

/-! ## One handle for each thing

One lemma for each kind of change, and `edit` puts them together. -/

/-- A form has one handle.  An instance of a record or of an alias with a handle of its own is noted
with one handle, which is still open or named by the instance, and a type that is named by an
instance is noted for it. -/
structure Consistent (u : Universe) (s : Interner) : Prop where
  sound : u.Sound s
  forms : ∀ f t t', s.data t = .form f → s.data t' = .form f → t' = t
  single : ∀ inst t t', u.Individual inst → (inst, t) ∈ s.instances → (inst, t') ∈ s.instances →
    t' = t
  unique : ∀ inst inst' t, u.Individual inst → u.Individual inst' → (inst, t) ∈ s.instances →
    (inst', t) ∈ s.instances → inst' = inst
  noted : ∀ inst t, u.Individual inst → (inst, t) ∈ s.instances →
    s.data t = .reserved ∨ (s.data t).named? = some inst
  named : ∀ inst t, (s.data t).named? = some inst → u.Individual inst ∧ (inst, t) ∈ s.instances
  keys : ∀ inst t, (inst, t) ∈ s.instances → u.Notable s inst
  expanding : ∀ inst ∈ s.expanding, u.Notable s inst

namespace Consistent

variable {d : TypeData}

theorem empty (u : Universe) : u.Consistent .empty where
  sound := .empty u
  forms := fun _ _ _ h => by cases h
  single := fun _ _ _ _ h => by cases h
  unique := fun _ _ _ _ _ h => by cases h
  noted := fun _ _ _ h => by cases h
  named := fun _ _ h => by cases h
  keys := fun _ _ h => by cases h
  expanding := fun _ h => by cases h

theorem of_data (h : u.Consistent s) (hsound : u.Sound s') (hdata : ∀ t, s'.data t = s.data t)
    (hhas : ∀ t, s.Has t → s'.Has t) (hinstances : s'.instances = s.instances)
    (hexpanding : ∀ inst ∈ s'.expanding, u.Notable s' inst) : u.Consistent s' where
  sound := hsound
  forms := by
    simp only [hdata]
    exact h.forms
  single := by
    rw [hinstances]
    exact h.single
  unique := by
    rw [hinstances]
    exact h.unique
  noted := by
    simp only [hdata, hinstances]
    exact h.noted
  named := by
    simp only [hdata, hinstances]
    exact h.named
  keys := by
    rw [hinstances]
    exact fun inst t hmem => (h.keys inst t hmem).mono hhas
  expanding := hexpanding

theorem push (h : u.Consistent s) (hsound : u.Sound (s.push d).2) (hnamed : d.named? = none)
    (hnew : ∀ f, d = .form f → s.find? f = none) : u.Consistent (s.push d).2 := by
  have hgrows := Interner.Grows.push s d
  have hold : ∀ f t, d = .form f → s.data t ≠ .form f := fun f t hf =>
    Interner.find?_eq_none_iff.1 (hnew f hf) t
  refine ⟨hsound, fun f t t' ht ht' => ?_, h.single, h.unique, fun inst t hinst hmem => ?_,
    fun inst t hname => ?_, fun inst t hmem => (h.keys inst t hmem).mono fun _ => hgrows.has,
    fun inst hmem => (h.expanding inst hmem).mono fun _ => hgrows.has⟩
  · rw [Interner.data_push] at ht ht'
    split at ht
    · split at ht'
      · rename_i heq heq'
        exact TypeId.index_injective (heq'.trans heq.symm)
      · exact absurd ht' (hold f t' ht)
    · split at ht'
      · exact absurd ht (hold f t ht')
      · exact h.forms f t t' ht ht'
  · rw [hgrows.data t (h.sound.instances _ hmem)]
    exact h.noted inst t hinst hmem
  · rw [Interner.data_push] at hname
    split at hname
    · rw [hnamed] at hname
      cases hname
    · exact h.named inst t hname

/-- A new handle for an instance that has none, open or with its meaning. -/
theorem push_record (h : u.Consistent s) (hinst : u.Individual inst)
    (hnotable : u.Notable s inst) (hnew : s.instance? inst = none)
    (hd : d = .reserved ∨ d.named? = some inst)
    (hsound : u.Sound ((s.push d).2.record inst ⟨s.slots.size⟩)) :
    u.Consistent ((s.push d).2.record inst ⟨s.slots.size⟩) := by
  have hgrows := Interner.Grows.push s d
  have hform : ∀ f, d ≠ .form f := by
    rintro f rfl
    rcases hd with hd | hd
    · cases hd
    · cases hd
  have hnone := Interner.not_mem_of_instance? hnew
  -- no note is for a handle that is not there yet
  have hfresh : ∀ inst', (inst', ⟨s.slots.size⟩) ∉ s.instances := fun inst' hmem =>
    Nat.lt_irrefl _ (h.sound.instances _ hmem)
  have hdata : ∀ t, ((s.push d).2.record inst ⟨s.slots.size⟩).data t =
      if t.index = s.slots.size then d else s.data t := Interner.data_push s d
  refine ⟨hsound, fun f t t' ht ht' => ?_, fun inst' t t' hinst' hmem hmem' => ?_,
    fun inst' inst'' t hinst' hinst'' hmem hmem' => ?_, fun inst' t hinst' hmem => ?_,
    fun inst' t hname => ?_, fun inst' t hmem => ?_,
    fun inst' hmem => (h.expanding inst' hmem).mono fun _ => hgrows.has⟩
  · rw [hdata] at ht ht'
    split at ht
    · exact absurd ht (hform f)
    · split at ht'
      · exact absurd ht' (hform f)
      · exact h.forms f t t' ht ht'
  · rcases Interner.mem_record_both hnone hfresh hmem hmem' (.inl rfl) with ⟨-, heq⟩ | ⟨hold, hold'⟩
    · exact heq.symm
    · exact h.single inst' t t' hinst' hold hold'
  · rcases Interner.mem_record_both hnone hfresh hmem hmem' (.inr rfl) with ⟨heq, -⟩ | ⟨hold, hold'⟩
    · exact heq.symm
    · exact h.unique inst' inst'' t hinst' hinst'' hold hold'
  · rw [hdata]
    rcases List.mem_cons.1 hmem with heq | hmem
    · cases heq
      rw [if_pos rfl]
      exact hd
    · rw [if_neg (Nat.ne_of_lt (h.sound.instances _ hmem))]
      exact h.noted inst' t hinst' hmem
  · rw [hdata] at hname
    split at hname
    · rename_i heq
      rcases hd with rfl | hd
      · cases hname
      · rw [hd] at hname
        cases hname
        obtain rfl : t = ⟨s.slots.size⟩ := TypeId.index_injective heq
        exact ⟨hinst, List.mem_cons_self⟩
    · exact (h.named inst' t hname).imp_right (List.mem_cons_of_mem _)
  · rcases List.mem_cons.1 hmem with heq | hmem
    · cases heq
      exact hnotable.mono fun _ => hgrows.has
    · exact (h.keys inst' t hmem).mono fun _ => hgrows.has

/-! A handle that was reserved for an instance gets its meaning, and another note for the same
handle would be for the same instance. -/

theorem define (h : u.Consistent s) (hinst : u.Individual inst) (hmem : (inst, t) ∈ s.instances)
    (hnamed : d.named? = some inst) (hsound : u.Sound (s.define t d)) :
    u.Consistent (s.define t d) := by
  have ht := h.sound.instances _ hmem
  have hhas : ∀ x, s.Has x → (s.define t d).Has x := fun _ => (Interner.has_modifySlot s t _).2
  have hform : ∀ f, d ≠ .form f := by
    rintro f rfl
    cases hnamed
  refine ⟨hsound, fun f x x' hx hx' => ?_, h.single, h.unique, fun inst' x hinst' hmem' => ?_,
    fun inst' x hname => ?_, fun inst' x hmem' => (h.keys inst' x hmem').mono hhas,
    fun inst' hmem' => (h.expanding inst' hmem').mono hhas⟩
  · rw [Interner.data_define ht] at hx hx'
    split at hx
    · exact absurd hx (hform f)
    · split at hx'
      · exact absurd hx' (hform f)
      · exact h.forms f x x' hx hx'
  · rw [Interner.data_define ht]
    split
    · rename_i heq
      subst heq
      rw [h.unique inst inst' t hinst hinst' hmem hmem']
      exact .inr hnamed
    · exact h.noted inst' x hinst' hmem'
  · rw [Interner.data_define ht] at hname
    split at hname
    · rename_i heq
      subst heq
      rw [hnamed] at hname
      cases hname
      exact ⟨hinst, hmem⟩
    · exact h.named inst' x hname

/-! A transparent alias is noted for a type that may have notes of its own; what is unique is
asked of instances with a handle of their own only. -/

theorem record (h : u.Consistent s) (htransparent : u.IsTransparent inst)
    (hargs : ∀ a ∈ inst.args, s.Has a) (ht : s.Has t) : u.Consistent (s.record inst t) := by
  have hold : ∀ inst' t', u.Individual inst' → (inst', t') ∈ (s.record inst t).instances →
      (inst', t') ∈ s.instances := by
    intro inst' t' hinst' hmem
    rcases List.mem_cons.1 hmem with heq | hmem
    · cases heq
      exact absurd htransparent hinst'.not_transparent
    · exact hmem
  refine ⟨h.sound.record ht, h.forms, fun inst' x x' hinst' hmem hmem' => ?_,
    fun inst' inst'' x hinst' hinst'' hmem hmem' => ?_, fun inst' x hinst' hmem => ?_,
    fun inst' x hname => (h.named inst' x hname).imp_right (List.mem_cons_of_mem _),
    fun inst' x hmem => ?_, fun inst' hmem => (h.expanding inst' hmem).mono fun _ hx => hx⟩
  · exact h.single inst' x x' hinst' (hold _ _ hinst' hmem) (hold _ _ hinst' hmem')
  · exact h.unique inst' inst'' x hinst' hinst'' (hold _ _ hinst' hmem) (hold _ _ hinst'' hmem')
  · exact h.noted inst' x hinst' (hold _ _ hinst' hmem)
  · rcases List.mem_cons.1 hmem with heq | hmem
    · cases heq
      exact htransparent.notable hargs
    · exact (h.keys inst' x hmem).mono fun _ hx => hx

/-- **Every change keeps handles apart.** -/
theorem edit (h : u.Consistent s) (hedit : u.Edit s s') : u.Consistent s' := by
  have hsound := hedit.sound h.sound
  cases hedit with
  | intern new =>
    refine h.push hsound rfl fun f hf => ?_
    cases hf
    exact new
  | object => exact h.push hsound rfl fun f hf => by cases hf
  | @record key value new hk hv =>
    exact h.push_record (individual_record u key value) (notable_record hk hv) new (.inr rfl) hsound
  | reserve new nominal args all =>
    exact h.push_record (.inl nominal) ⟨.inl (.inl nominal), args, fun _ => all⟩ new (.inl rfl)
      hsound
  | define reserved nominal _ named => exact h.define (.inl nominal) reserved named hsound
  | note transparent args ht => exact h.record transparent args ht
  | expand transparent args =>
    exact h.of_data hsound (fun _ => rfl) (fun _ ht => ht) rfl (List.forall_mem_cons.2
      ⟨transparent.notable args, fun inst hmem => (h.expanding inst hmem).mono fun _ hx => hx⟩)
  | expanded =>
    exact h.of_data hsound (fun _ => rfl) (fun _ ht => ht) rfl
      fun inst hmem => (h.expanding inst (List.mem_of_mem_drop hmem)).mono fun _ hx => hx
  | keep k =>
    refine h.of_data hsound (fun _ => Interner.data_keep _) (fun _ => Interner.has_keep.2)
      Interner.instances_keep fun inst hmem => ?_
    rw [Interner.expanding_keep] at hmem
    exact (h.expanding inst hmem).mono fun _ => Interner.has_keep.2

theorem edited (h : u.Consistent s) (hedited : u.Edited s s') : u.Consistent s' :=
  hedited.induction (fun _ _ hs hedit => hs.edit hedit) h

/-- The table before anything is asked holds type parameters only. -/
theorem start (u : Universe) : u.Consistent u.start := by
  refine start_induction (.empty u) fun s id position d hd hposition h => ?_
  have hlawful : u.Lawful (.form (.param (.param id position))) :=
    ⟨id, position, d, rfl, hd, hposition⟩
  exact h.edited (Edits.intern h.sound (List.forall_mem_nil _) hlawful _ _ rfl).1

/-- **Whatever the table holds is in the table.** -/
theorem inRange (h : u.Consistent s) : u.InRange s where
  parts := h.sound.parts
  symbols := fun _ _ hsymbol => h.sound.symbolIn hsymbol
  lists := fun k _ _ hl => ⟨Interner.has_of_kept? hl, (h.sound.kept k hl).1⟩
  instances := fun inst t hmem => ⟨(h.keys inst t hmem).instanceIn, h.sound.instances _ hmem⟩
  expanding := fun inst hmem => (h.expanding inst hmem).instanceIn

/-- **Different handles stand for different things**, but for handles that are open and for objects
without a name, whose identity is the handle. -/
theorem data_injective (h : u.Consistent s) {t t' : TypeId} (heq : s.data t = s.data t') :
    t = t' ∨ s.data t = .reserved ∨ ∃ shape, s.data t = .object none shape := by
  have hnamed : ∀ inst, (s.data t).named? = some inst → t = t' := fun inst hname => by
    obtain ⟨hinst, hmem⟩ := h.named inst t hname
    rw [heq] at hname
    exact h.single inst t' t hinst (h.named inst t' hname).2 hmem
  cases hdata : s.data t with
  | form f => exact .inl (h.forms f t' t (heq.symm.trans hdata) hdata)
  | namedUnion inst branches => exact .inl (hnamed inst (by rw [hdata]; rfl))
  | object origin shape =>
    cases origin with
    | none => exact .inr (.inr ⟨shape, rfl⟩)
    | some inst => exact .inl (hnamed inst (by rw [hdata]; rfl))
  | reserved => exact .inr (.inl rfl)

end Consistent

end Universe
end TypedJson
