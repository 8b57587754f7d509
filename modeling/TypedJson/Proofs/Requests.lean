import TypedJson.Proofs.Calls
import TypedJson.Proofs.Handles
import TypedJson.Proofs.Image
/-!
# The same request, the same handle

A type is asked for by its form, as a record type, or as an instance of an alias with a handle of
its own (`Request`).  The handle that the table has for a request is found again by every later
call, also by one that is made while the parts of the type are still being resolved
(`Held.obtains`), and no call answers with another one (`Obtains.eq_of_held`).  What a question hands
out keeps its meaning from then on (`Hands.lasting`).

A request may be made at any moment, also while what is asked for is being made.  So the
statement on two calls has no order between them: each leaves a table that has the handle
for the request, the later of the two tables has one handle for it, and a handle that a
table has for a request is kept by every change.
-/
namespace TypedJson

/-- What a type is asked for by. -/
inductive Request
  | form (f : Form)
  | record (key value : TypeId)
  | named (inst : Instance)

namespace Universe

variable {u : Universe} {s s' : Interner} {r : Request} {t t' : TypeId}

/-- The table of some moment, between questions or while a type is being resolved. -/
def Moment (u : Universe) (s : Interner) : Prop := u.Edited u.start s

theorem Moment.consistent (h : u.Moment s) : u.Consistent s := (Consistent.start u).edited h

/-- The handle is what the table has for the request. -/
def Held (u : Universe) (s : Interner) : Request → TypeId → Prop
  | .form f, t => s.data t = .form f
  | .record key value, t => (recordInstance key value, t) ∈ s.instances
  | .named inst, t => u.IsNominal inst ∧ (inst, t) ∈ s.instances

theorem Held.extends_table (h : u.Held s r t) (hext : s.Extends s') : u.Held s' r t := by
  cases r with
  | form f => exact hext.form h
  | record key value => exact hext.instances h
  | named inst => exact h.imp_right fun hmem => hext.instances hmem

theorem Held.unique (hs : u.Consistent s) (h : u.Held s r t) (h' : u.Held s r t') : t' = t := by
  cases r with
  | form f => exact hs.forms f t t' h h'
  | record key value => exact hs.single _ t t' (individual_record u key value) h h'
  | named inst => exact hs.single inst t t' (.inl h.1) h.2 h'.2

/-! ## Calls

`Obtains` describes the call for each kind of request as the program makes it, with the
parts resolved already; what is missing is filled in by the program, and the result is
determined by what was given. -/

/-- With that much fuel the call for the request at the first table answers with the handle and
leaves the second table. -/
inductive Obtains (u : Universe) (fuel : Nat) (s : Interner) :
    Request → TypeId → Interner → Prop
  | form {f : Form} {t : TypeId} {s' : Interner} (parts : ∀ p ∈ (TypeData.form f).parts, s.Has p)
      (lawful : u.Lawful (.form f)) (run : Session.intern f s = some (t, s')) :
      Obtains u fuel s (.form f) t s'
  /-- Keys that are left out are strings, and values that are left out unknown. -/
  | record {given : List TypeId} {key value t : TypeId} {s' : Interner}
      (hgiven : ∀ a ∈ given, s.Has a) (run : builtinType .record given s = some (t, s'))
      (hkey : s'.IsArgument .string given[0]? key)
      (hvalue : s'.IsArgument .unknown given[1]? value) :
      Obtains u fuel s (.record key value) t s'
  /-- Surplus arguments are dropped and missing ones filled in, so several lists of arguments ask
  for the same instance. -/
  | named {id : DeclarationId} {d : Declaration} {body : TypeExpr}
      {given args : List TypeId} {t : TypeId} {s' : Interner} (hd : u.declaration? id = some d)
      (hbody : d.body = .typeAlias body) (hstructure : body.isStructure = true)
      (hgiven : ∀ a ∈ given, s.Has a)
      (run : u.instantiate (u.resolve fuel) id given s = some (t, s'))
      (hargs : s'.Completes id d.typeParams.length given args) :
      Obtains u fuel s (.named ⟨.declared id, args⟩) t s'

theorem Consistent.argument_unique (hs : u.Consistent s) {i : Intrinsic} {given : Option TypeId}
    (h : s.IsArgument i given t) (h' : s.IsArgument i given t') : t' = t := by
  rcases h with h | ⟨h, hdata⟩
  · rcases h' with h' | ⟨h', -⟩
    · exact Option.some.inj (h'.symm.trans h)
    · rw [h] at h'
      cases h'
  · rcases h' with h' | ⟨-, hdata'⟩
    · rw [h] at h'
      cases h'
    · exact hs.forms _ t t' hdata hdata'

theorem Consistent.completes_unique (hs : u.Consistent s) {id : DeclarationId} {count : Nat}
    {given args args' : List TypeId} (h : s.Completes id count given args)
    (h' : s.Completes id count given args') : args' = args := by
  obtain ⟨missing, rfl, hmissing⟩ := h
  obtain ⟨missing', rfl, hmissing'⟩ := h'
  have heq : List.Forall₂ (· = ·) missing' missing :=
    forall₂_of_left hmissing' hmissing fun _ _ _ ht' ht => hs.forms _ _ _ ht ht'
  rw [List.forall₂_eq_eq_eq] at heq
  rw [heq]

/-- **What the table has for a request is found at once**: with any fuel, and the table stays as it
is. -/
theorem Held.obtains (hs : u.Consistent s) (h : u.Held s r t) (fuel : Nat) :
    u.Obtains fuel s r t s := by
  cases r with
  | form f =>
    have hdata : s.data t = .form f := h
    have hparts := hs.sound.parts t
    have hlawful := hs.sound.lawful t
    rw [hdata] at hparts hlawful
    exact .form hparts hlawful
      (intern_of_find? (Interner.find?_of_data hdata fun x hx => hs.forms f t x hdata hx))
  | record key value =>
    have hmem : (recordInstance key value, t) ∈ s.instances := h
    have hfind := Interner.instance?_of_mem hmem fun x hx =>
      hs.single _ t x (individual_record u key value) hmem hx
    exact .record (hs.keys _ t hmem).args (recordType_of_instance? hfind) (.inl rfl) (.inl rfl)
  | named inst =>
    have hnominal : u.IsNominal inst := h.1
    obtain ⟨⟨body, -, ⟨id, d, hid, hd, hbody, -⟩, hstructure⟩, hmem⟩ := h
    have hcount := (hs.keys inst t hmem).all hnominal id d hid hd
    have hfind := Interner.instance?_of_mem hmem fun x hx => hs.single _ t x (.inl hnominal) hmem hx
    obtain ⟨symbol, args⟩ := inst
    obtain rfl : symbol = .declared id := hid
    exact .named hd hbody hstructure (hs.keys _ t hmem).args
      (instantiate_of_instance? hd hbody hcount hfind) (.of_length hcount)

namespace Obtains

variable {fuel fuel₁ fuel₂ : Nat}

theorem held (hs : u.Consistent s) (h : u.Obtains fuel s r t s') :
    u.Edited s s' ∧ u.Held s' r t := by
  cases h with
  | form parts lawful run =>
    obtain ⟨hedited, -, hdata⟩ := Edits.intern hs.sound parts lawful t s' run
    exact ⟨hedited, hdata⟩
  | record hgiven run hkey hvalue =>
    obtain ⟨hedited, -, key', value', hkey', hvalue', hmem⟩ :=
      builtinType_record_edits hs.sound hgiven t s' run
    have hs' := hs.edited hedited
    obtain rfl := hs'.argument_unique hkey hkey'
    obtain rfl := hs'.argument_unique hvalue hvalue'
    exact ⟨hedited, hmem⟩
  | @named id d body given args _ _ hd hbody hstructure hgiven run hargs =>
    obtain ⟨hedited, -, hnoted⟩ :=
      instantiate_edits (resolve_edits u fuel) (resolve_resolves u fuel) hs.sound hd hgiven t s' run
    obtain ⟨args', hargs', hmem⟩ := hnoted body hbody hstructure
    obtain rfl := (hs.edited hedited).completes_unique hargs hargs'
    exact ⟨hedited, ⟨body, d.scope id args', ⟨id, d, rfl, hd, hbody, rfl⟩, hstructure⟩, hmem⟩

/-- **A call answers with the handle that the table has for the request already**, reserved or
not. -/
theorem eq_of_held (hs : u.Consistent s) (hheld : u.Held s r t) (h : u.Obtains fuel s r t' s') :
    t' = t := by
  obtain ⟨hedited, hheld'⟩ := h.held hs
  exact (hheld.extends_table (hedited.extends_table hs.sound)).unique (hs.edited hedited) hheld'

/-- **Two calls for the same answer alike**, whichever began first. -/
theorem unique {s₁ s₁' s₂ s₂' : Interner} {t₁ t₂ : TypeId} (hs₁ : u.Consistent s₁)
    (hs₂ : u.Consistent s₂) (h₁ : u.Obtains fuel₁ s₁ r t₁ s₁') (h₂ : u.Obtains fuel₂ s₂ r t₂ s₂')
    (hlater : u.Edited s₁' s₂') : t₁ = t₂ := by
  obtain ⟨hedited₁, hheld₁⟩ := h₁.held hs₁
  obtain ⟨hedited₂, hheld₂⟩ := h₂.held hs₂
  have hs₁' := hs₁.edited hedited₁
  have hkept := hheld₁.extends_table (hlater.extends_table hs₁'.sound)
  exact hheld₂.unique (hs₂.edited hedited₂) hkept

end Obtains

/-! ## What is handed out

Between questions no handle is open, so what a question hands out has its meaning; and a
meaning is never changed. -/

/-- A question at the first table hands out the handle and leaves the second table. -/
inductive Hands (u : Universe) (s : Interner) : TypeId → Interner → Prop
  | declared {fuel : Nat} {name : String} {t : TypeId} {s' : Interner}
      (run : u.declared? fuel name s = some (some t, s')) : Hands u s t s'
  | exported {fuel : Nat} {ts : List TypeId} {t : TypeId} {s' : Interner}
      (run : u.exportedTypes fuel s = some (ts, s')) (ht : t ∈ ts) : Hands u s t s'
  | member {fuel : Nat} {x t : TypeId} {ms : List TypeMember} {m : TypeMember} {s' : Interner}
      (hx : s.Has x) (run : u.members fuel x s = some (ms, s')) (hm : m ∈ ms)
      (ht : m.type = some t) : Hands u s t s'
  | key {fuel : Nat} {x : TypeId} {is : List TypeIndex} {i : TypeIndex} {s' : Interner}
      (hx : s.Has x) (run : u.indexes fuel x s = some (is, s')) (hi : i ∈ is) : Hands u s i.key s'
  | value {fuel : Nat} {x : TypeId} {is : List TypeIndex} {i : TypeIndex} {s' : Interner}
      (hx : s.Has x) (run : u.indexes fuel x s = some (is, s')) (hi : i ∈ is) : Hands u s i.value s'
  | branch {x t : TypeId} {branches : List TypeId} (h : s.union? x = some branches)
      (ht : t ∈ branches) : Hands u s t s
  | element {x t : TypeId} (h : s.element? x = some t) : Hands u s t s
  | argument {x t : TypeId} (ht : t ∈ s.arguments x) : Hands u s t s

/-- What is handed out is a handle of the table that the question leaves. -/
theorem Hands.has (hreach : u.Reaches u.start s) (h : u.Hands s t s') :
    u.Reaches u.start s' ∧ s'.Has t := by
  have hs : u.Sound s := (reaches_grown (start_sound u) hreach).sound
  cases h with
  | declared run =>
    exact ⟨hreach.tail (.declared run), (declared?_yields hs _ _ _ _ run).2 t rfl⟩
  | exported run ht =>
    exact ⟨hreach.tail (.exported run), (exportedTypes_yields hs _ _ _ run).2 t ht⟩
  | member hx run hm ht =>
    obtain ⟨-, -, hms⟩ := members_yields u _ _ s hs hx _ _ run
    exact ⟨hreach.tail (.members hx run), hms _ hm t ht⟩
  | key hx run hi =>
    obtain ⟨-, -, his⟩ := indexes_yields u _ _ s hs hx _ _ run
    exact ⟨hreach.tail (.indexes hx run), (his _ hi).1⟩
  | value hx run hi =>
    obtain ⟨-, -, his⟩ := indexes_yields u _ _ s hs hx _ _ run
    exact ⟨hreach.tail (.indexes hx run), (his _ hi).2⟩
  | branch h ht => exact ⟨hreach, hs.parts _ t (TypeData.union?_parts h ht)⟩
  | element h => exact ⟨hreach, hs.parts _ t (TypeData.element?_parts h)⟩
  | argument ht => exact ⟨hreach, hs.parts _ t (TypeData.arguments_parts _ ht)⟩

/-- **What was handed out keeps its meaning**, whatever is asked or resolved later. -/
theorem Hands.lasting (hreach : u.Reaches u.start s) (h : u.Hands s t s') :
    s'.Has t ∧ s'.data t ≠ .reserved ∧ ∀ s'', u.Edited s' s'' → s''.data t = s'.data t := by
  obtain ⟨hreach', ht⟩ := h.has hreach
  have hkept := kept_of_reaches hreach'
  exact ⟨ht, hkept.closed t ht, fun s'' hlater =>
    (hlater.extends_table hkept.sound).data t (hkept.closed t ht)⟩

/-- **Handles are shared and stable.**  Questions change the table step by step and leave no handle
open.  So does every expression that is resolved at some moment, and the resolver calls itself only
at moments: so what follows is about every moment of every series of questions, also while a handle
that was reserved is still open.  Two calls for the same form, record type, or instance of an alias
that names a union, an object or an intersection answer with the same handle, in whichever order
they are made, one within the other included.  The handle that the table has for a request is
obtained with any fuel, without a change, and is the only one that is obtained; what a call has
answered the table has from then on.  Handles with the same data are the same, unless they are still
open or objects without a name.  What a question hands out is no open handle and never changes.  And
every handle and symbol in the table is that of something there is. -/
theorem handles_shared (u : Universe) :
    (∀ s s', u.Reaches u.start s → u.Reaches s s' → u.Moment s ∧ u.Edited s s' ∧ Closed s) ∧
    (∀ s, u.Moment s → ∀ fuel scope e, Scope.In scope s →
      (After s (u.resolve fuel scope e) fun t s' => u.Edited s s' ∧ s'.Has t) ∧
      ∀ self, u.Agree s (u.resolve fuel) self →
        u.resolveStep self scope e s = u.resolve (fuel + 1) scope e s) ∧
    (∀ s₁ s₂ s₁' s₂' r t₁ t₂ fuel₁ fuel₂, u.Moment s₁ → u.Moment s₂ →
      u.Obtains fuel₁ s₁ r t₁ s₁' → u.Obtains fuel₂ s₂ r t₂ s₂' → u.Edited s₁' s₂' → t₁ = t₂) ∧
    (∀ s r t fuel, u.Moment s → u.Held s r t →
      u.Obtains fuel s r t s ∧ ∀ t' s', u.Obtains fuel s r t' s' → t' = t) ∧
    (∀ s r t fuel s', u.Moment s → u.Obtains fuel s r t s' → ∀ later, u.Edited s' later →
      u.Held later r t) ∧
    (∀ s t t', u.Moment s → s.data t = s.data t' →
      t = t' ∨ s.data t = .reserved ∨ ∃ shape, s.data t = .object none shape) ∧
    (∀ s t s', u.Reaches u.start s → u.Hands s t s' →
      s'.Has t ∧ s'.data t ≠ .reserved ∧ ∀ s'', u.Edited s' s'' → s''.data t = s'.data t) ∧
    ∀ s, u.Moment s → u.InRange s := by
  refine ⟨fun s s' hs h => ⟨edited_of_reaches .refl hs, edited_of_reaches hs h, ?_⟩,
    fun s hs fuel scope e hscope => ⟨?_, fun self hself => ?_⟩,
    fun s₁ s₂ s₁' s₂' r t₁ t₂ fuel₁ fuel₂ hs₁ hs₂ h₁ h₂ hlater => ?_,
    fun s r t fuel hs hheld => ⟨hheld.obtains hs.consistent fuel, fun t' s' h => ?_⟩,
    fun s r t fuel s' hs h later hlater => ?_,
    fun s t t' hs heq => hs.consistent.data_injective heq,
    fun s t s' hreach h => h.lasting hreach, fun s hs => hs.consistent.inRange⟩
  · exact (kept_of_reaches hs).closed
  · exact resolve_edits u fuel s scope e hs.consistent.sound hscope
  · exact resolveStep_congr (resolve_edits u fuel) hs.consistent.sound hself hscope e
  · exact h₁.unique hs₁.consistent hs₂.consistent h₂ hlater
  · exact h.eq_of_held hs.consistent hheld
  · obtain ⟨hedited, hheld⟩ := h.held hs.consistent
    exact hheld.extends_table (hlater.extends_table (hs.consistent.edited hedited).sound)

/-- A forest is a list of forests, or forests under names. -/
def forestUniverse : Universe where
  units := [⟨"forest.ts", [
    { name := "Forest", exported := true, line := none, typeParams := []
      body := .typeAlias (.union [.array (.name "Forest"),
        .generic "Record" [.name "string", .name "Forest"]]) }]⟩]
  distinct := by decide

/-- The instance without arguments. -/
def forestInstance : Instance := ⟨.declared ⟨0, 0⟩, []⟩

/-- While the branches of the forest are resolved its handle stands open already; they refer to it,
and from then on each of the three is what the call for it obtains. -/
theorem forestUniverse_shared : ∃ types, forestUniverse.Reaches forestUniverse.start types ∧
    types.union? ⟨0⟩ = some [⟨1⟩, ⟨3⟩] ∧
    ∀ later, forestUniverse.Edited types later →
      forestUniverse.Obtains 0 later (.named forestInstance) ⟨0⟩ later ∧
      forestUniverse.Obtains 0 later (.form (.array ⟨0⟩)) ⟨1⟩ later ∧
      forestUniverse.Obtains 0 later (.record ⟨2⟩ ⟨0⟩) ⟨3⟩ later := by
  have hfacts : (forestUniverse.exportedTypes 6 forestUniverse.start).map (fun r =>
      (r.2.union? ⟨0⟩, r.2.instance? forestInstance, r.2.find? (.array ⟨0⟩),
        r.2.instance? (recordInstance ⟨2⟩ ⟨0⟩))) =
      some (some [⟨1⟩, ⟨3⟩], some ⟨0⟩, some ⟨1⟩, some ⟨3⟩) := by
    decide +kernel
  obtain ⟨⟨ts, types⟩, hrun, hfacts⟩ := Option.map_eq_some_iff.1 hfacts
  simp only [Prod.mk.injEq] at hfacts
  obtain ⟨hunion, hforest, harray, hrecord⟩ := hfacts
  have hreach : forestUniverse.Reaches forestUniverse.start types := .single (.exported hrun)
  obtain ⟨hmoments, -, -, hobtains, -⟩ := handles_shared forestUniverse
  obtain ⟨hmoment, -, -⟩ := hmoments types types hreach .refl
  refine ⟨types, hreach, hunion, fun later hlater => ?_⟩
  have hcalls : ∀ r t, forestUniverse.Held types r t → forestUniverse.Obtains 0 later r t later :=
    fun r t hheld => (hobtains later r t 0 (hmoment.trans hlater)
      (hheld.extends_table (hlater.extends_table hmoment.consistent.sound))).1
  have hnominal : forestUniverse.IsNominal forestInstance :=
    ⟨_, _, ⟨⟨0, 0⟩, _, rfl, rfl, rfl, rfl⟩, rfl⟩
  exact ⟨hcalls (.named forestInstance) _ ⟨hnominal, Interner.mem_of_instance? hforest⟩,
    hcalls (.form _) _ (Interner.data_of_find? harray).2,
    hcalls (.record _ _) _ (Interner.mem_of_instance? hrecord)⟩

end Universe
end TypedJson
