import TypedJson.Proofs.Standing
/-!
# Arguments in place of type parameters

A type is formed anew with arguments in place of the type parameters of a declaration, part by
part and in the table (`Universe.substitute`).  Where the types that this leads to are in the table
already (`Universe.Substitutes`), the computation finds them there and adds nothing
(`Substitutes.finds`), as no two types of the table are the same form, record or instance of an
alias.

Substitution is a computation, as it has to find or make the handles that it leads to;
`Substitutes` is the relation that it computes, on one table.  The relation is inductive, so
it is finite for every type it holds of, while the computation runs on fuel.  Aliases with a
handle of their own are not opened: the instance is formed anew with other arguments.
-/
namespace TypedJson
namespace Universe

/-- The type of these data with the arguments in place of the type parameters of the declaration.
Arrays, unions, records and instances are formed anew of their parts; an inline object or
intersection stays what it is. -/
def substituteData (u : Universe) (self : Resolver) (substitute : TypeId → Session TypeId)
    (id : DeclarationId) (args : List TypeId) (t : TypeId) : TypeData → Session TypeId
  | .form (.param (.param id' position)) =>
    pure (if id' = id then args[position]?.getD t else t)
  | .form (.array x) => do Session.intern (.array (← substitute x))
  | .form (.reference inst) => do
    Session.intern (.reference ⟨inst.symbol, ← inst.args.mapM substitute⟩)
  | .form (.union xs) => do Session.intern (.union (← xs.mapM substitute))
  | .object (some _) (.record key value) => do recordType (← substitute key) (← substitute value)
  | .namedUnion ⟨.declared a, xs⟩ _ | .object (some ⟨.declared a, xs⟩) _ => do
    u.instantiate self a (← xs.mapM substitute)
  | _ => pure t

/-- The type with the arguments in place of the type parameters of the declaration. -/
def substitute (u : Universe) (id : DeclarationId) (args : List TypeId) :
    Nat → TypeId → Session TypeId
  | 0, _ => Session.outOfFuel
  | fuel + 1, t => do
    u.substituteData (u.resolve fuel) (u.substitute id args fuel) id args t
      (← Session.query (·.data t))

/-- The item of a list with the arguments in place of the type parameters in its types. -/
def substituteItem (u : Universe) (id : DeclarationId) (args : List TypeId) (fuel : Nat) :
    (k : Listing) → k.Item → Session k.Item
  | .members, m => do pure ⟨m.name, m.optional, ← m.type.mapM (u.substitute id args fuel)⟩
  | .indexes, x => do
    let key ← u.substitute id args fuel x.key
    let value ← u.substitute id args fuel x.value
    pure ⟨key, value⟩

end Universe

/-- The form has no parts, and no arguments can stand in its place. -/
def Form.IsAtom : Form → Prop
  | .intrinsic _ | .literal _ | .unresolved _ => True
  | _ => False

namespace Universe

/-- The second type is the first one with the arguments in place of the type parameters of the
declaration. -/
inductive Substitutes (u : Universe) (s : Interner) (id : DeclarationId) (args : List TypeId) :
    TypeId → TypeId → Prop
  | param {t a position} (ht : s.data t = .form (.param (.param id position)))
    (ha : args[position]? = some a) : Substitutes u s id args t a
  | atom {t f} (ht : s.data t = .form f) (hf : f.IsAtom) : Substitutes u s id args t t
  | array {t t' x y} (h : Substitutes u s id args x y) (ht : s.data t = .form (.array x))
    (ht' : s.data t' = .form (.array y)) : Substitutes u s id args t t'
  | reference {t t' symbol xs ys} (hlen : xs.length = ys.length)
    (h : ∀ {x y}, (x, y) ∈ xs.zip ys → Substitutes u s id args x y)
    (ht : s.data t = .form (.reference ⟨symbol, xs⟩))
    (ht' : s.data t' = .form (.reference ⟨symbol, ys⟩)) : Substitutes u s id args t t'
  | union {t t' xs ys} (hlen : xs.length = ys.length)
    (h : ∀ {x y}, (x, y) ∈ xs.zip ys → Substitutes u s id args x y)
    (ht : s.data t = .form (.union xs)) (ht' : s.data t' = .form (.union ys)) :
    Substitutes u s id args t t'
  | record {t t' key value key' value'} (hkey : Substitutes u s id args key key')
    (hvalue : Substitutes u s id args value value')
    (ht : s.data t = .object (some ⟨.builtin .record, [key, value]⟩) (.record key value))
    (ht' : s.data t' = .object (some ⟨.builtin .record, [key', value']⟩) (.record key' value')) :
    Substitutes u s id args t t'
  /-- An instance of an alias with a handle of its own. -/
  | named {t t' a d body xs ys} (hd : u.declaration? a = some d) (hbody : d.body = .typeAlias body)
    (hnamed : body.isStructure = true) (hcount : ys.length = d.typeParams.length)
    (hlen : xs.length = ys.length) (h : ∀ {x y}, (x, y) ∈ xs.zip ys → Substitutes u s id args x y)
    (ht : (⟨.declared a, xs⟩, t) ∈ s.instances) (ht' : (⟨.declared a, ys⟩, t') ∈ s.instances) :
    Substitutes u s id args t t'

/-- The second item is the first one with the arguments in place of the type parameters. -/
def SubstitutesItem (u : Universe) (s : Interner) (id : DeclarationId) (args : List TypeId) :
    (k : Listing) → k.Item → k.Item → Prop
  | .members, m, m' => m.name = m'.name ∧ m.optional = m'.optional ∧
    Option.Rel (u.Substitutes s id args) m.type m'.type
  | .indexes, x, x' =>
    u.Substitutes s id args x.key x'.key ∧ u.Substitutes s id args x.value x'.value

variable {u : Universe} {s : Interner} {V : NamedTable} {id a : DeclarationId} {d : Declaration}
  {t t' : TypeId} {args xs ys : List TypeId} {fuel : Nat}

/-! ## What the table has already

Looking up a form, a record or an instance finds the handle that is there, as the table
keeps to its names and so has only one. -/

section Found

theorem Naming.form_unique (hV : u.Naming V) {f : Form} (ht : V.table.data t = .form f)
    (ht' : V.table.data t' = .form f) : t = t' := by
  have hhas : ∀ {x}, V.table.data x = .form f → V.Has x := fun hx =>
    Interner.has_of_data_ne (by rw [hx]; exact fun h => by cases h)
  have hname : ∀ {x}, V.table.data x = .form f → V.name x = f.nameBy V.name := fun {x} hx => by
    have hstands := hV.stands x (hhas hx)
    rw [hx] at hstands
    exact hstands
  exact hV.injective t t' (hhas ht) (hhas ht') ((hname ht).trans (hname ht').symm)

theorem Naming.intern_eq (hV : u.Naming V) {f : Form} (ht : V.table.data t = .form f) :
    Session.intern f V.table = some (t, V.table) :=
  intern_of_find? (Interner.find?_of_data ht fun _ hx => hV.form_unique hx ht)

theorem Naming.recordType_eq (hV : u.Naming V) {key value : TypeId} (ht : V.table.data t =
    .object (some ⟨.builtin .record, [key, value]⟩) (.record key value)) :
    recordType key value V.table = some (t, V.table) := by
  have hhas : V.Has t := Interner.has_of_data_ne (by rw [ht]; exact fun h => by cases h)
  have hstands := hV.stands t hhas
  have hparts := hV.parts t hhas
  rw [ht] at hstands hparts
  obtain ⟨xs, hmem, hxs⟩ := hV.recorded t _ _ hhas hstands.2
  obtain rfl : xs = [key, value] := hV.eq_of_names_eq (hV.begun _ (.inl ⟨t, hmem⟩))
    (fun x hx => hparts x (List.mem_append_left _ hx)) hxs
  -- all that is noted for the record is called the same
  refine recordType_of_instance? (Interner.instance?_of_mem hmem fun x hx => ?_)
  exact hV.injective x t (hV.noted _ x hx).1 hhas ((hV.noted _ x hx).2.unique (hV.noted _ t hmem).2)

theorem Meaningful.instantiate_eq (hs : u.Meaningful s) {self : Resolver}
    (hd : u.declaration? a = some d) {body : TypeExpr} (hbody : d.body = .typeAlias body)
    (hnamed : body.isStructure = true) (hcount : ys.length = d.typeParams.length)
    (ht : (⟨.declared a, ys⟩, t) ∈ s.instances) : u.instantiate self a ys s = some (t, s) := by
  have hnominal : u.IsNominal ⟨.declared a, ys⟩ := ⟨body, _, ⟨a, d, rfl, hd, hbody, rfl⟩, hnamed⟩
  exact instantiate_of_instance? hd hbody hcount
    (Interner.instance?_of_mem ht fun x hx => hs.functional _ t x ht hx hnominal)

end Found

/-! ## Computations that find what they look for

`Finds` is stronger than having a result: the table is left as it is.  It is kept by the ways
to put computations together, with the largest fuel of the parts. -/

/-- With enough fuel the computation answers so, and it leaves the table as it is. -/
def Finds {α : Type} (s : Interner) (m : Nat → Session α) (x : α) : Prop :=
  ∃ n, ∀ fuel, n ≤ fuel → m fuel s = some (x, s)

namespace Finds

variable {α β : Type} {m : Nat → Session α} {x : α}

theorem of_eq (h : ∀ fuel, m fuel s = some (x, s)) : Finds s m x := ⟨0, fun fuel _ => h fuel⟩

theorem unique {y : α} (h : Finds s m x) (h' : Finds s m y) : x = y := by
  obtain ⟨n, hn⟩ := h
  obtain ⟨n', hn'⟩ := h'
  have heq := (hn (max n n') (by omega)).symm.trans (hn' (max n n') (by omega))
  exact (Prod.mk.inj (Option.some.inj heq)).1

theorem pure (x : α) : Finds s (fun _ => Pure.pure x) x := .of_eq fun _ => rfl

theorem bind {f : Nat → α → Session β} {y : β} (h : Finds s m x)
    (hf : Finds s (fun fuel => f fuel x) y) : Finds s (fun fuel => m fuel >>= f fuel) y := by
  obtain ⟨n, hn⟩ := h
  obtain ⟨k, hk⟩ := hf
  refine ⟨max n k, fun fuel hfuel => bind_eq_some.2 ⟨x, s, hn fuel (by omega), hk fuel (by omega)⟩⟩

theorem mapM {f : Nat → α → Session β} {as : List α} {bs : List β}
    (h : List.Forall₂ (fun a b => Finds s (fun fuel => f fuel a) b) as bs) :
    Finds s (fun fuel => as.mapM (f fuel)) bs := by
  induction h with
  | nil =>
    simp only [List.mapM_nil]
    exact .pure []
  | cons ha _ ih =>
    simp only [List.mapM_cons]
    exact .bind ha (.bind ih (.pure _))

theorem map (g : α → β) (h : Finds s m x) : Finds s (fun fuel => g <$> m fuel) (g x) := by
  simp only [map_eq_pure_bind]
  exact .bind h (.pure (g x))

theorem optionMapM {f : Nat → α → Session β} {a : Option α} {b : Option β}
    (h : Option.Rel (fun a b => Finds s (fun fuel => f fuel a) b) a b) :
    Finds s (fun fuel => a.mapM (f fuel)) b := by
  cases h with
  | none => exact .pure none
  | some h => exact .map some h

theorem step {m' : Nat → Session α} (hstep : ∀ fuel, m (fuel + 1) s = m' fuel s)
    (h : Finds s m' x) : Finds s m x := by
  obtain ⟨n, hn⟩ := h
  refine ⟨n + 1, fun fuel hfuel => ?_⟩
  obtain ⟨fuel, rfl⟩ : ∃ k, fuel = k + 1 := ⟨fuel - 1, by omega⟩
  rw [hstep]
  exact hn fuel (by omega)

end Finds

/-! ## Substitution finds the types that it leads to -/

theorem substituteData_of_named (self : Resolver) (substitute : TypeId → Session TypeId)
    (id : DeclarationId) (args : List TypeId) (t : TypeId) {data : TypeData}
    (hlawful : u.Lawful data) (hnamed : data.named? = some ⟨.declared a, xs⟩) :
    u.substituteData self substitute id args t data =
      (do u.instantiate self a (← xs.mapM substitute)) := by
  rcases TypeData.cases_of_named? hnamed with ⟨branches, rfl⟩ | ⟨shape, rfl⟩
  · rfl
  · cases shape with
    | literal | intersection => rfl
    | record key value => cases (show (⟨.declared a, xs⟩ : Instance) = _ from hlawful)

theorem Kept.named?_of_mem {busy : List (Listing × TypeId)} (hs : u.Kept busy s)
    (hd : u.declaration? a = some d) {body : TypeExpr} (hbody : d.body = .typeAlias body)
    (hnamed : body.isStructure = true) (ht : (⟨.declared a, xs⟩, t) ∈ s.instances) :
    (s.data t).named? = some ⟨.declared a, xs⟩ := by
  have hnominal : u.IsNominal ⟨.declared a, xs⟩ := ⟨body, _, ⟨a, d, rfl, hd, hbody, rfl⟩, hnamed⟩
  exact ((hs.meaningful.noted _ _ ht).named hnominal).resolve_left
    (hs.closed t (hs.sound.instances _ ht))

/-- **Substitution finds the type that it leads to.** -/
theorem Substitutes.finds (hV : u.Standing V) (h : u.Substitutes V.table id args t t') :
    Finds V.table (fun fuel => u.substitute id args fuel t) t' := by
  have hnaming := hV.prepared.naming
  have hkept := hV.prepared.kept
  have hparts : ∀ {xs ys : List TypeId}, xs.length = ys.length →
      (∀ {x y}, (x, y) ∈ xs.zip ys →
        Finds V.table (fun fuel => u.substitute id args fuel x) y) →
      Finds V.table (fun fuel => xs.mapM (u.substitute id args fuel)) ys := fun hlen hall =>
    .mapM (List.forall₂_iff_zip.2 ⟨hlen, hall⟩)
  have hrun : ∀ {t data}, V.table.data t = data → ∀ fuel,
      u.substitute id args (fuel + 1) t V.table =
        u.substituteData (u.resolve fuel) (u.substitute id args fuel) id args t data V.table := by
    intro t data ht fuel
    rw [substitute, Session.query_bind, ht]
  induction h with
  | @param t a position ht ha =>
    refine .step (hrun ht) (.of_eq fun fuel => ?_)
    show some (if id = id then args[position]?.getD t else t, V.table) = _
    rw [if_pos rfl, ha]
    rfl
  | @atom t f ht hf =>
    refine .step (hrun ht) (.of_eq fun fuel => ?_)
    cases f with
    | intrinsic | literal | unresolved => rfl
    | param | array | reference | union => cases hf
  | array _ ht ht' ih =>
    exact .step (hrun ht) (.bind ih (.of_eq fun _ => hnaming.intern_eq ht'))
  | reference hlen _ ht ht' ih =>
    exact .step (hrun ht) (.bind (hparts hlen ih) (.of_eq fun _ => hnaming.intern_eq ht'))
  | union hlen _ ht ht' ih =>
    exact .step (hrun ht) (.bind (hparts hlen ih) (.of_eq fun _ => hnaming.intern_eq ht'))
  | record _ _ ht ht' ihkey ihvalue =>
    exact .step (hrun ht) (.bind ihkey (.bind ihvalue (.of_eq fun _ => hnaming.recordType_eq ht')))
  | @named t t' a d body xs ys hd hbody hnamed hcount hlen _ ht ht' ih =>
    have hname := hkept.named?_of_mem hd hbody hnamed ht
    refine .step (fun fuel => (hrun rfl fuel).trans (congrFun (substituteData_of_named
      (u.resolve fuel) (u.substitute id args fuel) id args t (hkept.sound.lawful t) hname) V.table))
      (.bind (hparts hlen ih) (.of_eq fun _ => ?_))
    exact hkept.meaningful.instantiate_eq hd hbody hnamed hcount ht'

theorem SubstitutesItem.finds (hV : u.Standing V) {k : Listing} {x y : k.Item}
    (h : u.SubstitutesItem V.table id args k x y) :
    Finds V.table (fun fuel => u.substituteItem id args fuel k x) y := by
  cases k with
  | members =>
    obtain ⟨name, optional, type⟩ := x
    obtain ⟨name', optional', type'⟩ := y
    obtain ⟨hname, hoptional, htype⟩ := h
    obtain rfl : name = name' := hname
    obtain rfl : optional = optional' := hoptional
    refine .bind (.optionMapM ?_) (.pure _)
    cases htype with
    | none => exact .none
    | some h => exact .some (h.finds hV)
  | indexes => exact .bind (h.1.finds hV) (.bind (h.2.finds hV) (.pure _))

end Universe
end TypedJson
