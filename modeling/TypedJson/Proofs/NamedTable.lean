import TypedJson.Proofs.TypeNames
/-!
# Tables whose types have names

A table with a name for every handle (`NamedTable`) keeps to its names if a type is called after
its parts, no two types are called the same, and whatever is noted for an instance is what that
instance is called (`Universe.Naming`).  An inline object or intersection is called after the site
where it is written, so the sites at which something may have been resolved are kept track of:
those of the instances that have been begun and those of the lists that have been begun
(`NamedTable.Owned`).

The invariant is what makes names an identity.  If two handles were called the same, the
second one would have been made although the first was there; and that is excluded for each
kind of name.  A form is looked up before it is made.  An alias is noted, or under way.  An
inline object is made at its site, and no site is resolved twice.
-/
namespace TypedJson

/-! ## Names from the names of parts

Which name a type may have is determined by its data and the names of its parts; for a type
that an alias names, by the text of the alias.  By the form of a name one sees what kind of
type has it. -/

def Form.nameBy (name : TypeId → TypeName) : Form → TypeName
  | .intrinsic i => .intrinsic i
  | .literal value => .literal value
  | .unresolved n => .unresolved n
  | .param symbol => .param symbol
  | .array element => .array (name element)
  | .reference inst => .reference inst.symbol (inst.args.map name)
  | .union branches => .union (branches.map name)

def Instance.nameBy (name : TypeId → TypeName) (inst : Instance) : TypeName :=
  .named inst.symbol (inst.args.map name)

def Scope.nameBy (name : TypeId → TypeName) (scope : Scope) : NameScope :=
  ⟨scope.unit, scope.params.map fun p => (p.1, name p.2)⟩

section Congr

variable {name name' : TypeId → TypeName}

theorem map_eq_of_mem {l : List TypeId} (h : ∀ t ∈ l, name' t = name t) :
    l.map name' = l.map name := List.map_congr_left h

theorem Form.nameBy_congr {f : Form} (h : ∀ x ∈ (TypeData.form f).parts, name' x = name x) :
    f.nameBy name' = f.nameBy name := by
  cases f with
  | array x => exact congrArg TypeName.array (h x List.mem_cons_self)
  | reference inst => exact congrArg (TypeName.reference inst.symbol) (map_eq_of_mem h)
  | union branches => exact congrArg TypeName.union (map_eq_of_mem h)
  | intrinsic | literal | unresolved | param => rfl

theorem Instance.nameBy_congr {i : Instance} (h : ∀ x ∈ i.args, name' x = name x) :
    i.nameBy name' = i.nameBy name := congrArg (TypeName.named i.symbol) (map_eq_of_mem h)

theorem Scope.nameBy_congr {scope : Scope} (h : ∀ p ∈ scope.params, name' p.2 = name p.2) :
    scope.nameBy name' = scope.nameBy name := by
  unfold Scope.nameBy
  rw [List.map_congr_left fun p hp => by rw [h p hp]]

variable {P : TypeId → Prop}

theorem eq_of_map_eq (hinj : ∀ t t', P t → P t' → name t = name t' → t = t') :
    ∀ {ts ts' : List TypeId}, (∀ t ∈ ts, P t) → (∀ t ∈ ts', P t) → ts.map name = ts'.map name →
      ts = ts'
  | [], [], _, _, _ => rfl
  | t :: ts, t' :: ts', hts, hts', h => by
    obtain ⟨ht, hts⟩ := List.forall_mem_cons.1 hts
    obtain ⟨ht', hts'⟩ := List.forall_mem_cons.1 hts'
    obtain ⟨hhead, htail⟩ := List.cons.inj h
    rw [hinj t t' ht ht' hhead, eq_of_map_eq hinj hts hts' htail]

/-- Forms are told apart by their names if their parts are. -/
theorem Form.eq_of_nameBy_eq (hinj : ∀ t t', P t → P t' → name t = name t' → t = t') {f g : Form}
    (hf : ∀ x ∈ (TypeData.form f).parts, P x) (hg : ∀ x ∈ (TypeData.form g).parts, P x)
    (h : f.nameBy name = g.nameBy name) : f = g := by
  cases f with
  | array x =>
    cases g with
    | array y => rw [hinj x y (hf x List.mem_cons_self) (hg y List.mem_cons_self) (TypeName.array.inj h)]
    | _ => cases h
  | reference i =>
    obtain ⟨symbol, args⟩ := i
    cases g with
    | reference j =>
      obtain ⟨symbol', args'⟩ := j
      obtain ⟨hsymbol, hargs⟩ := TypeName.reference.inj h
      obtain rfl : symbol = symbol' := hsymbol
      obtain rfl : args = args' := eq_of_map_eq hinj hf hg hargs
      rfl
    | _ => cases h
  | union bs =>
    cases g with
    | union bs' =>
      obtain rfl : bs = bs' := eq_of_map_eq hinj hf hg (TypeName.union.inj h)
      rfl
    | _ => cases h
  | intrinsic i => cases g with | intrinsic => rw [TypeName.intrinsic.inj h] | _ => cases h
  | literal v => cases g with | literal => rw [TypeName.literal.inj h] | _ => cases h
  | unresolved n => cases g with | unresolved => rw [TypeName.unresolved.inj h] | _ => cases h
  | param p => cases g with | param => rw [TypeName.param.inj h] | _ => cases h

end Congr

namespace Universe

/-- The type is named after an alias of this text. -/
inductive HasBody (u : Universe) : TypeName → NameScope → TypeExpr → Prop
  | mk {id : DeclarationId} {d : Declaration} {args : List TypeName} {body : TypeExpr}
    (hd : u.declaration? id = some d) (hbody : d.body = .typeAlias body) :
    HasBody u (.named (.declared id) args) (d.nameScope id args) body

theorem HasBody.unique {u : Universe} {N : TypeName} {scope scope' : NameScope}
    {body body' : TypeExpr} (h : u.HasBody N scope body) (h' : u.HasBody N scope' body') :
    scope' = scope ∧ body' = body := by
  cases h with
  | mk hd hbody =>
    cases h' with
    | mk hd' hbody' =>
      cases hd.symm.trans hd'
      cases hbody.symm.trans hbody'
      exact ⟨rfl, rfl⟩

/-- The parts of a type that an alias names are what the text of the alias says. -/
def HasParts (u : Universe) (S : DeclarationId → List TypeName → Prop) (N : TypeName)
    (body : List TypeExpr → TypeExpr) (xs : List TypeName) : Prop :=
  ∃ scope es, u.HasBody N scope (body es) ∧ u.NamesAll S ⟨none, N, []⟩ scope es xs

/-- A type of these data may be called so. -/
def Stands (u : Universe) (S : DeclarationId → List TypeName → Prop) (name : TypeId → TypeName)
    (d : TypeData) (N : TypeName) : Prop :=
  match d with
  | .form f => N = f.nameBy name
  | .namedUnion origin branches =>
    N = origin.nameBy name ∧ u.HasParts S N .union (branches.map name)
  | .object (some origin) (.literal members indexes scope) =>
    N = origin.nameBy name ∧ u.HasBody N (scope.nameBy name) (.object members indexes)
  | .object (some origin) (.intersection parts) =>
    N = origin.nameBy name ∧ u.HasParts S N .intersection (parts.map name)
  | .object (some origin) (.record key value) =>
    origin = ⟨.builtin .record, [key, value]⟩ ∧ N = origin.nameBy name
  | .object none (.literal members indexes scope) =>
    ∃ p : Site, N = .object p.listing p.owner p.path members indexes scope.unit
      (scope.nameBy name).params
  | .object none (.intersection parts) =>
    ∃ p : Site, N = .intersection p.listing p.owner p.path (parts.map name)
  | .object none (.record _ _) => False
  | .reserved => ∃ symbol args, N = .named symbol args

variable {u : Universe} {S S' : DeclarationId → List TypeName → Prop} {name name' : TypeId → TypeName}
  {d : TypeData} {N : TypeName}

theorem HasParts.mono {body : List TypeExpr → TypeExpr} {xs : List TypeName}
    (h : u.HasParts S N body xs) (hS : ∀ id args, S id args → S' id args) :
    u.HasParts S' N body xs := by
  obtain ⟨scope, es, hbody, hxs⟩ := h
  exact ⟨scope, es, hbody, hxs.mono hS⟩

theorem HasParts.unique {body : List TypeExpr → TypeExpr} (hbody : Function.Injective body)
    {xs xs' : List TypeName} (h : u.HasParts S N body xs) (h' : u.HasParts S' N body xs') :
    xs = xs' := by
  obtain ⟨scope, es, hb, hxs⟩ := h
  obtain ⟨scope', es', hb', hxs'⟩ := h'
  obtain ⟨rfl, heq⟩ := hb.unique hb'
  obtain rfl := hbody heq
  exact hxs.unique hxs'

/-- What a type may be called depends on the names of its parts only. -/
theorem Stands.mono (h : u.Stands S name d N) (hS : ∀ id args, S id args → S' id args)
    (hname : ∀ x ∈ d.parts, name' x = name x) : u.Stands S' name' d N := by
  cases d with
  | form f => exact h.trans (Form.nameBy_congr hname).symm
  | reserved => exact h
  | namedUnion origin branches =>
    obtain ⟨rfl, hparts⟩ := h
    have hargs := Instance.nameBy_congr fun x hx => hname x (List.mem_append_left _ hx)
    refine ⟨hargs.symm, ?_⟩
    rw [map_eq_of_mem (l := branches) fun x hx => hname x (List.mem_append_right _ hx)]
    exact hparts.mono hS
  | object origin shape =>
    cases origin with
    | none =>
      cases shape with
      | literal members indexes scope =>
        obtain ⟨p, rfl⟩ := h
        refine ⟨p, ?_⟩
        rw [Scope.nameBy_congr fun q hq => hname q.2 (List.mem_map_of_mem hq)]
      | intersection parts =>
        obtain ⟨p, rfl⟩ := h
        refine ⟨p, ?_⟩
        rw [map_eq_of_mem (l := parts) hname]
      | record key value => exact h
    | some origin =>
      have hargs := Instance.nameBy_congr (i := origin)
        fun x hx => hname x (List.mem_append_left _ hx)
      cases shape with
      | literal members indexes scope =>
        obtain ⟨rfl, hbody⟩ := h
        refine ⟨hargs.symm, ?_⟩
        rw [Scope.nameBy_congr fun q hq => hname q.2 (List.mem_append_right _ (List.mem_map_of_mem hq))]
        exact hbody
      | intersection parts =>
        obtain ⟨rfl, hparts⟩ := h
        refine ⟨hargs.symm, ?_⟩
        rw [map_eq_of_mem (l := parts) fun x hx => hname x (List.mem_append_right _ hx)]
        exact hparts.mono hS
      | record key value => exact ⟨h.1, h.2.trans hargs.symm⟩

/-- A type is called after its form, its alias or builtin, or the site where it is written. -/
theorem Stands.name_cases (h : u.Stands S name d N) (hopen : d ≠ .reserved) :
    (∃ f, d = .form f ∧ N = f.nameBy name) ∨
    (∃ origin, d.named? = some origin ∧ N = origin.nameBy name) ∨
    (∃ members indexes scope, ∃ p : Site, d = .object none (.literal members indexes scope) ∧
      N = .object p.listing p.owner p.path members indexes scope.unit (scope.nameBy name).params) ∨
    ∃ parts, ∃ p : Site, d = .object none (.intersection parts) ∧
      N = .intersection p.listing p.owner p.path (parts.map name) := by
  cases d with
  | form f => exact .inl ⟨f, rfl, h⟩
  | namedUnion origin branches => exact .inr (.inl ⟨origin, rfl, h.1⟩)
  | reserved => exact absurd rfl hopen
  | object origin shape =>
    cases origin with
    | some origin =>
      cases shape with
      | literal => exact .inr (.inl ⟨origin, rfl, h.1⟩)
      | intersection => exact .inr (.inl ⟨origin, rfl, h.1⟩)
      | record => exact .inr (.inl ⟨origin, rfl, h.2⟩)
    | none =>
      cases shape with
      | literal members indexes scope =>
        obtain ⟨p, heq⟩ := h
        exact .inr (.inr (.inl ⟨members, indexes, scope, p, rfl, heq⟩))
      | intersection parts =>
        obtain ⟨p, heq⟩ := h
        exact .inr (.inr (.inr ⟨parts, p, rfl, heq⟩))
      | record => cases h

theorem Stands.exists_form {f : Form} (h : u.Stands S name d (f.nameBy name')) :
    ∃ g, d = .form g ∧ f.nameBy name' = g.nameBy name := by
  have hopen : d ≠ .reserved := by
    rintro rfl
    obtain ⟨symbol, args, heq⟩ := h
    cases f with
    | _ => cases heq
  rcases h.name_cases hopen with hform | ⟨origin, -, heq⟩ | ⟨_, _, _, _, -, heq⟩ | ⟨_, _, -, heq⟩
  · exact hform
  all_goals
    cases f with
    | _ => cases heq

theorem Stands.exists_named {inst : Instance} (h : u.Stands S name d (inst.nameBy name'))
    (hopen : d ≠ .reserved) :
    ∃ origin, d.named? = some origin ∧ inst.nameBy name' = origin.nameBy name := by
  rcases h.name_cases hopen with ⟨f, -, heq⟩ | hnamed | ⟨_, _, _, _, -, heq⟩ | ⟨_, _, -, heq⟩
  · cases f with
    | _ => cases heq
  · exact hnamed
  · cases heq
  · cases heq

theorem Stands.exists_inline {k : Option Listing} {owner : TypeName} {path : List Nat}
    {members : List Member} {indexes : List Index} {unit : Nat} {params : List (String × TypeName)}
    (h : u.Stands S name d (.object k owner path members indexes unit params)) :
    ∃ members indexes scope, d = .object none (.literal members indexes scope) := by
  have hopen : d ≠ .reserved := by
    rintro rfl
    obtain ⟨symbol, args, heq⟩ := h
    cases heq
  rcases h.name_cases hopen with ⟨f, -, heq⟩ | ⟨_, -, heq⟩ | ⟨_, _, _, _, hinline, -⟩ | ⟨_, _, -, heq⟩
  · cases f with
    | _ => cases heq
  · cases heq
  · exact ⟨_, _, _, hinline⟩
  · cases heq

theorem Stands.exists_intersection {k : Option Listing} {owner : TypeName} {path : List Nat}
    {xs : List TypeName} (h : u.Stands S name d (.intersection k owner path xs)) :
    ∃ parts, d = .object none (.intersection parts) ∧ xs = parts.map name := by
  have hopen : d ≠ .reserved := by
    rintro rfl
    obtain ⟨symbol, args, heq⟩ := h
    cases heq
  rcases h.name_cases hopen with ⟨f, -, heq⟩ | ⟨_, -, heq⟩ | ⟨_, _, _, _, -, heq⟩ |
    ⟨parts, _, hinter, heq⟩
  · cases f with
    | _ => cases heq
  · cases heq
  · cases heq
  · exact ⟨parts, hinter, (TypeName.intersection.inj heq).2.2.2⟩

end Universe

/-! ## Named tables

`Later` is growth that keeps names.  It comes with a record of the sites that have been
begun, so that a site which is free now stays free as long as nothing is resolved there. -/

structure NamedTable where
  table : Interner
  name : TypeId → TypeName

namespace NamedTable

abbrev Has (V : NamedTable) (t : TypeId) : Prop := V.table.Has t

abbrev names (V : NamedTable) (ts : List TypeId) : List TypeName := ts.map V.name

abbrev scope (V : NamedTable) (scope : Scope) : NameScope := scope.nameBy V.name

/-- The instance has a handle or is being expanded. -/
def Begun (s : Interner) (inst : Instance) : Prop :=
  (∃ t, (inst, t) ∈ s.instances) ∨ inst ∈ s.expanding

/-- The alias has a handle for arguments that are called so. -/
def Recorded (V : NamedTable) (id : DeclarationId) (args : List TypeName) : Prop :=
  ∃ xs t, (⟨.declared id, xs⟩, t) ∈ V.table.instances ∧ V.names xs = args

/-- What is at the site may have been resolved. -/
def Owned (V : NamedTable) (p : Site) : Prop :=
  match p.listing with
  | none => ∃ inst, p.owner = inst.nameBy V.name ∧ Begun V.table inst
  | some k => ∃ t, V.Has t ∧ V.name t = p.owner ∧ (V.table.kept? k t).isSome = true

/-- No type is written at the site or at a part of it. -/
def Free (V : NamedTable) (p : Site) : Prop :=
  ∀ t q, V.Has t → (V.name t).site? = some q → ¬ q.Within p

theorem Owned.of_eq {V : NamedTable} {p q : Site} (h : V.Owned p) (hlisting : q.listing = p.listing)
    (howner : q.owner = p.owner) : V.Owned q := by
  unfold Owned at h ⊢
  rw [hlisting, howner]
  exact h

theorem Owned.within {V : NamedTable} {p q : Site} (h : V.Owned p) (hq : q.Within p) : V.Owned q :=
  h.of_eq hq.listing hq.owner

theorem Owned.child {V : NamedTable} {p : Site} (h : V.Owned p) (i : Nat) : V.Owned (p.child i) :=
  h.of_eq rfl rfl

/-- The second table has what the first has, under the same names. -/
structure Later (V V' : NamedTable) : Prop where
  has : ∀ t, V.Has t → V'.Has t
  name : ∀ t, V.Has t → V'.name t = V.name t
  instances : V.table.instances ⊆ V'.table.instances
  begun : ∀ inst, Begun V.table inst → Begun V'.table inst
  kept : ∀ k t, (V.table.kept? k t).isSome = true → (V'.table.kept? k t).isSome = true

namespace Later

variable {V V' V'' : NamedTable}

theorem refl (V : NamedTable) : V.Later V :=
  ⟨fun _ h => h, fun _ _ => rfl, List.Subset.refl _, fun _ h => h, fun _ _ h => h⟩

theorem trans (h : V.Later V') (h' : V'.Later V'') : V.Later V'' where
  has := fun t ht => h'.has t (h.has t ht)
  name := fun t ht => (h'.name t (h.has t ht)).trans (h.name t ht)
  instances := List.Subset.trans h.instances h'.instances
  begun := fun inst hi => h'.begun inst (h.begun inst hi)
  kept := fun k t hk => h'.kept k t (h.kept k t hk)

theorem names (h : V.Later V') {ts : List TypeId} (hts : ∀ t ∈ ts, V.Has t) :
    V'.names ts = V.names ts := map_eq_of_mem fun t ht => h.name t (hts t ht)

theorem scope (h : V.Later V') {scope : Scope} (hscope : Universe.Scope.In scope V.table) :
    V'.scope scope = V.scope scope := Scope.nameBy_congr fun p hp => h.name p.2 (hscope p hp)

theorem scope_in (h : V.Later V') {scope : Scope} (hscope : Universe.Scope.In scope V.table) :
    Universe.Scope.In scope V'.table := fun p hp => h.has p.2 (hscope p hp)

end Later

theorem Free.later {V V' : NamedTable} {p : Site} (hfree : V.Free p) (h : V.Later V')
    (hnew : ∀ t, V'.Has t → ¬ V.Has t → (V'.name t).site? = none) : V'.Free p := by
  intro t q ht hq
  by_cases hold : V.Has t
  · rw [h.name t hold] at hq
    exact hfree t q hold hq
  · cases (hnew t ht hold).symm.trans hq

end NamedTable

namespace Universe

/-- The instance is one of an alias without a handle of its own. -/
def IsOpen (u : Universe) (inst : Instance) : Prop :=
  ∃ body scope, u.IsBody inst body scope ∧ body.isStructure = false

/-- The table keeps to its names. -/
structure Naming (u : Universe) (V : NamedTable) : Prop where
  parts : ∀ t, V.Has t → ∀ x ∈ (V.table.data t).parts, V.Has x
  injective : ∀ t t', V.Has t → V.Has t' → V.name t = V.name t' → t = t'
  stands : ∀ t, V.Has t → u.Stands V.Recorded V.name (V.table.data t) (V.name t)
  begun : ∀ inst, NamedTable.Begun V.table inst → ∀ x ∈ inst.args, V.Has x
  noted : ∀ inst t, (inst, t) ∈ V.table.instances →
    V.Has t ∧ u.Names V.Recorded (.inst inst.symbol (V.names inst.args)) (V.name t)
  recorded : ∀ t symbol args, V.Has t → V.name t = .named symbol args →
    ∃ xs, (⟨symbol, xs⟩, t) ∈ V.table.instances ∧ V.names xs = args
  sites : ∀ t p, V.Has t → (V.name t).site? = some p → V.Owned p
  expanding : ∀ inst ∈ V.table.expanding, u.IsOpen inst

variable {u : Universe} {V V' : NamedTable}

theorem Naming.nameBy (hV : u.Naming V) (h : V.Later V') {inst : Instance}
    (hinst : NamedTable.Begun V.table inst) : inst.nameBy V'.name = inst.nameBy V.name :=
  Instance.nameBy_congr fun x hx => h.name x (hV.begun inst hinst x hx)

theorem Naming.keeps_recorded (hV : u.Naming V) (h : V.Later V') (id : DeclarationId)
    (args : List TypeName) (hargs : V.Recorded id args) : V'.Recorded id args := by
  obtain ⟨xs, t, hmem, rfl⟩ := hargs
  exact ⟨xs, t, h.instances hmem, h.names (hV.begun _ (.inl ⟨t, hmem⟩))⟩

theorem Naming.keeps_owned (hV : u.Naming V) (h : V.Later V') {p : Site} (hp : V.Owned p) :
    V'.Owned p := by
  obtain ⟨listing, owner, path⟩ := p
  cases listing with
  | none =>
    obtain ⟨inst, howner, hinst⟩ := hp
    exact ⟨inst, howner.trans (hV.nameBy h hinst).symm, h.begun inst hinst⟩
  | some k =>
    obtain ⟨t, ht, hname, hkept⟩ := hp
    exact ⟨t, h.has t ht, (h.name t ht).trans hname, h.kept k t hkept⟩

theorem Naming.eq_of_names_eq (hV : u.Naming V) {ts ts' : List TypeId} (hts : ∀ t ∈ ts, V.Has t)
    (hts' : ∀ t ∈ ts', V.Has t) (h : V.names ts = V.names ts') : ts = ts' :=
  eq_of_map_eq hV.injective hts hts' h

theorem Naming.inst_eq (hV : u.Naming V) {inst inst' : Instance} (h : ∀ x ∈ inst.args, V.Has x)
    (h' : ∀ x ∈ inst'.args, V.Has x) (heq : inst.nameBy V.name = inst'.nameBy V.name) :
    inst = inst' := by
  obtain ⟨symbol, args⟩ := inst
  obtain ⟨symbol', args'⟩ := inst'
  obtain ⟨hsymbol, hargs⟩ := TypeName.named.inj heq
  obtain rfl : symbol = symbol' := hsymbol
  obtain rfl : args = args' := hV.eq_of_names_eq h h' hargs
  rfl

theorem Naming.not_owned (hV : u.Naming V) {inst : Instance} (hargs : ∀ x ∈ inst.args, V.Has x)
    (hnew : ¬ NamedTable.Begun V.table inst) (path : List Nat) :
    ¬ V.Owned ⟨none, inst.nameBy V.name, path⟩ := by
  rintro ⟨inst', heq, hbegun⟩
  obtain rfl := hV.inst_eq hargs (hV.begun inst' hbegun) heq
  exact hnew hbegun

/-- A table goes on keeping to its names if what changes in it does. -/
theorem Naming.of_later (hV : u.Naming V) (h : V.Later V')
    (hdata : ∀ t, V'.Has t → (V.Has t ∧ V'.table.data t = V.table.data t) ∨
      ((∀ x ∈ (V'.table.data t).parts, V'.Has x) ∧
        u.Stands V'.Recorded V'.name (V'.table.data t) (V'.name t)))
    (hnew : ∀ t, V'.Has t → ¬ V.Has t → (∀ t', V'.Has t' → V'.name t' = V'.name t → t' = t) ∧
      (∀ symbol args, V'.name t = .named symbol args →
        ∃ xs, (⟨symbol, xs⟩, t) ∈ V'.table.instances ∧ V'.names xs = args) ∧
      ∀ p, (V'.name t).site? = some p → V'.Owned p)
    (hinst : ∀ inst t, (inst, t) ∈ V'.table.instances → (inst, t) ∈ V.table.instances ∨
      (V'.Has t ∧ (∀ x ∈ inst.args, V'.Has x) ∧
        u.Names V'.Recorded (.inst inst.symbol (V'.names inst.args)) (V'.name t)))
    (hexpanding : ∀ inst ∈ V'.table.expanding, inst ∈ V.table.expanding ∨
      ((∀ x ∈ inst.args, V'.Has x) ∧ u.IsOpen inst)) : u.Naming V' where
  parts := by
    intro t ht x hx
    rcases hdata t ht with ⟨hold, heq⟩ | ⟨hparts, -⟩
    · rw [heq] at hx
      exact h.has x (hV.parts t hold x hx)
    · exact hparts x hx
  injective := by
    intro t t' ht ht' heq
    by_cases hold : V.Has t
    · by_cases hold' : V.Has t'
      · rw [h.name t hold, h.name t' hold'] at heq
        exact hV.injective t t' hold hold' heq
      · exact (hnew t' ht' hold').1 t ht heq
    · exact ((hnew t ht hold).1 t' ht' heq.symm).symm
  stands := by
    intro t ht
    rcases hdata t ht with ⟨hold, heq⟩ | ⟨-, hstands⟩
    · rw [heq, h.name t hold]
      exact (hV.stands t hold).mono (hV.keeps_recorded h) fun x hx => h.name x (hV.parts t hold x hx)
    · exact hstands
  begun := by
    intro inst hbegun x hx
    rcases hbegun with ⟨t, hmem⟩ | hmem
    · rcases hinst inst t hmem with hold | ⟨-, hargs, -⟩
      · exact h.has x (hV.begun inst (.inl ⟨t, hold⟩) x hx)
      · exact hargs x hx
    · rcases hexpanding inst hmem with hold | ⟨hargs, -⟩
      · exact h.has x (hV.begun inst (.inr hold) x hx)
      · exact hargs x hx
  noted := by
    intro inst t hmem
    rcases hinst inst t hmem with hold | ⟨ht, -, hnames⟩
    · obtain ⟨ht, hnames⟩ := hV.noted inst t hold
      refine ⟨h.has t ht, ?_⟩
      rw [h.names (hV.begun inst (.inl ⟨t, hold⟩)), h.name t ht]
      exact hnames.mono (hV.keeps_recorded h)
    · exact ⟨ht, hnames⟩
  recorded := by
    intro t symbol args ht hname
    by_cases hold : V.Has t
    · rw [h.name t hold] at hname
      obtain ⟨xs, hmem, rfl⟩ := hV.recorded t symbol args hold hname
      exact ⟨xs, h.instances hmem, h.names (hV.begun _ (.inl ⟨t, hmem⟩))⟩
    · exact (hnew t ht hold).2.1 symbol args hname
  sites := by
    intro t p ht hp
    by_cases hold : V.Has t
    · rw [h.name t hold] at hp
      exact hV.keeps_owned h (hV.sites t p hold hp)
    · exact (hnew t ht hold).2.2 p hp
  expanding := fun inst hmem => (hexpanding inst hmem).elim (hV.expanding inst) fun h => h.2

/-- The second table keeps to its names as well, nothing is under way for longer, and what is new
at a site that was begun before is where it is stated. -/
structure Continued (u : Universe) (P : Site → Prop) (V V' : NamedTable) : Prop where
  naming : u.Naming V'
  later : V.Later V'
  expanding : V'.table.expanding = V.table.expanding
  sites : ∀ t q, V'.Has t → ¬ V.Has t → (V'.name t).site? = some q → P q ∨ ¬ V.Owned q

namespace Continued

variable {P P' : Site → Prop} {V'' : NamedTable}

theorem refl (hV : u.Naming V) : u.Continued P V V :=
  ⟨hV, .refl V, rfl, fun _ _ ht hnew => absurd ht hnew⟩

theorem mono (h : u.Continued P V V') (hP : ∀ q, P q → P' q) : u.Continued P' V V' :=
  ⟨h.naming, h.later, h.expanding, fun t q ht hnew hq => (h.sites t q ht hnew hq).imp_left (hP q)⟩

theorem trans (hV : u.Naming V) (h : u.Continued P V V') (h' : u.Continued P V' V'') :
    u.Continued P V V'' where
  naming := h'.naming
  later := h.later.trans h'.later
  expanding := h'.expanding.trans h.expanding
  sites := by
    intro t q ht hnew hq
    by_cases hold : V'.Has t
    · rw [h'.later.name t hold] at hq
      exact h.sites t q hold hnew hq
    · exact (h'.sites t q ht hold hq).imp_right fun hnot howned =>
        hnot (hV.keeps_owned h.later howned)

theorem free (h : u.Continued P V V') {p : Site} (howned : V.Owned p) (hfree : V.Free p)
    (hP : ∀ q, P q → ¬ q.Within p) : V'.Free p := by
  intro t q ht hq hwithin
  by_cases hold : V.Has t
  · rw [h.later.name t hold] at hq
    exact hfree t q hold hq hwithin
  · rcases h.sites t q ht hold hq with hp | hnot
    · exact hP q hp hwithin
    · exact hnot (howned.within hwithin)

end Continued
end Universe

/-! ## New handles

A handle gets its name when it is pushed, before it is filled in.  The three ways to push are
for forms and inline objects, for aliases with a handle of their own, and, without a new
handle, for the expansion of the others. -/

namespace NamedTable

variable {V : NamedTable} {d : TypeData} {N : TypeName} {t : TypeId}

/-- The handle that is handed out next. -/
def fresh (V : NamedTable) : TypeId := ⟨V.table.slots.size⟩

def push (V : NamedTable) (d : TypeData) (N : TypeName) : NamedTable :=
  ⟨(V.table.push d).2, fun t => if t = V.fresh then N else V.name t⟩

/-- A new handle that is noted for an instance. -/
def pushNamed (V : NamedTable) (d : TypeData) (inst : Instance) : NamedTable :=
  ⟨(V.table.push d).2.record inst V.fresh, (V.push d (inst.nameBy V.name)).name⟩

def beginExpansion (V : NamedTable) (inst : Instance) : NamedTable :=
  ⟨{ V.table with expanding := inst :: V.table.expanding }, V.name⟩

/-- The instance that was under way last has come to its type. -/
def endExpansion (V : NamedTable) (inst : Instance) (t : TypeId) : NamedTable :=
  ⟨Interner.record { V.table with expanding := V.table.expanding.drop 1 } inst t, V.name⟩

theorem not_has_fresh (V : NamedTable) : ¬ V.Has V.fresh := Nat.lt_irrefl _

theorem has_push : (V.push d N).Has t ↔ V.Has t ∨ t = V.fresh := by
  show t.index < (V.table.push d).2.slots.size ↔ _
  rw [Interner.size_push, Nat.lt_succ_iff_lt_or_eq]
  exact or_congr_right ⟨fun h => TypeId.index_injective h, fun h => congrArg TypeId.index h⟩

theorem name_push_fresh : (V.push d N).name V.fresh = N := if_pos rfl

theorem name_push (ht : V.Has t) : (V.push d N).name t = V.name t :=
  if_neg (by
    rintro rfl
    exact V.not_has_fresh ht)

theorem data_push_fresh : (V.push d N).table.data V.fresh = d :=
  (Interner.data_push V.table d V.fresh).trans (if_pos rfl)

theorem data_push (ht : V.Has t) : (V.push d N).table.data t = V.table.data t :=
  (Interner.Grows.push V.table d).data t ht

theorem kept?_push (k : Listing) : (V.push d N).table.kept? k t = V.table.kept? k t := by
  cases k with
  | members => exact Interner.members?_push V.table d t
  | indexes => exact Interner.indexes?_push V.table d t

theorem later_push (V : NamedTable) (d : TypeData) (N : TypeName) : V.Later (V.push d N) :=
  ⟨fun _ ht => has_push.2 (.inl ht), fun _ ht => name_push ht, List.Subset.refl _, fun _ h => h,
    fun k t h => by rw [kept?_push]; exact h⟩

theorem later_pushNamed (V : NamedTable) (d : TypeData) (inst : Instance) :
    V.Later (V.pushNamed d inst) where
  has := (V.later_push d (inst.nameBy V.name)).has
  name := (V.later_push d (inst.nameBy V.name)).name
  instances := List.subset_cons_self _ _
  begun := fun _ h => h.imp_left fun ⟨t, hmem⟩ => ⟨t, List.mem_cons_of_mem _ hmem⟩
  kept := (V.later_push d (inst.nameBy V.name)).kept

section Named

variable {inst : Instance}

theorem has_pushNamed : (V.pushNamed d inst).Has t ↔ V.Has t ∨ t = V.fresh :=
  has_push (d := d) (N := inst.nameBy V.name)

theorem name_pushNamed_fresh : (V.pushNamed d inst).name V.fresh = inst.nameBy V.name :=
  name_push_fresh (d := d)

theorem data_pushNamed_fresh : (V.pushNamed d inst).table.data V.fresh = d :=
  data_push_fresh (N := inst.nameBy V.name)

theorem data_pushNamed (ht : V.Has t) : (V.pushNamed d inst).table.data t = V.table.data t :=
  data_push (N := inst.nameBy V.name) ht

end Named

theorem name_eq_of_push (hfresh : ∀ t, V.Has t → V.name t ≠ N) (ht : (V.push d N).Has t)
    (hname : (V.push d N).name t = N) : t = V.fresh := by
  rcases has_push.1 ht with ht | rfl
  · rw [name_push ht] at hname
    exact absurd hname (hfresh t ht)
  · rfl

end NamedTable

namespace Universe
namespace Naming

variable {u : Universe} {V : NamedTable} {P : Site → Prop} {d : TypeData}

theorem push (hV : u.Naming V) {N : TypeName} (hparts : ∀ x ∈ d.parts, V.Has x)
    (hstands : u.Stands V.Recorded V.name d N) (hfresh : ∀ t, V.Has t → V.name t ≠ N)
    (hnamed : ∀ symbol args, N ≠ .named symbol args)
    (hsite : ∀ p, N.site? = some p → V.Owned p ∧ P p) : u.Continued P V (V.push d N) := by
  have hlater : V.Later (V.push d N) := V.later_push d N
  have hnew : ∀ t, (V.push d N).Has t → ¬ V.Has t → t = V.fresh := fun t ht hnot =>
    (NamedTable.has_push.1 ht).resolve_left hnot
  refine ⟨hV.of_later hlater (fun t ht => ?_) (fun t ht hnot => ?_) (fun _ _ => .inl)
    (fun _ => .inl), hlater, rfl, fun t q ht hnot hq => ?_⟩
  · rcases NamedTable.has_push.1 ht with ht | rfl
    · exact .inl ⟨ht, NamedTable.data_push ht⟩
    · rw [NamedTable.data_push_fresh, NamedTable.name_push_fresh]
      exact .inr ⟨fun x hx => hlater.has x (hparts x hx),
        hstands.mono (hV.keeps_recorded hlater) fun x hx => hlater.name x (hparts x hx)⟩
  · obtain rfl := hnew t ht hnot
    rw [NamedTable.name_push_fresh]
    exact ⟨fun t' ht' => NamedTable.name_eq_of_push hfresh ht',
      fun symbol args h => absurd h (hnamed symbol args),
      fun p hp => hV.keeps_owned hlater (hsite p hp).1⟩
  · obtain rfl := hnew t ht hnot
    rw [NamedTable.name_push_fresh] at hq
    exact .inl (hsite q hq).2

/-! The name of a new handle must be one that no type has.  For an instance this holds as long as
it is not begun: a type of that name would be noted for an instance whose arguments have the
same names, and names tell arguments apart. -/

theorem name_ne_of_not_begun (hV : u.Naming V) {inst : Instance} (hargs : ∀ x ∈ inst.args, V.Has x)
    (hnew : ¬ NamedTable.Begun V.table inst) {t : TypeId} (ht : V.Has t) :
    V.name t ≠ inst.nameBy V.name := by
  intro hname
  obtain ⟨xs, hmem, hxs⟩ := hV.recorded t _ _ ht hname
  have hbegun : NamedTable.Begun V.table ⟨inst.symbol, xs⟩ := .inl ⟨t, hmem⟩
  obtain rfl : xs = inst.args := hV.eq_of_names_eq (hV.begun _ hbegun) hargs hxs
  exact hnew hbegun

theorem pushNamed (hV : u.Naming V) {inst : Instance} (hargs : ∀ x ∈ inst.args, V.Has x)
    (hparts : ∀ x ∈ d.parts, V.Has x) (hstands : u.Stands V.Recorded V.name d (inst.nameBy V.name))
    (hnew : ¬ NamedTable.Begun V.table inst)
    (hnames : u.Names (V.pushNamed d inst).Recorded (.inst inst.symbol (V.names inst.args))
      (inst.nameBy V.name)) : u.Continued P V (V.pushNamed d inst) := by
  have hlater : V.Later (V.pushNamed d inst) := V.later_pushNamed d inst
  have hfresh : ∀ t, V.Has t → V.name t ≠ inst.nameBy V.name := fun t =>
    hV.name_ne_of_not_begun hargs hnew
  have hold : (V.pushNamed d inst).names inst.args = V.names inst.args := hlater.names hargs
  refine ⟨hV.of_later hlater (fun t ht => ?_) (fun t ht hnot => ?_) (fun inst' t hmem => ?_)
    (fun _ => .inl), hlater, rfl, fun t q ht hnot hq => ?_⟩
  · rcases NamedTable.has_pushNamed.1 ht with ht | rfl
    · exact .inl ⟨ht, NamedTable.data_pushNamed ht⟩
    · rw [NamedTable.data_pushNamed_fresh, NamedTable.name_pushNamed_fresh]
      exact .inr ⟨fun x hx => hlater.has x (hparts x hx),
        hstands.mono (hV.keeps_recorded hlater) fun x hx => hlater.name x (hparts x hx)⟩
  · obtain rfl := (NamedTable.has_pushNamed.1 ht).resolve_left hnot
    rw [NamedTable.name_pushNamed_fresh]
    refine ⟨fun t' ht' => NamedTable.name_eq_of_push hfresh ht', ?_, fun p hp => by cases hp⟩
    rintro symbol args hname
    obtain ⟨rfl, rfl⟩ := TypeName.named.inj hname
    exact ⟨inst.args, List.mem_cons_self, hold⟩
  · rcases List.mem_cons.1 hmem with heq | hmem
    · cases heq
      refine .inr ⟨NamedTable.has_pushNamed.2 (.inr rfl), fun x hx => hlater.has x (hargs x hx), ?_⟩
      rw [hold, NamedTable.name_pushNamed_fresh]
      exact hnames
    · exact .inl hmem
  · obtain rfl := (NamedTable.has_pushNamed.1 ht).resolve_left hnot
    rw [NamedTable.name_pushNamed_fresh] at hq
    cases hq

/-- A table with the same types may say more of instances. -/
theorem of_slots_eq (hV : u.Naming V) {s : Interner} (hslots : s.slots = V.table.slots)
    (hinstances : V.table.instances ⊆ s.instances)
    (hbegun : ∀ inst, NamedTable.Begun V.table inst → NamedTable.Begun s inst)
    (hnoted : ∀ inst t, (inst, t) ∈ s.instances → (inst, t) ∈ V.table.instances ∨
      (V.Has t ∧ (∀ x ∈ inst.args, V.Has x) ∧
        u.Names V.Recorded (.inst inst.symbol (V.names inst.args)) (V.name t)))
    (hexpanding : ∀ inst ∈ s.expanding, inst ∈ V.table.expanding ∨
      ((∀ x ∈ inst.args, V.Has x) ∧ u.IsOpen inst)) :
    u.Naming ⟨s, V.name⟩ ∧ V.Later ⟨s, V.name⟩ := by
  obtain ⟨slots, instances, expanding⟩ := s
  obtain rfl : slots = V.table.slots := hslots
  have hlater : V.Later ⟨⟨V.table.slots, instances, expanding⟩, V.name⟩ := by
    refine ⟨fun _ ht => ht, fun _ _ => rfl, hinstances, hbegun, fun k t h => ?_⟩
    cases k with
    | members => exact h
    | indexes => exact h
  refine ⟨hV.of_later hlater (fun t ht => .inl ⟨ht, rfl⟩) (fun t ht hnot => absurd ht hnot)
    (fun inst t hmem => (hnoted inst t hmem).imp_right fun ⟨ht, hargs, hnames⟩ => ⟨ht, hargs, ?_⟩)
    hexpanding, hlater⟩
  exact hnames.mono (hV.keeps_recorded hlater)

theorem beginExpansion (hV : u.Naming V) {i : Instance} (hargs : ∀ x ∈ i.args, V.Has x)
    (hopen : u.IsOpen i) : u.Naming (V.beginExpansion i) ∧ V.Later (V.beginExpansion i) := by
  refine hV.of_slots_eq rfl (List.Subset.refl _) (fun _ h => h.imp_right (List.mem_cons_of_mem _))
    (fun _ _ => .inl) fun inst' hmem => ?_
  rcases List.mem_cons.1 hmem with rfl | hmem
  · exact .inr ⟨hargs, hopen⟩
  · exact .inl hmem

theorem endExpansion (hV : u.Naming V) {i : Instance} {es : List Instance}
    (hexpanding : V.table.expanding = i :: es) {t : TypeId} (ht : V.Has t)
    (hnames : u.Names V.Recorded (.inst i.symbol (V.names i.args)) (V.name t)) :
    u.Naming (V.endExpansion i t) ∧ V.Later (V.endExpansion i t) := by
  have hargs : ∀ x ∈ i.args, V.Has x := hV.begun i (.inr (by
    rw [hexpanding]
    exact List.mem_cons_self))
  refine hV.of_slots_eq rfl (List.subset_cons_self _ _) (fun inst' hbegun => ?_)
    (fun inst' t' hmem => ?_) fun inst' hmem => .inl (List.mem_of_mem_drop hmem)
  · rcases hbegun with ⟨t', hmem⟩ | hmem
    · exact .inl ⟨t', List.mem_cons_of_mem _ hmem⟩
    · rw [hexpanding] at hmem
      rcases List.mem_cons.1 hmem with rfl | hmem
      · exact .inl ⟨t, List.mem_cons_self⟩
      · refine .inr ?_
        show inst' ∈ V.table.expanding.drop 1
        rw [hexpanding]
        exact hmem
  · rcases List.mem_cons.1 hmem with heq | hmem
    · cases heq
      exact .inr ⟨ht, hargs, hnames⟩
    · exact .inl hmem

theorem define (hV : u.Naming V) {t : TypeId} (ht : V.Has t) (hparts : ∀ x ∈ d.parts, V.Has x)
    (hstands : u.Stands V.Recorded V.name d (V.name t)) :
    u.Naming ⟨V.table.define t d, V.name⟩ ∧ V.Later ⟨V.table.define t d, V.name⟩ := by
  have hhas : ∀ {x}, (V.table.define t d).Has x ↔ V.Has x := Interner.has_modifySlot V.table t _
  have hlater : V.Later ⟨V.table.define t d, V.name⟩ := by
    refine ⟨fun _ => hhas.2, fun _ _ => rfl, List.Subset.refl _, fun _ h => h, fun k x h => ?_⟩
    cases k with
    | members =>
      show ((V.table.define t d).members? x).isSome = true
      rw [Interner.members?_define]
      exact h
    | indexes =>
      show ((V.table.define t d).indexes? x).isSome = true
      rw [Interner.indexes?_define]
      exact h
  refine ⟨hV.of_later hlater (fun x hx => ?_) (fun x hx hnot => absurd (hhas.1 hx) hnot)
    (fun _ _ => .inl) (fun _ => .inl), hlater⟩
  have hdata : (V.table.define t d).data x = if t = x then d else V.table.data x :=
    Interner.data_define ht d x
  by_cases heq : t = x
  · subst heq
    rw [if_pos rfl] at hdata
    refine .inr ⟨fun y hy => hhas.2 (hparts y ?_), ?_⟩
    · rw [← hdata]
      exact hy
    · show u.Stands _ V.name ((V.table.define t d).data t) (V.name t)
      rw [hdata]
      exact hstands.mono (hV.keeps_recorded hlater) fun _ _ => rfl
  · rw [if_neg heq] at hdata
    exact .inl ⟨hhas.1 hx, hdata⟩

end Naming
end Universe
end TypedJson
