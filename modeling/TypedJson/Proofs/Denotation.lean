import TypedJson.Proofs.Lookup
/-!
# What an expression denotes

`Universe.Denotes` relates a type expression to the handle of its type, as a statement about a
table of types alone: it says neither in which order types were resolved nor how deep.  A
transparent alias denotes what its body denotes; an alias with a handle of its own denotes the
handle that the table notes for it, and what is in there is said by the table
(`Universe.Meaningful`), so the relation is well-founded for recursive types as well.

The rule for an alias with a handle of its own asks only that the handle is noted for the
instance, which it is from the moment it is reserved.  So the relation can be carried through
resolution: a derivation that holds now holds in every table that says more
(`Denotes.extends`).  The questions are then answered by inversion, one lemma for each kind
of name.
-/
namespace TypedJson

/-- The type parameter that the name stands for, unless it has arguments. -/
def Scope.bound? (scope : Scope) (name : String) (args : List TypeExpr) : Option (String × TypeId) :=
  if args.isEmpty then scope.params.find? (·.1 == name) else none

/-- The type that a reserved word stands for. -/
def wordForm? (name : String) : Option Form :=
  match Intrinsic.ofName? name with
  | some i => some (.intrinsic i)
  | none =>
    if name = "true" then some (.literal (.bool true))
    else if name = "false" then some (.literal (.bool false))
    else none

theorem wordForm?_parts {n : String} {f : Form} (h : wordForm? n = some f) :
    (TypeData.form f).parts = [] := by
  unfold wordForm? at h
  split at h
  · cases h
    rfl
  · split at h
    · cases h
      rfl
    · split at h
      · cases h
        rfl
      · cases h

/-- The scope of the texts of a declaration that is applied to arguments. -/
def Declaration.scope (d : Declaration) (id : DeclarationId) (args : List TypeId) : Scope :=
  ⟨id.unit, d.typeParams.zip args⟩

/-- The alias that the type is named by. -/
def TypeData.named? : TypeData → Option Instance
  | .namedUnion origin _ => some origin
  | .object (some origin) _ => some origin
  | _ => none

theorem TypeData.cases_of_named? {d : TypeData} {inst : Instance} (h : d.named? = some inst) :
    (∃ branches, d = .namedUnion inst branches) ∨ ∃ shape, d = .object (some inst) shape := by
  cases d with
  | form | reserved => cases h
  | namedUnion origin branches =>
    cases h
    exact .inl ⟨branches, rfl⟩
  | object origin shape =>
    cases origin with
    | none => cases h
    | some origin =>
      cases h
      exact .inr ⟨shape, rfl⟩

namespace Interner

/-- The second table says what the first says, and may say more. -/
structure Extends (s s' : Interner) : Prop where
  data : ∀ t, s.data t ≠ .reserved → s'.data t = s.data t
  instances : s.instances ⊆ s'.instances

namespace Extends

variable {s s' s'' : Interner}

theorem trans (h : s.Extends s') (h' : s'.Extends s'') : s.Extends s'' where
  data := fun t ht => by rw [h'.data t (by rw [h.data t ht]; exact ht), h.data t ht]
  instances := List.Subset.trans h.instances h'.instances

theorem data_eq (h : s.Extends s') {t : TypeId} {d : TypeData} (hd : s.data t = d)
    (hne : d ≠ .reserved) : s'.data t = d := by
  rw [h.data t (by rw [hd]; exact hne), hd]

theorem form (h : s.Extends s') {t : TypeId} {f : Form} (hd : s.data t = .form f) :
    s'.data t = .form f := h.data_eq hd fun he => by cases he

theorem of_grows (h : s.Grows s') (hinst : s.instances ⊆ s'.instances) : s.Extends s' where
  data := fun t ht => h.data t (has_of_data_ne ht)
  instances := hinst

end Extends

/-- An argument, or the intrinsic type in its place. -/
def IsArgument (s : Interner) (i : Intrinsic) (given : Option TypeId) (t : TypeId) : Prop :=
  given = some t ∨ given = none ∧ s.data t = .form (.intrinsic i)

/-- The builtin applied to the arguments is this type. -/
def IsBuiltin (s : Interner) (b : Builtin) (args : List TypeId) (d : TypeData) : Prop :=
  match b with
  | .array => ∃ x, s.IsArgument .unknown args[0]? x ∧ d = .form (.array x)
  | .date | .pattern => d = .form (.reference ⟨.builtin b, []⟩)
  | .record => ∃ key value, s.IsArgument .string args[0]? key ∧
      s.IsArgument .unknown args[1]? value ∧
      d = .object (some ⟨.builtin .record, [key, value]⟩) (.record key value)

/-- The arguments of an instance of the declaration: those given, without surplus ones, and the
own parameters of the declaration for those missing. -/
def Completes (s : Interner) (id : DeclarationId) (count : Nat) (given args : List TypeId) : Prop :=
  ∃ missing, args = given.take count ++ missing ∧
    List.Forall₂ (fun position t => s.data t = .form (.param (.param id position)))
      ((List.range count).drop (given.take count).length) missing

variable {s s' : Interner}

theorem IsArgument.extends {i : Intrinsic} {given : Option TypeId} {t : TypeId}
    (ht : s.IsArgument i given t) (h : s.Extends s') : s'.IsArgument i given t :=
  ht.imp_right fun ⟨hgiven, hdata⟩ => ⟨hgiven, h.form hdata⟩

theorem IsBuiltin.extends {b : Builtin} {args : List TypeId} {d : TypeData}
    (hd : s.IsBuiltin b args d) (h : s.Extends s') : s'.IsBuiltin b args d := by
  cases b with
  | array =>
    obtain ⟨x, hx, rfl⟩ := hd
    exact ⟨x, hx.extends h, rfl⟩
  | date | pattern => exact hd
  | record =>
    obtain ⟨key, value, hkey, hvalue, rfl⟩ := hd
    exact ⟨key, value, hkey.extends h, hvalue.extends h, rfl⟩

theorem IsBuiltin.ne_reserved {b : Builtin} {args : List TypeId} {d : TypeData}
    (hd : s.IsBuiltin b args d) : d ≠ .reserved := by
  rintro rfl
  cases b with
  | array =>
    obtain ⟨x, -, hd⟩ := hd
    cases hd
  | date | pattern => cases hd
  | record =>
    obtain ⟨key, value, -, -, hd⟩ := hd
    cases hd

theorem Completes.extends {id : DeclarationId} {count : Nat} {given args : List TypeId}
    (hargs : s.Completes id count given args) (h : s.Extends s') :
    s'.Completes id count given args := by
  obtain ⟨missing, rfl, hmissing⟩ := hargs
  exact ⟨missing, rfl, hmissing.imp fun _ _ hdata => h.form hdata⟩

theorem Completes.length_eq {id : DeclarationId} {count : Nat} {given args : List TypeId}
    (h : s.Completes id count given args) : args.length = count := by
  obtain ⟨missing, rfl, hmissing⟩ := h
  have hlength := hmissing.length_eq
  rw [List.length_drop, List.length_range, List.length_take] at hlength
  rw [List.length_append, List.length_take, ← hlength]
  omega

theorem Completes.of_length {id : DeclarationId} {count : Nat} {args : List TypeId}
    (h : args.length = count) : s.Completes id count args args := by
  subst h
  refine ⟨[], ?_, ?_⟩
  · rw [List.take_length, List.append_nil]
  · rw [List.take_length, List.drop_eq_nil_of_le (Nat.le_of_eq List.length_range)]
    exact .nil

end Interner

namespace Universe

/-- What is resolved to a type: an expression in a scope, a name that is looked up from a unit,
or a declaration. -/
inductive Phrase
  | expr (scope : Scope) (e : TypeExpr)
  | applied (unit : Nat) (name : String) (args : List TypeId)
  | declared (id : DeclarationId) (args : List TypeId)

/-! ## The relation

One rule for each form of an expression, and for a name one for each of the things that it
can mean: a parameter in scope, a reserved word, a builtin, a declaration, nothing at all.
An instance of a declaration is completed with the parameters that it leaves out. -/

inductive Denotes (u : Universe) (s : Interner) : Phrase → TypeId → Prop
  | param {scope n args p} (h : scope.bound? n args = some p) :
    Denotes u s (.expr scope (.generic n args)) p.2
  | word {scope n args f t} (h : scope.bound? n args = none) (hf : wordForm? n = some f)
    (ht : s.data t = .form f) : Denotes u s (.expr scope (.generic n args)) t
  | applied {scope n args xs t} (h : scope.bound? n args = none) (hf : wordForm? n = none)
    (hlen : args.length = xs.length)
    (hargs : ∀ {e x}, (e, x) ∈ args.zip xs → Denotes u s (.expr scope e) x)
    (ht : Denotes u s (.applied scope.unit n xs) t) : Denotes u s (.expr scope (.generic n args)) t
  | name {scope n t} (h : Denotes u s (.expr scope (.generic n [])) t) :
    Denotes u s (.expr scope (.name n)) t
  | array {scope e x t} (h : Denotes u s (.expr scope e) x) (ht : s.data t = .form (.array x)) :
    Denotes u s (.expr scope (.array e)) t
  | union {scope es xs t} (hlen : es.length = xs.length)
    (h : ∀ {e x}, (e, x) ∈ es.zip xs → Denotes u s (.expr scope e) x)
    (ht : s.data t = .form (.union xs)) : Denotes u s (.expr scope (.union es)) t
  | intersection {scope es xs t} (hlen : es.length = xs.length)
    (h : ∀ {e x}, (e, x) ∈ es.zip xs → Denotes u s (.expr scope e) x)
    (ht : s.data t = .object none (.intersection xs)) :
    Denotes u s (.expr scope (.intersection es)) t
  | literal {scope value t} (ht : s.data t = .form (.literal value)) :
    Denotes u s (.expr scope (.literal value)) t
  | object {scope members indexes t} (ht : s.data t = .object none (.literal members indexes scope)) :
    Denotes u s (.expr scope (.object members indexes)) t
  | declared {unit n id xs t} (h : u.find? n unit = some id) (ht : Denotes u s (.declared id xs) t) :
    Denotes u s (.applied unit n xs) t
  | builtin {unit n b xs t} (h : u.find? n unit = none) (hb : Builtin.ofName? n = some b)
    (ht : s.IsBuiltin b xs (s.data t)) : Denotes u s (.applied unit n xs) t
  | unknown {unit n xs t} (h : u.find? n unit = none) (hb : Builtin.ofName? n = none)
    (ht : s.data t = .form (.unresolved n)) : Denotes u s (.applied unit n xs) t
  /-- An interface or an enum. -/
  | reference {id d xs args t} (hd : u.declaration? id = some d)
    (hkind : DeclarationBody.kind d.body ≠ .typeAlias)
    (hargs : s.Completes id d.typeParams.length xs args)
    (ht : s.data t = .form (.reference ⟨.declared id, args⟩)) : Denotes u s (.declared id xs) t
  | named {id d body xs args t} (hd : u.declaration? id = some d) (hbody : d.body = .typeAlias body)
    (hnamed : body.isStructure = true) (hargs : s.Completes id d.typeParams.length xs args)
    (ht : (⟨.declared id, args⟩, t) ∈ s.instances) : Denotes u s (.declared id xs) t
  | transparent {id d body xs args t} (hd : u.declaration? id = some d)
    (hbody : d.body = .typeAlias body) (hnamed : body.isStructure = false)
    (hargs : s.Completes id d.typeParams.length xs args)
    (h : Denotes u s (.expr (d.scope id args) body) t) : Denotes u s (.declared id xs) t
  /-- A transparent alias within itself. -/
  | circular {id d xs t} (hd : u.declaration? id = some d)
    (ht : s.data t = .form (.unresolved d.name)) : Denotes u s (.declared id xs) t

variable {u : Universe} {s s' : Interner}

theorem Denotes.extends {p : Phrase} {t : TypeId} (ht : u.Denotes s p t) (h : s.Extends s') :
    u.Denotes s' p t := by
  induction ht with
  | param hbound => exact .param hbound
  | word hbound hword hdata => exact .word hbound hword (h.form hdata)
  | applied hbound hword hlen _ _ ihargs ih => exact .applied hbound hword hlen ihargs ih
  | name _ ih => exact .name ih
  | array _ hdata ih => exact .array ih (h.form hdata)
  | union hlen _ hdata ih => exact .union hlen ih (h.form hdata)
  | intersection hlen _ hdata ih =>
    exact .intersection hlen ih (h.data_eq hdata fun he => by cases he)
  | literal hdata => exact .literal (h.form hdata)
  | object hdata => exact .object (h.data_eq hdata fun he => by cases he)
  | declared hfind _ ih => exact .declared hfind ih
  | builtin hfind hb hdata =>
    refine .builtin hfind hb ?_
    rw [h.data _ hdata.ne_reserved]
    exact hdata.extends h
  | unknown hfind hb hdata => exact .unknown hfind hb (h.form hdata)
  | reference hd hkind hargs hdata => exact .reference hd hkind (hargs.extends h) (h.form hdata)
  | named hd hbody hnamed hargs hinst =>
    exact .named hd hbody hnamed (hargs.extends h) (h.instances hinst)
  | transparent hd hbody hnamed hargs _ ih =>
    exact .transparent hd hbody hnamed (hargs.extends h) ih
  | circular hd hdata => exact .circular hd (h.form hdata)

namespace Denotes

variable {scope : Scope} {n : String} {unit : Nat} {t : TypeId}

/-! ## What a name denotes

The rules for names exclude one another: which one applies is decided by the scope, by the
reserved words and by what the unit finds, in this order. -/

theorem eq_of_bound {es : List TypeExpr} {q : String × TypeId}
    (ht : u.Denotes s (.expr scope (.generic n es)) t) (hbound : scope.bound? n es = some q) :
    t = q.2 := by
  cases ht with
  | param hbound' =>
    rw [hbound] at hbound'
    cases hbound'
    rfl
  | word hbound' => rw [hbound] at hbound'; cases hbound'
  | applied hbound' => rw [hbound] at hbound'; cases hbound'

theorem data_of_word {es : List TypeExpr} {f : Form}
    (ht : u.Denotes s (.expr scope (.generic n es)) t) (hbound : scope.bound? n es = none)
    (hword : wordForm? n = some f) : s.data t = .form f := by
  cases ht with
  | param hbound' => rw [hbound] at hbound'; cases hbound'
  | word _ hword' hdata =>
    rw [hword] at hword'
    cases hword'
    exact hdata
  | applied _ hword' => rw [hword] at hword'; cases hword'

theorem exists_applied {es : List TypeExpr} (ht : u.Denotes s (.expr scope (.generic n es)) t)
    (hbound : scope.bound? n es = none) (hword : wordForm? n = none) :
    ∃ xs, List.Forall₂ (fun e x => u.Denotes s (.expr scope e) x) es xs ∧
      u.Denotes s (.applied scope.unit n xs) t := by
  cases ht with
  | param hbound' => rw [hbound] at hbound'; cases hbound'
  | word _ hword' => rw [hword] at hword'; cases hword'
  | applied _ _ hlen hxs ht => exact ⟨_, List.forall₂_iff_zip.2 ⟨hlen, hxs⟩, ht⟩

theorem declared_of_find? {xs : List TypeId} {id : DeclarationId}
    (ht : u.Denotes s (.applied unit n xs) t) (hfind : u.find? n unit = some id) :
    u.Denotes s (.declared id xs) t := by
  cases ht with
  | declared hfind' ht =>
    rw [hfind] at hfind'
    cases hfind'
    exact ht
  | builtin hfind' => rw [hfind] at hfind'; cases hfind'
  | unknown hfind' => rw [hfind] at hfind'; cases hfind'

theorem isBuiltin {xs : List TypeId} {b : Builtin} (ht : u.Denotes s (.applied unit n xs) t)
    (hfind : u.find? n unit = none) (hb : Builtin.ofName? n = some b) :
    s.IsBuiltin b xs (s.data t) := by
  cases ht with
  | declared hfind' => rw [hfind] at hfind'; cases hfind'
  | builtin _ hb' hdata =>
    rw [hb] at hb'
    cases hb'
    exact hdata
  | unknown _ hb' => rw [hb] at hb'; cases hb'

theorem data_of_unknown {xs : List TypeId} (ht : u.Denotes s (.applied unit n xs) t)
    (hfind : u.find? n unit = none) (hb : Builtin.ofName? n = none) :
    s.data t = .form (.unresolved n) := by
  cases ht with
  | declared hfind' => rw [hfind] at hfind'; cases hfind'
  | builtin _ hb' => rw [hb] at hb'; cases hb'
  | unknown _ _ hdata => exact hdata

section Declared

variable {id : DeclarationId} {d : Declaration} {body : TypeExpr} {xs : List TypeId}

/-! What a declaration denotes is decided by its kind, and for an alias by its text.  The fourth
rule leaves an alias unresolved, and the hypothesis on the data excludes it. -/

theorem exists_reference (ht : u.Denotes s (.declared id xs) t) (hd : u.declaration? id = some d)
    (hkind : DeclarationBody.kind d.body ≠ .typeAlias)
    (hresolved : s.data t ≠ .form (.unresolved d.name)) :
    ∃ args, s.Completes id d.typeParams.length xs args ∧
      s.data t = .form (.reference ⟨.declared id, args⟩) := by
  have halias : ∀ {body}, d.body ≠ .typeAlias body := by
    intro body hbody
    rw [hbody] at hkind
    exact hkind rfl
  cases ht with
  | reference hd' _ hargs hdata => cases hd.symm.trans hd'; exact ⟨_, hargs, hdata⟩
  | named hd' hbody => cases hd.symm.trans hd'; exact absurd hbody halias
  | transparent hd' hbody => cases hd.symm.trans hd'; exact absurd hbody halias
  | circular hd' hdata => cases hd.symm.trans hd'; exact absurd hdata hresolved

theorem data_of_reference {es : List TypeExpr} (h : u.Denotes s (.expr scope (.generic n es)) t)
    (hbound : scope.bound? n es = none) (hword : wordForm? n = none)
    (hfind : u.find? n scope.unit = some id) (hd : u.declaration? id = some d)
    (hkind : DeclarationBody.kind d.body ≠ .typeAlias) :
    s.data t = .form (.unresolved d.name) ∨
      ∃ args, s.data t = .form (.reference ⟨.declared id, args⟩) := by
  obtain ⟨xs, -, happlied⟩ := h.exists_applied hbound hword
  by_cases hopen : s.data t = .form (.unresolved d.name)
  · exact .inl hopen
  · obtain ⟨args, -, hdata⟩ := (happlied.declared_of_find? hfind).exists_reference hd hkind hopen
    exact .inr ⟨args, hdata⟩

theorem exists_alias (ht : u.Denotes s (.declared id xs) t) (hd : u.declaration? id = some d)
    (hbody : d.body = .typeAlias body) (hresolved : s.data t ≠ .form (.unresolved d.name)) :
    ∃ args, s.Completes id d.typeParams.length xs args ∧
      (body.isStructure = true ∧ (⟨.declared id, args⟩, t) ∈ s.instances ∨
        body.isStructure = false ∧ u.Denotes s (.expr (d.scope id args) body) t) := by
  cases ht with
  | reference hd' hkind =>
    cases hd.symm.trans hd'
    rw [hbody] at hkind
    exact absurd rfl hkind
  | named hd' hbody' hnamed hargs hinst =>
    cases hd.symm.trans hd'
    cases hbody.symm.trans hbody'
    exact ⟨_, hargs, .inl ⟨hnamed, hinst⟩⟩
  | transparent hd' hbody' hnamed hargs h =>
    cases hd.symm.trans hd'
    cases hbody.symm.trans hbody'
    exact ⟨_, hargs, .inr ⟨hnamed, h⟩⟩
  | circular hd' hdata => cases hd.symm.trans hd'; exact absurd hdata hresolved

theorem exists_named (ht : u.Denotes s (.declared id xs) t) (hd : u.declaration? id = some d)
    (hbody : d.body = .typeAlias body) (hnamed : body.isStructure = true)
    (hresolved : s.data t ≠ .form (.unresolved d.name)) :
    ∃ args, s.Completes id d.typeParams.length xs args ∧
      (⟨.declared id, args⟩, t) ∈ s.instances := by
  obtain ⟨args, hargs, ⟨-, hinst⟩ | ⟨hopen, -⟩⟩ := ht.exists_alias hd hbody hresolved
  · exact ⟨args, hargs, hinst⟩
  · rw [hnamed] at hopen
    cases hopen

theorem exists_transparent (ht : u.Denotes s (.declared id xs) t) (hd : u.declaration? id = some d)
    (hbody : d.body = .typeAlias body) (hopen : body.isStructure = false)
    (hresolved : s.data t ≠ .form (.unresolved d.name)) :
    ∃ args, s.Completes id d.typeParams.length xs args ∧
      u.Denotes s (.expr (d.scope id args) body) t := by
  obtain ⟨args, hargs, ⟨hnamed, -⟩ | ⟨-, h⟩⟩ := ht.exists_alias hd hbody hresolved
  · rw [hnamed] at hopen
    cases hopen
  · exact ⟨args, hargs, h⟩

end Declared

end Denotes

/-! ## What the table says of an alias

An alias with a handle of its own is a knot: its text may mention the alias itself.  The rule
for it stops at the handle, and that the handle is rightly filled in is the invariant
`Meaningful` of the table.  Each operation on the table is checked against it once; the
handle is noted while it is reserved, and gets its meaning when it is defined. -/

/-- The instance is one of an alias of this text. -/
def IsBody (u : Universe) (inst : Instance) (body : TypeExpr) (scope : Scope) : Prop :=
  ∃ id d, inst.symbol = .declared id ∧ u.declaration? id = some d ∧ d.body = .typeAlias body ∧
    scope = d.scope id inst.args

theorem IsBody.unique {inst : Instance} {body body' : TypeExpr} {scope scope' : Scope}
    (h : u.IsBody inst body scope) (h' : u.IsBody inst body' scope') :
    body' = body ∧ scope' = scope := by
  obtain ⟨id, d, hid, hd, hbody, rfl⟩ := h
  obtain ⟨id', d', hid', hd', hbody', rfl⟩ := h'
  rw [hid] at hid'
  cases hid'
  rw [hd] at hd'
  cases hd'
  rw [hbody] at hbody'
  cases hbody'
  exact ⟨rfl, rfl⟩

/-- The instance is one of an alias with a handle of its own. -/
def IsNominal (u : Universe) (inst : Instance) : Prop :=
  ∃ body scope, u.IsBody inst body scope ∧ body.isStructure = true

/-- The expressions denote these types one by one. -/
abbrev DenoteAll (u : Universe) (s : Interner) (scope : Scope) (es : List TypeExpr)
    (ts : List TypeId) : Prop :=
  List.Forall₂ (fun e t => u.Denotes s (.expr scope e) t) es ts

/-- The type of an alias with a handle of its own is what the text of the alias says. -/
def Meant (u : Universe) (s : Interner) : TypeData → Prop
  | .namedUnion inst ts => ∃ scope es, u.IsBody inst (.union es) scope ∧ u.DenoteAll s scope es ts
  | .object (some inst) (.literal members indexes scope) =>
    u.IsBody inst (.object members indexes) scope
  | .object (some inst) (.intersection ts) =>
    ∃ scope es, u.IsBody inst (.intersection es) scope ∧ u.DenoteAll s scope es ts
  | _ => True

/-- The handle is rightly noted for the instance. -/
structure Noted (u : Universe) (s : Interner) (inst : Instance) (t : TypeId) : Prop where
  record : ∀ key value, inst = ⟨.builtin .record, [key, value]⟩ →
    s.data t = .object (some inst) (.record key value)
  named : u.IsNominal inst → s.data t = .reserved ∨ (s.data t).named? = some inst
  transparent : ∀ body scope, u.IsBody inst body scope → body.isStructure = false →
    u.Denotes s (.expr scope body) t

theorem DenoteAll.extends {scope : Scope} {es : List TypeExpr} {ts : List TypeId}
    (hts : u.DenoteAll s scope es ts) (h : s.Extends s') : u.DenoteAll s' scope es ts :=
  hts.imp fun _ _ ht => ht.extends h

theorem Meant.extends {d : TypeData} (hd : u.Meant s d) (h : s.Extends s') : u.Meant s' d := by
  cases d with
  | namedUnion inst ts =>
    obtain ⟨scope, es, hbody, hts⟩ := hd
    exact ⟨scope, es, hbody, DenoteAll.extends hts h⟩
  | object origin shape =>
    cases origin with
    | none => trivial
    | some inst =>
      cases shape with
      | literal members indexes scope => exact hd
      | intersection ts =>
        obtain ⟨scope, es, hbody, hts⟩ := hd
        exact ⟨scope, es, hbody, DenoteAll.extends hts h⟩
      | record key value => trivial
  | form f => trivial
  | reserved => trivial

theorem Noted.extends {inst : Instance} {t : TypeId} (ht : u.Noted s inst t) (h : s.Extends s')
    (hopen : u.IsNominal inst → s.data t = .reserved →
      s'.data t = .reserved ∨ (s'.data t).named? = some inst) : u.Noted s' inst t where
  record := fun key value hinst => h.data_eq (ht.record key value hinst) fun he => by cases he
  named := by
    intro hnamed
    rcases ht.named hnamed with hdata | hdata
    · exact hopen hnamed hdata
    · refine .inr ?_
      rw [h.data t fun hreserved => ?_]
      · exact hdata
      · rw [hreserved] at hdata
        cases hdata
  transparent := fun body scope hbody hnamed => (ht.transparent body scope hbody hnamed).extends h

theorem Noted.of_reserved {inst : Instance} {t : TypeId} (hnamed : u.IsNominal inst)
    (hopen : s.data t = .reserved) : u.Noted s inst t := by
  obtain ⟨body, scope, hbody, hstructure⟩ := hnamed
  refine ⟨?_, fun _ => .inl hopen, fun body' scope' hbody' htransparent => ?_⟩
  · rintro key value rfl
    obtain ⟨_, _, hid, -⟩ := hbody
    cases hid
  · rw [(hbody.unique hbody').1, hstructure] at htransparent
    cases htransparent

/-- The handle is noted for the alias with a handle of its own that its type is named by. -/
def Recorded (u : Universe) (s : Interner) (t : TypeId) (d : TypeData) : Prop :=
  ∀ inst, d.named? = some inst → u.IsNominal inst → (inst, t) ∈ s.instances

/-- Every alias with a handle of its own means what its text says and has one handle only, and
whatever is noted for an instance is rightly noted. -/
structure Meaningful (u : Universe) (s : Interner) : Prop where
  data : ∀ t, u.Meant s (s.data t)
  recorded : ∀ t, u.Recorded s t (s.data t)
  noted : ∀ inst t, (inst, t) ∈ s.instances → u.Noted s inst t
  has : ∀ inst t, (inst, t) ∈ s.instances → u.IsNominal inst → s.Has t
  unique : ∀ inst inst' t, (inst, t) ∈ s.instances → (inst', t) ∈ s.instances →
    u.IsNominal inst → u.IsNominal inst' → inst' = inst
  functional : ∀ inst t t', (inst, t) ∈ s.instances → (inst, t') ∈ s.instances →
    u.IsNominal inst → t' = t

namespace Meaningful

theorem empty (u : Universe) : u.Meaningful .empty where
  data := fun _ => trivial
  recorded := fun _ _ h => by cases h
  noted := fun _ _ h => by cases h
  has := fun _ _ h => by cases h
  unique := fun _ _ _ h => by cases h
  functional := fun _ _ _ h => by cases h

/-- A table stays meaningful if it keeps its handles and its notes. -/
theorem of_data (h : u.Meaningful s) (he : s.Extends s') (hinst : s'.instances = s.instances)
    (hhas : ∀ t, s.Has t → s'.Has t)
    (hdata : ∀ t, s'.data t = s.data t ∨ (u.Meant s' (s'.data t) ∧ u.Recorded s t (s'.data t)))
    (hopen : ∀ inst t, (inst, t) ∈ s.instances → u.IsNominal inst → s.data t = .reserved →
      s'.data t = .reserved ∨ (s'.data t).named? = some inst) : u.Meaningful s' where
  data := by
    intro t
    rcases hdata t with heq | ⟨hmeant, -⟩
    · rw [heq]
      exact (h.data t).extends he
    · exact hmeant
  recorded := by
    intro t
    unfold Recorded
    rw [hinst]
    rcases hdata t with heq | ⟨-, hrecorded⟩
    · rw [heq]
      exact h.recorded t
    · exact hrecorded
  noted := by
    intro inst t hmem
    rw [hinst] at hmem
    exact (h.noted inst t hmem).extends he (hopen inst t hmem)
  has := by
    intro inst t hmem hnamed
    rw [hinst] at hmem
    exact hhas t (h.has inst t hmem hnamed)
  unique := by
    rw [hinst]
    exact h.unique
  functional := by
    rw [hinst]
    exact h.functional

theorem push (h : u.Meaningful s) {d : TypeData} (hd : u.Meant s d)
    (hnew : ∀ inst, d.named? = some inst → ¬ u.IsNominal inst) : u.Meaningful (s.push d).2 := by
  have hgrows := Interner.Grows.push s d
  have hext : s.Extends (s.push d).2 := .of_grows hgrows (List.Subset.refl _)
  refine h.of_data hext rfl (fun _ => hgrows.has) (fun t => ?_) fun inst t hmem hnamed hopen => ?_
  · rw [Interner.data_push]
    split
    · exact .inr ⟨hd.extends hext, fun inst hinst hnamed => absurd hnamed (hnew inst hinst)⟩
    · exact .inl rfl
  · rw [hgrows.data t (h.has inst t hmem hnamed)]
    exact .inl hopen

/-- The one alias that a reserved handle is noted for gives it its meaning. -/
theorem define (h : u.Meaningful s) {t : TypeId} (hopen : s.data t = .reserved) {inst : Instance}
    (hmem : (inst, t) ∈ s.instances) (hnamed : u.IsNominal inst) {d : TypeData} (hd : u.Meant s d)
    (hname : d.named? = some inst) : s.Extends (s.define t d) ∧ u.Meaningful (s.define t d) := by
  have ht := h.has inst t hmem hnamed
  have hext : s.Extends (s.define t d) := by
    refine ⟨fun x hx => ?_, List.Subset.refl _⟩
    rw [Interner.data_define ht, if_neg]
    rintro rfl
    exact hx hopen
  refine ⟨hext, h.of_data hext rfl (fun _ => (Interner.has_modifySlot s t _).2) (fun x => ?_)
    fun inst' x hmem' hnamed' hopen' => ?_⟩
  · rw [Interner.data_define ht]
    split
    · rename_i heq
      subst heq
      refine .inr ⟨hd.extends hext, fun inst' hinst _ => ?_⟩
      rw [hname] at hinst
      cases hinst
      exact hmem
    · exact .inl rfl
  · rw [Interner.data_define ht]
    split
    · rename_i heq
      subst heq
      rw [h.unique inst inst' t hmem hmem' hnamed hnamed']
      exact .inr hname
    · exact .inl hopen'

/-! The notes of a table are partly for aliases with a handle of their own, and only those have
to be unique; a transparent alias may be noted for the type of another one. -/

theorem record (h : u.Meaningful s) {inst : Instance} {t : TypeId} (ht : u.Noted s inst t)
    (hnot : ¬ u.IsNominal inst) : u.Meaningful (s.record inst t) := by
  have hext : s.Extends (s.record inst t) := ⟨fun _ _ => rfl, List.subset_cons_self _ _⟩
  have hold : ∀ inst' t', (inst', t') ∈ (s.record inst t).instances → u.IsNominal inst' →
      (inst', t') ∈ s.instances := by
    intro inst' t' hmem hnamed
    rcases List.mem_cons.1 hmem with heq | hmem
    · cases heq
      exact absurd hnamed hnot
    · exact hmem
  exact {
    data := fun t => (h.data t).extends hext
    recorded := fun t inst hinst hnamed => List.mem_cons_of_mem _ (h.recorded t inst hinst hnamed)
    noted := by
      intro inst' t' hmem
      rcases List.mem_cons.1 hmem with heq | hmem
      · cases heq
        exact ht.extends hext fun _ hopen => .inl hopen
      · exact (h.noted inst' t' hmem).extends hext fun _ hopen => .inl hopen
    has := fun inst' t' hmem hnamed => h.has inst' t' (hold _ _ hmem hnamed) hnamed
    unique := fun inst' inst'' t' hmem hmem' hnamed hnamed' =>
      h.unique inst' inst'' t' (hold _ _ hmem hnamed) (hold _ _ hmem' hnamed') hnamed hnamed'
    functional := fun inst' t' t'' hmem hmem' hnamed =>
      h.functional inst' t' t'' (hold _ _ hmem hnamed) (hold _ _ hmem' hnamed) hnamed }

theorem reserve (h : u.Meaningful s) {inst : Instance} (hnamed : u.IsNominal inst)
    (hnone : ∀ t, (inst, t) ∉ s.instances) :
    u.Meaningful ((s.push .reserved).2.record inst (s.push .reserved).1) := by
  have hpush := h.push (d := .reserved) trivial fun _ hinst => by cases hinst
  have hfresh : ∀ inst', (inst', (s.push .reserved).1) ∈ (s.push .reserved).2.instances →
      u.IsNominal inst' → False := fun inst' hmem hnamed' =>
    Nat.lt_irrefl _ (h.has inst' _ hmem hnamed')
  have hext : (s.push .reserved).2.Extends
      ((s.push .reserved).2.record inst (s.push .reserved).1) :=
    ⟨fun _ _ => rfl, List.subset_cons_self _ _⟩
  have hopen : (s.push .reserved).2.data (s.push .reserved).1 = .reserved :=
    Interner.data_push_new s .reserved
  exact {
    data := fun t => (hpush.data t).extends hext
    recorded := fun t inst hinst hnamed =>
      List.mem_cons_of_mem _ (hpush.recorded t inst hinst hnamed)
    noted := by
      intro inst' t' hmem
      rcases List.mem_cons.1 hmem with heq | hmem
      · cases heq
        exact .of_reserved hnamed hopen
      · exact (hpush.noted inst' t' hmem).extends hext fun _ hopen => .inl hopen
    has := by
      intro inst' t' hmem hnamed'
      rcases List.mem_cons.1 hmem with heq | hmem
      · cases heq
        exact Interner.has_push_new s .reserved
      · exact hpush.has inst' t' hmem hnamed'
    -- the new handle was not noted for anything, so a second note is an old one
    unique := by
      intro inst' inst'' t' hmem hmem' hnamed' hnamed''
      rcases List.mem_cons.1 hmem with heq | hmem
      · cases heq
        rcases List.mem_cons.1 hmem' with heq | hmem'
        · cases heq
          rfl
        · exact absurd hnamed'' (hfresh inst'' hmem')
      · rcases List.mem_cons.1 hmem' with heq | hmem'
        · cases heq
          exact absurd hnamed' (hfresh inst' hmem)
        · exact hpush.unique inst' inst'' t' hmem hmem' hnamed' hnamed''
    functional := by
      intro inst' t' t'' hmem hmem' hnamed'
      rcases List.mem_cons.1 hmem with heq | hmem
      · cases heq
        rcases List.mem_cons.1 hmem' with heq | hmem'
        · cases heq
          rfl
        · exact absurd hmem' (hnone t'')
      · rcases List.mem_cons.1 hmem' with heq | hmem'
        · cases heq
          exact absurd hmem (hnone t')
        · exact hpush.functional inst' t' t'' hmem hmem' hnamed' }

end Meaningful

end Universe
end TypedJson
