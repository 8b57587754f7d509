import TypedJson.Proofs.Listing
/-!
# Names of types that hold in every table

Handles are handed out in the order in which types are met, so they mean something in one table
only.  A `TypeName` says what a type is without them: a type that is determined by its parts is
named by these, an alias by its declaration and arguments, and an inline object by the site
where it is written (`Site`).  What an expression is called depends on where it stands and on
what its type parameters are called, and on nothing else (`Universe.Names`, `Names.unique`).

The name of an inline object must not depend on when it was resolved.  What distinguishes two
objects of the same text is the place of the text: in the list of which type it stands, or
in the expansion of which alias, and along which path.  Types are expanded at one place only
once, so a site is enough.
-/
namespace TypedJson

/-- What a type is called. -/
inductive TypeName
  | intrinsic (i : Intrinsic)
  | literal (value : Literal)
  | unresolved (name : String)
  | param (symbol : Symbol)
  | array (element : TypeName)
  | reference (symbol : Symbol) (args : List TypeName)
  | union (branches : List TypeName)
  /-- An alias with a handle of its own, or a record. -/
  | named (symbol : Symbol) (args : List TypeName)
  /-- An inline object, with its site and what it is resolved from. -/
  | object (listing : Option Listing) (owner : TypeName) (path : List Nat)
      (members : List Member) (indexes : List Index) (unit : Nat) (params : List (String × TypeName))
  /-- An inline intersection, with its site. -/
  | intersection (listing : Option Listing) (owner : TypeName) (path : List Nat)
      (parts : List TypeName)

/-- Where an expression is resolved: for which list of which type, or for the expansion of which
alias, and how deep in the text of that. -/
structure Site where
  listing : Option Listing
  owner : TypeName
  path : List Nat

namespace Site

def child (p : Site) (i : Nat) : Site := { p with path := p.path ++ [i] }

/-- The first site is the second one or a part of it. -/
structure Within (q p : Site) : Prop where
  listing : q.listing = p.listing
  owner : q.owner = p.owner
  path : p.path <+: q.path

theorem Within.refl (p : Site) : p.Within p := ⟨rfl, rfl, List.prefix_rfl⟩

theorem Within.of_child {q p : Site} {i : Nat} (h : q.Within (p.child i)) : q.Within p :=
  ⟨h.listing, h.owner, (List.prefix_append p.path [i]).trans h.path⟩

theorem Within.child_unique {q p : Site} {i j : Nat} (hi : q.Within (p.child i))
    (hj : q.Within (p.child j)) : i = j := by
  have heq := (List.prefix_of_prefix_length_le hi.path hj.path (by simp [child])).eq_of_length
    (by simp [child])
  simpa [child] using heq

theorem not_within_child (p : Site) (i : Nat) : ¬ p.Within (p.child i) := fun h =>
  absurd h.path.length_le (by simp [child])

end Site

namespace TypeName

/-- Where an inline object or intersection is written. -/
def site? : TypeName → Option Site
  | .object listing owner path _ _ _ _ => some ⟨listing, owner, path⟩
  | .intersection listing owner path _ => some ⟨listing, owner, path⟩
  | _ => none

end TypeName

/-- The names of the type parameters in force. -/
structure NameScope where
  unit : Nat
  params : List (String × TypeName)

def NameScope.bound? (scope : NameScope) (name : String) (args : List TypeExpr) :
    Option (String × TypeName) :=
  if args.isEmpty then scope.params.find? (·.1 == name) else none

def Declaration.nameScope (d : Declaration) (id : DeclarationId) (args : List TypeName) :
    NameScope := ⟨id.unit, d.typeParams.zip args⟩

/-- What a reserved word is called. -/
def wordName? (name : String) : Option TypeName :=
  match Intrinsic.ofName? name with
  | some i => some (.intrinsic i)
  | none =>
    if name = "true" then some (.literal (.bool true))
    else if name = "false" then some (.literal (.bool false))
    else none

def builtinName (b : Builtin) (args : List TypeName) : TypeName :=
  match b with
  | .array => .array (args[0]?.getD (.intrinsic .unknown))
  | .date | .pattern => .reference (.builtin b) []
  | .record =>
    .named (.builtin .record) [args[0]?.getD (.intrinsic .string), args[1]?.getD (.intrinsic .unknown)]

/-- The arguments of an instance: those given, without surplus ones, and the own parameters of
the declaration for those missing. -/
def completeNames (id : DeclarationId) (count : Nat) (given : List TypeName) : List TypeName :=
  given.take count ++ ((List.range count).drop (given.take count).length).map fun position =>
    .param (.param id position)

/-- The lists are equally long and related position by position. -/
def Pointwise {α β : Type} (R : Nat → α → β → Prop) (as : List α) (bs : List β) : Prop :=
  as.length = bs.length ∧ ∀ i a b, as[i]? = some a → bs[i]? = some b → R i a b

namespace Pointwise

variable {α β γ : Type} {R S : Nat → α → β → Prop} {as : List α} {bs : List β}

theorem nil : Pointwise R [] [] := ⟨rfl, fun _ _ _ h => by cases h⟩

theorem cons {a : α} {b : β} (h : R 0 a b) (hs : Pointwise (fun i => R (i + 1)) as bs) :
    Pointwise R (a :: as) (b :: bs) := by
  refine ⟨by simp [hs.1], fun i x y hx hy => ?_⟩
  cases i with
  | zero =>
    cases hx
    cases hy
    exact h
  | succ i => exact hs.2 i x y hx hy

theorem imp (h : Pointwise R as bs) (hRS : ∀ i a b, a ∈ as → R i a b → S i a b) :
    Pointwise S as bs :=
  ⟨h.1, fun i a b ha hb => hRS i a b (List.mem_of_getElem? ha) (h.2 i a b ha hb)⟩

/-- Two lists are equal if both are related to one list in a way that decides each element. -/
theorem unique {R' : Nat → α → β → Prop} {bs' : List β} (h : Pointwise R as bs)
    (h' : Pointwise R' as bs') (heq : ∀ i a b b', R i a b → R' i a b' → b = b') : bs = bs' := by
  refine List.ext_getElem (h.1.symm.trans h'.1) fun i hi hi' => ?_
  have ha : i < as.length := by rw [h.1]; exact hi
  exact heq i as[i] _ _ (h.2 i _ _ (List.getElem?_eq_getElem ha) (List.getElem?_eq_getElem hi))
    (h'.2 i _ _ (List.getElem?_eq_getElem ha) (List.getElem?_eq_getElem hi'))

theorem map_right {f : γ → β} {cs : List γ} (h : Pointwise (fun i a c => R i a (f c)) as cs) :
    Pointwise R as (cs.map f) := by
  refine ⟨by simp [h.1], fun i a b ha hb => ?_⟩
  rw [List.getElem?_map] at hb
  obtain ⟨c, hc, rfl⟩ := Option.map_eq_some_iff.1 hb
  exact h.2 i a c ha hc

theorem exists_left (h : Pointwise R as bs) {b : β} (hb : b ∈ bs) : ∃ i a, R i a b := by
  obtain ⟨i, hi, rfl⟩ := List.getElem_of_mem hb
  have ha : i < as.length := by rw [h.1]; exact hi
  exact ⟨i, as[i], h.2 i _ _ (List.getElem?_eq_getElem ha) (List.getElem?_eq_getElem hi)⟩

theorem exists_mid : ∀ {as : List α} {cs : List γ} {R : Nat → α → β → Prop}
    {T : Nat → β → γ → Prop}, Pointwise (fun i a c => ∃ b, R i a b ∧ T i b c) as cs →
      ∃ bs, Pointwise R as bs ∧ Pointwise T bs cs
  | [], [], _, _, _ => ⟨[], .nil, .nil⟩
  | [], _ :: _, _, _, h => by cases h.1
  | _ :: _, [], _, _, h => by cases h.1
  | a :: as, c :: cs, R, T, h => by
    obtain ⟨b, hR, hT⟩ := h.2 0 a c rfl rfl
    obtain ⟨bs, hRs, hTs⟩ := exists_mid (R := fun i => R (i + 1))
      (T := fun i => T (i + 1)) ⟨Nat.succ.inj h.1, fun i a c ha hc => h.2 (i + 1) a c ha hc⟩
    exact ⟨b :: bs, .cons hR hRs, .cons hT hTs⟩

end Pointwise

namespace Universe

/-- What has a name: an expression at a site, a name that is looked up from a unit, or an
instance with all its arguments. -/
inductive NamePhrase
  | expr (p : Site) (scope : NameScope) (e : TypeExpr)
  | applied (unit : Nat) (n : String) (args : List TypeName)
  | inst (symbol : Symbol) (args : List TypeName)

/-! ## What a phrase is called

One rule for each form of expression, as in the relation `Denotes`, with names in place of
handles.  The parameter `S` says which instances of aliases the name may mention; a name that
was given stays right when it is enlarged, and uniqueness does not depend on it. -/

/-- What a phrase is called.  The aliases with a handle of their own that come up in it are among
those of `S`. -/
inductive Names (u : Universe) (S : DeclarationId → List TypeName → Prop) :
    NamePhrase → TypeName → Prop
  | bound {p scope n args q} (h : scope.bound? n args = some q) :
    Names u S (.expr p scope (.generic n args)) q.2
  | word {p scope n args N} (h : scope.bound? n args = none) (hw : wordName? n = some N) :
    Names u S (.expr p scope (.generic n args)) N
  | applied {p scope n args xs N} (h : scope.bound? n args = none) (hw : wordName? n = none)
    (hlen : args.length = xs.length)
    (hargs : ∀ i e x, args[i]? = some e → xs[i]? = some x →
      Names u S (.expr (p.child i) scope e) x)
    (hN : Names u S (.applied scope.unit n xs) N) : Names u S (.expr p scope (.generic n args)) N
  | name {p scope n N} (h : Names u S (.expr p scope (.generic n [])) N) :
    Names u S (.expr p scope (.name n)) N
  | array {p scope e x} (h : Names u S (.expr (p.child 0) scope e) x) :
    Names u S (.expr p scope (.array e)) (.array x)
  | union {p scope es xs} (hlen : es.length = xs.length)
    (h : ∀ i e x, es[i]? = some e → xs[i]? = some x → Names u S (.expr (p.child i) scope e) x) :
    Names u S (.expr p scope (.union es)) (.union xs)
  | intersection {p scope es xs} (hlen : es.length = xs.length)
    (h : ∀ i e x, es[i]? = some e → xs[i]? = some x → Names u S (.expr (p.child i) scope e) x) :
    Names u S (.expr p scope (.intersection es)) (.intersection p.listing p.owner p.path xs)
  | literal {p scope value} : Names u S (.expr p scope (.literal value)) (.literal value)
  | object {p scope members indexes} : Names u S (.expr p scope (.object members indexes))
      (.object p.listing p.owner p.path members indexes scope.unit scope.params)
  | declared {unit n id d xs N} (h : u.find? n unit = some id) (hd : u.declaration? id = some d)
    (hN : Names u S (.inst (.declared id) (completeNames id d.typeParams.length xs)) N) :
    Names u S (.applied unit n xs) N
  | builtin {unit n b xs} (h : u.find? n unit = none) (hb : Builtin.ofName? n = some b) :
    Names u S (.applied unit n xs) (builtinName b xs)
  | unknown {unit n xs} (h : u.find? n unit = none) (hb : Builtin.ofName? n = none) :
    Names u S (.applied unit n xs) (.unresolved n)
  | record {args} : Names u S (.inst (.builtin .record) args) (.named (.builtin .record) args)
  /-- An interface or an enum. -/
  | reference {id d args} (hd : u.declaration? id = some d)
    (hkind : DeclarationBody.kind d.body ≠ .typeAlias) :
    Names u S (.inst (.declared id) args) (.reference (.declared id) args)
  | nominal {id d body args} (hd : u.declaration? id = some d) (hbody : d.body = .typeAlias body)
    (hnamed : body.isStructure = true) (hS : S id args) :
    Names u S (.inst (.declared id) args) (.named (.declared id) args)
  | transparent {id d body args N} (hd : u.declaration? id = some d)
    (hbody : d.body = .typeAlias body) (hopen : body.isStructure = false)
    (h : Names u S (.expr ⟨none, .named (.declared id) args, []⟩ (d.nameScope id args) body) N) :
    Names u S (.inst (.declared id) args) N

/-- What the expressions are called that stand at the parts of a site. -/
def NamesAll (u : Universe) (S : DeclarationId → List TypeName → Prop) (p : Site)
    (scope : NameScope) : List TypeExpr → List TypeName → Prop :=
  Pointwise fun i e x => u.Names S (.expr (p.child i) scope e) x

variable {u : Universe} {S S' : DeclarationId → List TypeName → Prop}

theorem Names.mono {ph : NamePhrase} {N : TypeName} (h : u.Names S ph N)
    (hS : ∀ id args, S id args → S' id args) : u.Names S' ph N := by
  induction h with
  | bound h => exact .bound h
  | word h hw => exact .word h hw
  | applied h hw hlen _ _ ihargs ih => exact .applied h hw hlen ihargs ih
  | name _ ih => exact .name ih
  | array _ ih => exact .array ih
  | union hlen _ ih => exact .union hlen ih
  | intersection hlen _ ih => exact .intersection hlen ih
  | literal => exact .literal
  | object => exact .object
  | declared h hd _ ih => exact .declared h hd ih
  | builtin h hb => exact .builtin h hb
  | unknown h hb => exact .unknown h hb
  | record => exact .record
  | reference hd hkind => exact .reference hd hkind
  | nominal hd hbody hnamed h => exact .nominal hd hbody hnamed (hS _ _ h)
  | transparent hd hbody hopen _ ih => exact .transparent hd hbody hopen ih

theorem NamesAll.mono {p : Site} {scope : NameScope} {es : List TypeExpr} {xs : List TypeName}
    (h : u.NamesAll S p scope es xs) (hS : ∀ id args, S id args → S' id args) :
    u.NamesAll S' p scope es xs := Pointwise.imp h fun _ _ _ _ hx => hx.mono hS

theorem not_alias_of_kind {d : Declaration} (hkind : DeclarationBody.kind d.body ≠ .typeAlias)
    {body : TypeExpr} : d.body ≠ .typeAlias body := by
  intro hbody
  rw [hbody] at hkind
  exact hkind rfl

/-- **A phrase is called one thing only.** -/
theorem Names.unique {ph : NamePhrase} {N N' : TypeName} (h : u.Names S ph N)
    (h' : u.Names S' ph N') : N = N' := by
  induction h generalizing N' with
  | bound h =>
    cases h' with
    | bound h' => rw [Option.some.inj (h.symm.trans h')]
    | word h' => cases h.symm.trans h'
    | applied h' => cases h.symm.trans h'
  | word h hw =>
    cases h' with
    | bound h' => cases h.symm.trans h'
    | word _ hw' => exact Option.some.inj (hw.symm.trans hw')
    | applied _ hw' => cases hw.symm.trans hw'
  | applied h hw hlen _ _ ihargs ih =>
    cases h' with
    | bound h' => cases h.symm.trans h'
    | word _ hw' => cases hw.symm.trans hw'
    | applied _ _ hlen' hargs' hN' =>
      obtain rfl := Pointwise.unique (R := fun i e x => ∀ {N'}, u.Names S' (.expr _ _ e) N' → x = N')
        ⟨hlen, fun i e x he hx => ihargs i e x he hx⟩ ⟨hlen', hargs'⟩
        fun i e x x' hx hx' => hx hx'
      exact ih hN'
  | name _ ih => cases h' with | name h' => exact ih h'
  | array _ ih => cases h' with | array h' => rw [ih h']
  | union hlen _ ih =>
    cases h' with
    | union hlen' h' =>
      rw [Pointwise.unique (R := fun i e x => ∀ {N'}, u.Names S' (.expr _ _ e) N' → x = N')
        ⟨hlen, fun i e x he hx => ih i e x he hx⟩ ⟨hlen', h'⟩ fun i e x x' hx hx' => hx hx']
  | intersection hlen _ ih =>
    cases h' with
    | intersection hlen' h' =>
      rw [Pointwise.unique (R := fun i e x => ∀ {N'}, u.Names S' (.expr _ _ e) N' → x = N')
        ⟨hlen, fun i e x he hx => ih i e x he hx⟩ ⟨hlen', h'⟩ fun i e x x' hx hx' => hx hx']
  | literal => cases h' with | literal => rfl
  | object => cases h' with | object => rfl
  | declared h hd _ ih =>
    cases h' with
    | declared h' hd' hN' =>
      cases h.symm.trans h'
      cases hd.symm.trans hd'
      exact ih hN'
    | builtin h' => cases h.symm.trans h'
    | unknown h' => cases h.symm.trans h'
  | builtin h hb =>
    cases h' with
    | declared h' => cases h.symm.trans h'
    | builtin _ hb' => rw [Option.some.inj (hb.symm.trans hb')]
    | unknown _ hb' => cases hb.symm.trans hb'
  | unknown h hb =>
    cases h' with
    | declared h' => cases h.symm.trans h'
    | builtin _ hb' => cases hb.symm.trans hb'
    | unknown => rfl
  | record => cases h' with | record => rfl
  | reference hd hkind =>
    cases h' with
    | reference => rfl
    | nominal hd' hbody' =>
      cases hd.symm.trans hd'
      exact absurd hbody' (not_alias_of_kind hkind)
    | transparent hd' hbody' =>
      cases hd.symm.trans hd'
      exact absurd hbody' (not_alias_of_kind hkind)
  | nominal hd hbody hnamed =>
    cases h' with
    | reference hd' hkind' =>
      cases hd.symm.trans hd'
      exact absurd hbody (not_alias_of_kind hkind')
    | nominal => rfl
    | transparent hd' hbody' hopen' =>
      cases hd.symm.trans hd'
      cases hbody.symm.trans hbody'
      cases hnamed.symm.trans hopen'
  | transparent hd hbody hopen _ ih =>
    cases h' with
    | reference hd' hkind' =>
      cases hd.symm.trans hd'
      exact absurd hbody (not_alias_of_kind hkind')
    | nominal hd' hbody' hnamed' =>
      cases hd.symm.trans hd'
      cases hbody.symm.trans hbody'
      cases hnamed'.symm.trans hopen
    | transparent hd' hbody' _ h' =>
      cases hd.symm.trans hd'
      cases hbody.symm.trans hbody'
      exact ih h'

theorem NamesAll.unique {p : Site} {scope : NameScope} {es : List TypeExpr}
    {xs xs' : List TypeName} (h : u.NamesAll S p scope es xs) (h' : u.NamesAll S' p scope es xs') :
    xs = xs' := Pointwise.unique h h' fun _ _ _ _ hx hx' => hx.unique hx'

end Universe
end TypedJson
