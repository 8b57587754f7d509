import Mathlib.Logic.Relation
import TypedJson.Proofs.Resolution
/-!
# Which names a declaration looks up

A name in a declaration is a type parameter, a reserved word, or it is looked up.  The names
in an alias are looked up when the alias is expanded, except for those in an inline object,
whose members wait until they are asked for (`TypeExpr.LooksUp`).  By the names that are
looked up at once one alias leads to the next (`Universe.Mentions`).

What cannot be found is unknown (`Universe.Unknown`), and an alias without a handle of its own
that leads back to itself is circular (`Universe.Circular`).

These definitions are about the declarations alone: what is written in them, not what has
been resolved.  They give the two reasons for which a type can be left unresolved, and the
next modules show that there is no other.
-/
namespace TypedJson

/-- The name means the same wherever it stands, unless it is a type parameter. -/
def IsReserved (name : String) : Prop :=
  Intrinsic.ofName? name ≠ none ∨ name = "true" ∨ name = "false"

/-- The expression has the name in a place where it is looked up: at once, or also later if
the members of inline objects are asked for. -/
inductive TypeExpr.LooksUp (later : Bool) (params : List String) : TypeExpr → String → Prop
  | name {n : String} (h : n ∉ params) : LooksUp later params (.name n) n
  | generic {n : String} {args : List TypeExpr} (h : args = [] → n ∉ params) :
    LooksUp later params (.generic n args) n
  | argument {m n : String} {args : List TypeExpr} {e : TypeExpr} (hm : ¬ IsReserved m)
    (he : e ∈ args) (h : LooksUp later params e n) : LooksUp later params (.generic m args) n
  | element {n : String} {e : TypeExpr} (h : LooksUp later params e n) :
    LooksUp later params (.array e) n
  | branch {n : String} {branches : List TypeExpr} {e : TypeExpr} (he : e ∈ branches)
    (h : LooksUp later params e n) : LooksUp later params (.union branches) n
  | part {n : String} {parts : List TypeExpr} {e : TypeExpr} (he : e ∈ parts)
    (h : LooksUp later params e n) : LooksUp later params (.intersection parts) n
  | member {n : String} {members : List Member} {indexes : List Index} {m : Member}
    {e : TypeExpr} (hlater : later = true) (hm : m ∈ members) (hmethod : m.method = false)
    (htype : m.type = some e) (h : LooksUp later params e n) :
    LooksUp later params (.object members indexes) n
  | key {n : String} {members : List Member} {indexes : List Index} {x : Index}
    (hlater : later = true) (hx : x ∈ indexes) (h : LooksUp later params x.key n) :
    LooksUp later params (.object members indexes) n
  | value {n : String} {members : List Member} {indexes : List Index} {x : Index}
    (hlater : later = true) (hx : x ∈ indexes) (h : LooksUp later params x.value n) :
    LooksUp later params (.object members indexes) n

/-- The expression makes a type with a handle of its own. -/
def TypeExpr.isStructure : TypeExpr → Bool
  | .union _ | .object _ _ | .intersection _ => true
  | _ => false

namespace Declaration

/-- The expressions that the declaration is made of. -/
def texts (d : Declaration) : List TypeExpr :=
  match d.body with
  | .interface bases members indexes => .object members indexes :: bases
  | .typeAlias body => [body]
  | .enum _ => []

/-- The name is looked up for the declaration, at once or later. -/
def LooksUp (d : Declaration) (n : String) : Prop :=
  ∃ e ∈ d.texts, e.LooksUp true d.typeParams n

/-- The declaration is an alias of something that has no handle of its own. -/
def IsTransparent (d : Declaration) : Prop :=
  ∃ body, d.body = .typeAlias body ∧ body.isStructure = false

instance (d : Declaration) : Decidable d.IsTransparent :=
  match h : d.body with
  | .typeAlias body =>
    decidable_of_iff (body.isStructure = false)
      ⟨fun hopen => ⟨body, h, hopen⟩, fun ⟨_, hbody, hopen⟩ => by
        rw [h] at hbody
        cases hbody
        exact hopen⟩
  | .interface _ _ _ => isFalse fun ⟨_, hbody, _⟩ => by rw [h] at hbody; cases hbody
  | .enum _ => isFalse fun ⟨_, hbody, _⟩ => by rw [h] at hbody; cases hbody

end Declaration

namespace Universe

/-- To expand the alias, a name is looked up that means the second declaration. -/
def Mentions (u : Universe) (id id' : DeclarationId) : Prop :=
  ∃ d body n, u.declaration? id = some d ∧ d.body = .typeAlias body ∧
    body.LooksUp false d.typeParams n ∧ ¬ IsReserved n ∧ u.find? n id.unit = some id'

/-- Some declaration looks the name up, and it stands for nothing: it is no type parameter
there, no reserved word, and no name of a declaration or of a builtin. -/
structure Unknown (u : Universe) (n : String) : Prop where
  lookedUp : ∃ id d, u.declaration? id = some d ∧ d.LooksUp n
  notReserved : ¬ IsReserved n
  notDeclared : ∀ id d, u.declaration? id = some d → d.name ≠ n
  notBuiltin : Builtin.ofName? n = none

/-- The name is that of a transparent alias which leads back to itself. -/
def Circular (u : Universe) (n : String) : Prop :=
  ∃ id d, u.declaration? id = some d ∧ d.name = n ∧ d.IsTransparent ∧
    Relation.TransGen u.Mentions id id

variable {u : Universe}

theorem not_circular (h : ∀ d ∈ u.declarations, ¬ d.2.IsTransparent) (n : String) :
    ¬ u.Circular n := by
  rintro ⟨id, d, hd, -, htransparent, -⟩
  exact h (id, d) (mem_declarations_iff.2 hd) htransparent

theorem not_declared_of_find? {n : String} {unit : Nat} (h : u.find? n unit = none) :
    ∀ id d, u.declaration? id = some d → d.name ≠ n := by
  rintro id d hd rfl
  unfold find? at h
  rw [Option.orElse_eq_orElse, Option.orElse_eq_or, Option.or_eq_none_iff, List.head?_eq_none_iff,
    List.map_eq_nil_iff, List.filter_eq_nil_iff] at h
  exact h.2 (id, d) (mem_declarations_iff.2 hd) (by simp)

/-! ## What a text of a declaration may look up

While aliases are expanded the ones under way form a chain, each mentioning the next.
`LeadTo` keeps no more of the chain than that each of its aliases leads to the present one,
as that is what makes an alias circular that is met again. -/

/-- The expression is part of a declaration, and the type parameters of that are in force. -/
def Within (u : Universe) (scope : Scope) (e : TypeExpr) : Prop :=
  ∃ id d, u.declaration? id = some d ∧ scope.unit = id.unit ∧
    scope.params.map (·.1) = d.typeParams ∧ ∀ n, e.LooksUp true d.typeParams n → d.LooksUp n

theorem Within.part {scope : Scope} {e e' : TypeExpr} (h : u.Within scope e)
    (hpart : ∀ params n, e'.LooksUp true params n → e.LooksUp true params n) :
    u.Within scope e' := by
  obtain ⟨id, d, hd, hunit, hparams, hup⟩ := h
  exact ⟨id, d, hd, hunit, hparams, fun n hn => hup n (hpart _ n hn)⟩

theorem within_text {id : DeclarationId} {d : Declaration} (hd : u.declaration? id = some d)
    {args : List TypeId} (hargs : args.length = d.typeParams.length) {e : TypeExpr}
    (he : e ∈ d.texts) : u.Within ⟨id.unit, d.typeParams.zip args⟩ e :=
  ⟨id, d, hd, rfl, List.map_fst_zip (Nat.le_of_eq hargs.symm), fun _ hn => ⟨e, he, hn⟩⟩

/-- The aliases under way all lead to the declaration. -/
def LeadTo (u : Universe) (expanding : List Instance) (id : DeclarationId) : Prop :=
  ∀ inst ∈ expanding, ∃ c, inst.symbol = .declared c ∧ Relation.TransGen u.Mentions c id

theorem leadTo_nil (u : Universe) (id : DeclarationId) : u.LeadTo [] id := fun _ h => by cases h

/-- If the aliases under way lead to an alias, then together with it they lead to what it
mentions. -/
theorem LeadTo.cons {expanding : List Instance} {id id' : DeclarationId}
    (h : u.LeadTo expanding id) (hmention : u.Mentions id id') (args : List TypeId) :
    u.LeadTo (⟨.declared id, args⟩ :: expanding) id' := by
  intro inst hinst
  rcases List.mem_cons.1 hinst with rfl | hinst
  · exact ⟨id, rfl, .single hmention⟩
  · obtain ⟨c, hc, hpath⟩ := h inst hinst
    exact ⟨c, hc, hpath.tail hmention⟩

theorem LeadTo.step {expanding : List Instance} {id id' : DeclarationId}
    (h : u.LeadTo expanding id) (hmention : u.Mentions id id') : u.LeadTo expanding id' :=
  fun inst hinst => h.cons hmention [] inst (List.mem_cons_of_mem _ hinst)

/-- The aliases under way lead to every declaration that the expression looks up at once. -/
def Guarded (u : Universe) (expanding : List Instance) (scope : Scope) (e : TypeExpr) : Prop :=
  ∀ n id, e.LooksUp false (scope.params.map (·.1)) n → ¬ IsReserved n →
    u.find? n scope.unit = some id → u.LeadTo expanding id

theorem Guarded.part {expanding : List Instance} {scope : Scope} {e e' : TypeExpr}
    (h : u.Guarded expanding scope e)
    (hpart : ∀ params n, e'.LooksUp false params n → e.LooksUp false params n) :
    u.Guarded expanding scope e' :=
  fun n id hn => h n id (hpart _ n hn)

theorem guarded_nil (u : Universe) (scope : Scope) (e : TypeExpr) : u.Guarded [] scope e :=
  fun _ id _ _ _ => leadTo_nil u id

theorem guarded_body {id : DeclarationId} {d : Declaration} {body : TypeExpr}
    (hd : u.declaration? id = some d) (hbody : d.body = .typeAlias body) {args : List TypeId}
    (hargs : args.length = d.typeParams.length) {expanding : List Instance}
    (h : ∀ id', u.Mentions id id' → u.LeadTo expanding id') :
    u.Guarded expanding ⟨id.unit, d.typeParams.zip args⟩ body := by
  intro n id' hn hreserved hfind
  have hn : body.LooksUp false ((d.typeParams.zip args).map (·.1)) n := hn
  rw [List.map_fst_zip (Nat.le_of_eq hargs.symm)] at hn
  exact h id' ⟨d, body, n, hd, hbody, hn, hreserved, hfind⟩

end Universe
end TypedJson
