import TypedJson.Proofs.Designation
import TypedJson.Proofs.Ending
/-!
# What has a name is resolved

If an expression has a name, and so do the texts of the aliases with a handle of their own that
come up in it, then it is resolved in every table (`phrase_returns`).  The name is a derivation
that the resolver follows; where it ends, at an alias with a handle of its own, the alias is noted
in the table already or it is one of those that are still to come, which are finitely many.

This is the converse of designation.  There the resolver had a result and the name was read
off it; here the name is given, by another table, and it is shown that the resolver has a
result.  Fuel cannot be the measure of that.  The induction is on the aliases that the table
lacks, which become fewer whenever one is begun, and between two of them on the derivation
of the name.
-/
namespace TypedJson
namespace Universe

/-- With enough fuel the computation has a result. -/
abbrev Returns {α : Type} (s : Interner) (m : Nat → Session α) : Prop := Ends (fun _ _ => True) s m

namespace Returns

variable {α β : Type} {s : Interner}

theorem of_run {m : Session α} {a : α} {s' : Interner} (h : m s = some (a, s')) :
    Returns s fun _ => m := ⟨a, s', trivial, 0, fun _ _ => h⟩

theorem bind {m : Nat → Session α} {f : Nat → α → Session β} (hm : Returns s m)
    (hf : ∀ fuel a s', m fuel s = some (a, s') → Returns s' fun fuel => f fuel a) :
    Returns s fun fuel => m fuel >>= f fuel :=
  Ends.bind (fun _ _ _ _ _ => trivial) hm fun a s' _ ⟨fuel, hrun⟩ => hf fuel a s' hrun

theorem query_bind {f : Interner → α} {g : Nat → α → Session β}
    (h : Returns s fun fuel => g fuel (f s)) : Returns s fun fuel => Session.query f >>= g fuel := h

theorem intern (f : Form) : Returns s fun _ => Session.intern f := of_run rfl

theorem pure (a : α) : Returns s fun _ => (Pure.pure a : Session α) := of_run rfl

end Returns

variable {u : Universe} {V V' : NamedTable} {K : DeclarationId → List TypeName → Prop}
  {L : List (DeclarationId × List TypeName)}

/-- The texts of the aliases have names, in which no other aliases come up. -/
def Spelled (u : Universe) (K : DeclarationId → List TypeName → Prop) : Prop :=
  ∀ id args, K id args → ∀ scope body es, u.HasBody (.named (.declared id) args) scope body →
    body = .union es ∨ body = .intersection es →
      ∃ xs, u.NamesAll K (home (.named (.declared id) args)) scope es xs

/-- The aliases are noted in the table but for those of the list. -/
def Lacks (K : DeclarationId → List TypeName → Prop) (L : List (DeclarationId × List TypeName))
    (V : NamedTable) : Prop :=
  ∀ id args, K id args → V.Recorded id args ∨ (id, args) ∈ L

theorem Lacks.later (h : Lacks K L V) (hV : u.Naming V) (h' : V.Later V') : Lacks K L V' :=
  fun id args hK => (h id args hK).imp_left (hV.keeps_recorded h' id args)

/-! ## Parts -/

/-- The expression is resolved wherever it has the scope of the name. -/
def Resolved (u : Universe) (K : DeclarationId → List TypeName → Prop)
    (L : List (DeclarationId × List TypeName)) (p : Site) (names : NameScope) (e : TypeExpr) : Prop :=
  ∀ V scope, u.Resolvable V p scope e → V.scope scope = names → Lacks K L V →
    Returns V.table fun fuel => u.resolve fuel scope e

theorem mapM_returns (hcircular : ∀ n, ¬ u.Circular n) {p : Site} {scope : Scope} :
    ∀ (es : List TypeExpr) (k : Nat) {V : NamedTable}, u.PartsResolvable V p k scope es →
      Lacks K L V →
      (∀ i e, es[i]? = some e → u.Resolved K L (p.child (k + i)) (V.scope scope) e) →
      Returns V.table fun fuel => es.mapM (u.resolve fuel scope)
  | [], _, _, _, _, _ => by
    simp only [List.mapM_nil]
    exact .pure []
  | e :: es, k, V, h, hlacks, hes => by
    simp only [List.mapM_cons]
    refine .bind (hes 0 e rfl V scope h.head rfl hlacks) fun fuel t s₁ hrun => ?_
    obtain ⟨V₁, rfl, h₁, -⟩ := resolve_designates hcircular fuel V _ scope e h.head t s₁ hrun
    refine .bind (mapM_returns hcircular es (k + 1) (h.tail h₁) (hlacks.later h.naming h₁.later)
      fun i e' he' => ?_) fun _ ts s₂ _ => .pure _
    rw [h₁.later.scope h.has, Nat.add_assoc, Nat.add_comm 1 i]
    exact hes (i + 1) e' he'

theorem Resolvable.mapM_returns (hcircular : ∀ n, ¬ u.Circular n) {p : Site} {scope : Scope}
    {e : TypeExpr} (h : u.Resolvable V p scope e) (hlacks : Lacks K L V) (es : List TypeExpr)
    (hlooks : ∀ params n, ∀ e' ∈ es, e'.LooksUp false params n → e.LooksUp false params n)
    (hes : ∀ i e', es[i]? = some e' → u.Resolved K L (p.child i) (V.scope scope) e') :
    Returns V.table fun fuel => es.mapM (u.resolve fuel scope) := by
  refine Universe.mapM_returns hcircular es 0 (h.parts hlooks) hlacks fun i e' he' => ?_
  rw [Nat.zero_add]
  exact hes i e' he'

/-! ## Builtins -/

theorem argumentOr_returns (s : Interner) (i : Intrinsic) (given : Option TypeId) :
    Returns s fun _ => argumentOr i given := by
  cases given with
  | some t => exact .pure t
  | none => exact .intern _

theorem recordType_returns (s : Interner) (key value : TypeId) :
    Returns s fun _ => recordType key value := by
  unfold recordType
  refine .query_bind ?_
  split
  · exact .pure _
  · exact .of_run rfl

theorem builtinType_returns (s : Interner) (b : Builtin) (args : List TypeId) :
    Returns s fun _ => builtinType b args := by
  cases b with
  | array => exact .bind (argumentOr_returns s _ _) fun _ x s₁ _ => .intern _
  | date | pattern => exact .intern _
  | record =>
    exact .bind (argumentOr_returns s _ _) fun _ key s₁ _ =>
      .bind (argumentOr_returns s₁ _ _) fun _ value s₂ _ => recordType_returns s₂ key value

/-! ## Aliases

An alias with a handle of its own that is noted is found.  If it is not, its handle is
reserved, and then it is lacking no more, so the outer induction applies to its text. -/

section Alias

variable {id : DeclarationId} {d : Declaration} {body : TypeExpr} {args : List TypeId}

theorem Expandable.not_recorded (h : u.Expandable V id d body args)
    (hnone : V.table.instance? ⟨.declared id, args⟩ = none) : ¬ V.Recorded id (V.names args) := by
  rintro ⟨xs, t, hmem, hxs⟩
  obtain rfl : xs = args :=
    h.naming.eq_of_names_eq (h.naming.begun _ (.inl ⟨t, hmem⟩)) h.has hxs
  exact Interner.not_mem_of_instance? hnone t hmem

open Classical in
theorem Expandable.lacks_reserved (h : u.Expandable V id d body args)
    (hnone : V.table.instance? ⟨.declared id, args⟩ = none) (hK : K id (V.names args))
    (hlacks : Lacks K L V) : ∃ L', L'.length < L.length ∧
      Lacks K L' (V.pushNamed .reserved ⟨.declared id, args⟩) := by
  have hmem := (hlacks id _ hK).resolve_left (h.not_recorded hnone)
  refine ⟨L.filter fun entry => decide (entry ≠ (id, V.names args)),
    List.length_filter_lt_length_iff_exists.2 ⟨_, hmem, by simp⟩, fun id' args' hK' => ?_⟩
  have hlater := V.later_pushNamed .reserved ⟨.declared id, args⟩
  by_cases heq : (id', args') = (id, V.names args)
  · cases heq
    exact .inl ⟨args, V.fresh, List.mem_cons_self, hlater.names h.has⟩
  · exact (hlacks id' args' hK').imp (h.naming.keeps_recorded hlater id' args') fun hmem =>
      List.mem_filter.2 ⟨hmem, decide_eq_true heq⟩

theorem expandNamed_returns (hcircular : ∀ n, ¬ u.Circular n) (hK : u.Spelled K)
    (h : u.Expandable V id d body args) (hnamed : body.isStructure = true) (hmem : K id (V.names args))
    (hlacks : Lacks K L V) (hless : ∀ L', L'.length < L.length → ∀ p names e N,
      u.Names K (.expr p names e) N → u.Resolved K L' p names e) :
    Returns V.table fun fuel =>
      expandAlias (u.resolve fuel) d.name d.typeParams id.unit body ⟨.declared id, args⟩ := by
  have hparts : ∀ es : List TypeExpr, body = .union es ∨ body = .intersection es →
      V.table.instance? ⟨.declared id, args⟩ = none →
      Returns (V.pushNamed .reserved ⟨.declared id, args⟩).table fun fuel =>
        es.mapM (u.resolve fuel (d.scope id args)) := by
    intro es hes hnone
    obtain ⟨L', hlt, hlacks'⟩ := h.lacks_reserved hnone hmem hlacks
    obtain ⟨xs, hxs⟩ := hK id _ hmem _ body es (.mk h.declared h.text) hes
    refine (h.reserved_resolvable hnamed hnone).mapM_returns hcircular hlacks' es ?_ fun i e he => ?_
    · intro params n e he hn
      rcases hes with rfl | rfl
      · exact .branch he hn
      · exact .part he hn
    · rw [h.scope_eq (V.later_pushNamed _ _)]
      have hi : i < xs.length := by
        rw [← hxs.1]
        exact (List.getElem?_eq_some_iff.1 he).1
      exact hless L' hlt _ _ e _ (hxs.2 i e _ he (List.getElem?_eq_getElem hi))
  unfold expandAlias
  refine .query_bind ?_
  cases hfind : V.table.instance? ⟨.declared id, args⟩ with
  | some t => exact .pure t
  | none =>
    cases body with
    | union branches =>
      refine .bind (.of_run rfl) fun _ t s₁ hrun => ?_
      cases hrun
      exact .bind (hparts branches (.inl rfl) hfind) fun _ ts s₂ _ => .of_run rfl
    | object members indexes => exact .of_run rfl
    | intersection parts =>
      refine .bind (.of_run rfl) fun _ t s₁ hrun => ?_
      cases hrun
      exact .bind (hparts parts (.inr rfl) hfind) fun _ ts s₂ _ => .of_run rfl
    | name | generic | array | literal => cases hnamed

theorem expandOpen_returns (h : u.Expandable V id d body args) (hopen : body.isStructure = false)
    (hlacks : Lacks K L V)
    (hbody : u.Resolved K L (home (.named (.declared id) (V.names args)))
      (d.nameScope id (V.names args)) body) :
    Returns V.table fun fuel =>
      expandAlias (u.resolve fuel) d.name d.typeParams id.unit body ⟨.declared id, args⟩ := by
  have htransparent : V.table.instance? ⟨.declared id, args⟩ = none → Returns V.table fun fuel =>
      expandTransparent (u.resolve fuel) d.name ⟨.declared id, args⟩ (d.scope id args) body := by
    intro hnone
    unfold expandTransparent
    refine .query_bind ?_
    by_cases hidle : V.table.expanding.contains ⟨.declared id, args⟩ = true
    · simp only [if_pos hidle]
      exact .intern _
    · simp only [if_neg hidle]
      have hidle : ⟨.declared id, args⟩ ∉ V.table.expanding := by simpa using hidle
      have hbegins := h.begin hopen hnone hidle
      refine .bind (.of_run rfl) fun _ _ s₁ hrun => ?_
      cases hrun
      refine .bind ?_ fun _ t s₂ _ => .of_run rfl
      exact hbody (V.beginExpansion ⟨.declared id, args⟩) (d.scope id args)
        (h.begun_resolvable hopen hnone hidle) (h.scope_eq hbegins.later)
        (hlacks.later h.naming hbegins.later)
  unfold expandAlias
  refine .query_bind ?_
  cases hfind : V.table.instance? ⟨.declared id, args⟩ with
  | some t => exact .pure t
  | none =>
    cases body with
    | name | generic | array | literal => exact htransparent hfind
    | union | object | intersection => cases hopen

end Alias

/-! ## Phrases

One lemma for each rule of `Names`.  Each assumes that what the rule goes on to is resolved,
and concludes that the phrase is. -/

/-- What the phrase stands for is resolved in every table that lacks these aliases only. -/
def PhraseReturns (u : Universe) (K : DeclarationId → List TypeName → Prop)
    (L : List (DeclarationId × List TypeName)) : NamePhrase → Prop
  | .expr p names e => u.Resolved K L p names e
  | .applied unit n xs => ∀ (V : NamedTable) (args : List TypeId), u.Naming V →
    (∀ x ∈ args, V.Has x) → V.names args = xs →
    (∀ id, u.find? n unit = some id → u.LeadTo V.table.expanding id) → Lacks K L V →
    Returns V.table fun fuel => u.appliedType (u.resolve fuel) unit n args
  | .inst symbol xs => ∀ (id : DeclarationId) (d : Declaration) (V : NamedTable)
    (args : List TypeId), symbol = .declared id → u.declaration? id = some d → u.Naming V →
    (∀ x ∈ args, V.Has x) → V.names args = xs → args.length = d.typeParams.length →
    u.LeadTo V.table.expanding id → Lacks K L V →
    Returns V.table fun fuel => instanceType (u.resolve fuel) id d args

section Phrases

variable {p : Site} {names : NameScope} {e : TypeExpr}

theorem resolved_step (h : ∀ V scope, u.Resolvable V p scope e → V.scope scope = names →
    Lacks K L V → Returns V.table fun fuel => u.resolveStep (u.resolve fuel) scope e) :
    u.Resolved K L p names e := fun V scope hres hnames hlacks =>
  Ends.succ (m := fun fuel => u.resolve fuel scope e) (h V scope hres hnames hlacks)

theorem bound?_eq_none {scope : Scope} {n : String} {args : List TypeExpr}
    (h : (V.scope scope).bound? n args = none) : scope.bound? n args = none := by
  rw [bound?_nameBy] at h
  exact Option.map_eq_none_iff.1 h

theorem wordForm?_eq_none {n : String} (h : wordName? n = none) : wordForm? n = none := by
  rw [wordName?_eq n fun _ => .intrinsic .unknown] at h
  exact Option.map_eq_none_iff.1 h

/-! Expressions come first, then what they are made of.  A part of an expression stands at a part
of its site, so what is free at the site is free there too. -/

theorem resolved_bound {n : String} {args : List TypeExpr} {q : String × TypeName}
    (h : names.bound? n args = some q) : u.Resolved K L p names (.generic n args) := by
  refine resolved_step fun V scope _ hnames _ => ?_
  subst hnames
  rw [bound?_nameBy] at h
  obtain ⟨q', hq', -⟩ := Option.map_eq_some_iff.1 h
  simp only [resolveStep, resolveName_of_bound hq']
  exact .pure _

theorem resolved_word {n : String} {args : List TypeExpr} {N : TypeName}
    (h : names.bound? n args = none) (hw : wordName? n = some N) :
    u.Resolved K L p names (.generic n args) := by
  refine resolved_step fun V scope _ hnames _ => ?_
  subst hnames
  rw [wordName?_eq n V.name] at hw
  obtain ⟨f, hf, -⟩ := Option.map_eq_some_iff.1 hw
  simp only [resolveStep, resolveName_of_word (bound?_eq_none h) hf]
  exact .intern f

theorem resolved_applied (hcircular : ∀ n, ¬ u.Circular n) {n : String} {args : List TypeExpr}
    {xs : List TypeName} (h : names.bound? n args = none) (hw : wordName? n = none)
    (hxs : u.NamesAll K p names args xs)
    (hargs : ∀ i e, args[i]? = some e → u.Resolved K L (p.child i) names e)
    (hn : u.PhraseReturns K L (.applied names.unit n xs)) :
    u.Resolved K L p names (.generic n args) := by
  refine resolved_step fun V scope hres hnames hlacks => ?_
  subst hnames
  have hbound := bound?_eq_none h
  have hform := wordForm?_eq_none hw
  have hreserved := not_isReserved hform
  have hlooks : ∀ params m, ∀ e' ∈ args, e'.LooksUp false params m →
      (TypeExpr.generic n args).LooksUp false params m := fun _ _ _ he hm =>
    .argument hreserved he hm
  simp only [resolveStep, resolveName_of_lookup hbound hform]
  refine .bind (hres.mapM_returns hcircular hlacks args hlooks hargs) fun fuel ts s₁ hrun => ?_
  obtain ⟨V₁, rfl, h₁, hts, hall, -⟩ :=
    hres.mapM (resolve_designates hcircular fuel) args hlooks ts s₁ hrun
  refine hn V₁ ts h₁.naming hts (hall.unique hxs) (fun id hfind => ?_)
    (hlacks.later hres.naming h₁.later)
  rw [h₁.expanding]
  exact hres.guarded n id (.generic (not_mem_of_bound? hbound)) hreserved hfind

theorem resolved_name {n : String} (h : u.Resolved K L p names (.generic n [])) :
    u.Resolved K L p names (.name n) := by
  intro V scope hres hnames hlacks
  have hguarded : u.Guarded V.table.expanding scope (.generic n []) := by
    refine hres.guarded.part fun params m hm => ?_
    cases hm with
    | generic h => exact .name (h rfl)
    | argument _ he _ => cases he
  have heq : ∀ fuel, u.resolve fuel scope (.name n) = u.resolve fuel scope (.generic n []) := by
    intro fuel
    cases fuel with
    | zero => rfl
    | succ fuel => rfl
  simp only [heq]
  exact h V scope ⟨hres.naming, hres.has, hguarded, hres.owned, hres.free⟩ hnames hlacks

theorem resolved_array (h : u.Resolved K L (p.child 0) names e) :
    u.Resolved K L p names (.array e) := by
  refine resolved_step fun V scope hres hnames hlacks => ?_
  have hpart : u.Resolvable V (p.child 0) scope e :=
    (hres.parts (l := [e]) fun _ _ e' he' hn => by
      rw [List.mem_singleton.1 he'] at hn
      exact .element hn).head
  exact .bind (h V scope hpart hnames hlacks) fun _ x s₁ _ => .intern _

theorem resolved_union (hcircular : ∀ n, ¬ u.Circular n) {es : List TypeExpr}
    (h : ∀ i e, es[i]? = some e → u.Resolved K L (p.child i) names e) :
    u.Resolved K L p names (.union es) := by
  refine resolved_step fun V scope hres hnames hlacks => ?_
  subst hnames
  exact .bind (hres.mapM_returns hcircular hlacks es (fun _ _ _ he hn => .branch he hn) h)
    fun _ ts s₁ _ => .intern _

theorem resolved_intersection (hcircular : ∀ n, ¬ u.Circular n) {es : List TypeExpr}
    (h : ∀ i e, es[i]? = some e → u.Resolved K L (p.child i) names e) :
    u.Resolved K L p names (.intersection es) := by
  refine resolved_step fun V scope hres hnames hlacks => ?_
  subst hnames
  exact .bind (hres.mapM_returns hcircular hlacks es (fun _ _ _ he hn => .part he hn) h)
    fun _ ts s₁ _ => .of_run rfl

/-! An instance has as many arguments as its declaration has parameters; those that the
phrase leaves out are made here, and making them comes to an end. -/

theorem missing_returns (id : DeclarationId) : ∀ (positions : List Nat) (s : Interner),
    Returns s fun _ => positions.mapM fun position => Session.intern (.param (.param id position))
  | [], s => by
    simp only [List.mapM_nil]
    exact .pure []
  | position :: positions, s => by
    simp only [List.mapM_cons]
    exact .bind (.intern _) fun _ t s₁ _ =>
      .bind (missing_returns id positions s₁) fun _ ts s₂ _ => .pure _

theorem instantiate_returns {id : DeclarationId} {d : Declaration} (hd : u.declaration? id = some d)
    (hV : u.Naming V) {args : List TypeId} (hargs : ∀ x ∈ args, V.Has x)
    (hlead : u.LeadTo V.table.expanding id) (hlacks : Lacks K L V)
    (h : u.PhraseReturns K L
      (.inst (.declared id) (completeNames id d.typeParams.length (V.names args)))) :
    Returns V.table fun fuel => u.instantiate (u.resolve fuel) id args := by
  simp only [instantiate_eq hd]
  refine .bind (missing_returns id _ _) fun _ missing s₁ hrun => ?_
  have hlength := length_of_mapM hrun
  rw [List.length_drop, List.length_range] at hlength
  obtain ⟨V₁, rfl, h₁, hmissing, hnames⟩ := missing_calls (P := fun _ => True) id _ hV missing s₁ hrun
  refine h id d V₁ (args.take d.typeParams.length ++ missing) rfl hd h₁.naming (fun x hx => ?_)
    (names_complete h₁.later hargs hnames) ?_ (by rw [h₁.expanding]; exact hlead)
    (hlacks.later hV h₁.later)
  · rcases List.mem_append.1 hx with hx | hx
    · exact h₁.later.has x (hargs x (List.mem_of_mem_take hx))
    · exact hmissing x hx
  · rw [List.length_append, hlength, List.length_take]
    omega

end Phrases

/-- **What has a name is resolved.**  The outer induction is on the aliases that the table lacks,
the inner one on the name. -/
theorem phrase_returns (hcircular : ∀ n, ¬ u.Circular n) (hK : u.Spelled K) :
    ∀ (k : Nat) (L : List (DeclarationId × List TypeName)), L.length = k →
      ∀ {phrase N}, u.Names K phrase N → u.PhraseReturns K L phrase := by
  intro k
  induction k using Nat.strong_induction_on with
  | _ k ihk =>
    rintro L rfl phrase N h
    induction h with
    | bound h => exact resolved_bound h
    | word h hw => exact resolved_word h hw
    | applied h hw hlen hargs _ ihargs ih =>
      refine resolved_applied hcircular h hw ⟨hlen, hargs⟩ (fun i e he => ?_) ih
      exact ihargs i e _ he (List.getElem?_eq_getElem (by
        rw [← hlen]
        exact (List.getElem?_eq_some_iff.1 he).1))
    | name _ ih => exact resolved_name ih
    | array _ ih => exact resolved_array ih
    | union hlen _ ih =>
      exact resolved_union hcircular fun i e he => ih i e _ he (List.getElem?_eq_getElem (by
        rw [← hlen]
        exact (List.getElem?_eq_some_iff.1 he).1))
    | intersection hlen _ ih =>
      exact resolved_intersection hcircular fun i e he => ih i e _ he (List.getElem?_eq_getElem (by
        rw [← hlen]
        exact (List.getElem?_eq_some_iff.1 he).1))
    | literal => exact resolved_step fun V scope _ _ _ => .intern _
    | object => exact resolved_step fun V scope _ _ _ => .of_run rfl
    | declared hfind hd _ ih =>
      rintro V args hV hargs rfl hlead hlacks
      simp only [appliedType, hfind]
      exact instantiate_returns hd hV hargs (hlead _ hfind) hlacks ih
    | builtin hfind hb =>
      intro V args hV hargs _ _ _
      simp only [appliedType, hfind, hb]
      exact builtinType_returns _ _ _
    | unknown hfind hb =>
      intro V args hV hargs _ _ _
      simp only [appliedType, hfind, hb]
      exact .intern _
    | record =>
      intro id d V args hid
      cases hid
    | reference hd hkind =>
      rintro id d V args ⟨⟩ hd' _ _ _ _ _ _
      cases hd.symm.trans hd'
      unfold instanceType
      split
      · exact .intern _
      · exact .intern _
      · rename_i hbody
        exact absurd hbody (not_alias_of_kind hkind)
    | nominal hd hbody hnamed hS =>
      rintro id d V args ⟨⟩ hd' hV hargs rfl hlength hlead hlacks
      cases hd.symm.trans hd'
      simp only [instanceType, hbody]
      exact expandNamed_returns hcircular hK ⟨hV, hd, hbody, hargs, hlength, hlead⟩ hnamed hS hlacks
        fun L' hlt _ _ _ _ hN => ihk _ hlt L' rfl hN
    | transparent hd hbody hopen _ ih =>
      rintro id d V args ⟨⟩ hd' hV hargs rfl hlength hlead hlacks
      cases hd.symm.trans hd'
      simp only [instanceType, hbody]
      exact expandOpen_returns ⟨hV, hd, hbody, hargs, hlength, hlead⟩ hopen hlacks ih

end Universe
end TypedJson
