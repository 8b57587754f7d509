import TypedJson.Proofs.Assembly
import TypedJson.Proofs.Reproduction
/-!
# What is founded is listed

The members and index signatures of a type are listed, whatever its declarations look like, if
every expression is resolved and no chain of types that take over from each other goes on without
end (`list_returns_of_founded`).  Every expression is resolved where no chain of aliases that
mention each other does (`expands_of_mentions`).

Without type parameters the budget shows that expressions are resolved and types are listed.
With them a declaration may be instantiated at ever larger arguments, and there is no bound;
so termination is stated here under two conditions, one on aliases and one on what a type
takes over from, each as well-foundedness of a relation that is read off the declarations or
the table.
-/
namespace TypedJson
namespace Universe

variable {u : Universe} {s s' : Interner}

namespace Returns

variable {α β : Type}

theorem succ {m : Nat → Session α} (h : Returns s fun fuel => m (fuel + 1)) : Returns s m :=
  Ends.succ h

theorem each {f : Nat → α → Session β} (as : List α)
    (hf : ∀ a ∈ as, ∀ s, Returns s fun fuel => f fuel a) : Returns s fun fuel => as.mapM (f fuel) :=
  Ends.mapM (fun _ _ _ _ _ => trivial) (fun _ => trivial) as fun a ha s' _ => hf a ha s'

theorem along {R : Interner → Interner → Prop} {m : Nat → Session α} (h : Returns s m)
    (hR : ∀ fuel, After s (m fuel) fun _ s' => R s s') : Ends R s m := by
  obtain ⟨a, s', -, n, hrun⟩ := h
  exact ⟨a, s', hR n a s' (hrun n (Nat.le_refl n)), n, hrun⟩

end Returns

/-! ## Expressions

By induction on the mentions.  An expression needs the declarations that it looks up at once;
the members of inline objects are not among them. -/

/-- Every expression is resolved, in whatever table. -/
def Expands (u : Universe) : Prop := ∀ s scope e, Returns s fun fuel => u.resolve fuel scope e

/-- Every instance of the declaration is made. -/
def Instantiates (u : Universe) (id : DeclarationId) : Prop :=
  ∀ s args, Returns s fun fuel => u.instantiate (u.resolve fuel) id args

theorem resolveName_returns {scope : Scope} {n : String} {args : List TypeExpr}
    (hargs : ¬ IsReserved n → ∀ e ∈ args, ∀ s, Returns s fun fuel => u.resolve fuel scope e)
    (hfind : (args = [] → n ∉ scope.params.map (·.1)) → ¬ IsReserved n →
      ∀ id, u.find? n scope.unit = some id → u.Instantiates id) (s : Interner) :
    Returns s fun fuel => u.resolveName (u.resolve fuel) scope n args := by
  unfold resolveName
  split
  · exact .pure _
  · rename_i hbound
    cases hword : Intrinsic.ofName? n with
    | some i => exact .intern _
    | none =>
      dsimp only
      by_cases htrue : n = "true"
      · simp only [if_pos htrue]
        exact .intern _
      by_cases hfalse : n = "false"
      · simp only [if_neg htrue, if_pos hfalse]
        exact .intern _
      simp only [if_neg htrue, if_neg hfalse]
      have hreserved : ¬ IsReserved n := by
        rintro (h | h | h)
        · exact h hword
        · exact htrue h
        · exact hfalse h
      refine .bind (.each args (hargs hreserved)) fun _ xs s₁ _ => ?_
      cases hid : u.find? n scope.unit with
      | some id => exact hfind (not_mem_of_bound? hbound) hreserved id hid s₁ xs
      | none =>
        cases Builtin.ofName? n with
        | some b => exact builtinType_returns s₁ b xs
        | none => exact .intern _

/-- An expression is resolved if the declarations that are looked up for it are instantiated. -/
theorem expr_returns {scope : Scope} : ∀ (e : TypeExpr),
    (∀ n id, e.LooksUp false (scope.params.map (·.1)) n → ¬ IsReserved n →
      u.find? n scope.unit = some id → u.Instantiates id) →
    ∀ s, Returns s fun fuel => u.resolve fuel scope e
  | .name n, h, s => .succ <| resolveName_returns (fun _ e he => by cases he)
      (fun hfree hreserved id => h n id (.name (hfree rfl)) hreserved) s
  | .generic n args, h, s => .succ <| resolveName_returns
      (fun hreserved e he => expr_returns e fun m id hm => h m id (.argument hreserved he hm))
      (fun hfree hreserved id => h n id (.generic hfree) hreserved) s
  | .array e, h, s => .succ <|
      .bind (expr_returns e (fun n id hn => h n id (.element hn)) s) fun _ x s₁ _ => .intern _
  | .union es, h, s => .succ <|
      .bind (.each es fun e he => expr_returns e fun n id hn => h n id (.branch he hn))
        fun _ xs s₁ _ => .intern _
  | .intersection es, h, s => .succ <|
      .bind (.each es fun e he => expr_returns e fun n id hn => h n id (.part he hn))
        fun _ xs s₁ _ => .of_run (newObject_eq _ _ s₁)
  | .literal value, _, s => .succ (.intern _)
  | .object members indexes, _, s => .succ (.of_run (newObject_eq _ _ s))

theorem expandTransparent_returns {scope : Scope} {body : TypeExpr}
    (hbody : ∀ s, Returns s fun fuel => u.resolve fuel scope body) (name : String)
    (inst : Instance) (s : Interner) :
    Returns s fun fuel => expandTransparent (u.resolve fuel) name inst scope body := by
  unfold expandTransparent
  refine .query_bind ?_
  split
  · exact .intern _
  · refine .bind (.of_run rfl) fun _ _ s₁ _ => .bind (hbody s₁) fun _ t s₂ _ => .of_run rfl

theorem expandAlias_returns {unit : Nat} {params : List String} {inst : Instance} {body : TypeExpr}
    (hfind : ∀ n id, body.LooksUp false ((params.zip inst.args).map (·.1)) n → ¬ IsReserved n →
      u.find? n unit = some id → u.Instantiates id) (name : String) (s : Interner) :
    Returns s fun fuel => expandAlias (u.resolve fuel) name params unit body inst := by
  have hbody : ∀ s, Returns s fun fuel => u.resolve fuel ⟨unit, params.zip inst.args⟩ body :=
    expr_returns body hfind
  have htransparent := expandTransparent_returns hbody name inst s
  unfold expandAlias
  refine .query_bind ?_
  cases s.instance? inst with
  | some t => exact .pure t
  | none =>
    cases body with
    | union es =>
      refine .bind (.of_run rfl) fun _ t s₁ _ => .bind (.each es fun e he => ?_)
        fun _ xs s₂ _ => .of_run rfl
      exact expr_returns e fun n id hn => hfind n id (.branch he hn)
    | object members indexes => exact .of_run rfl
    | intersection es =>
      refine .bind (.of_run rfl) fun _ t s₁ _ => .bind (.each es fun e he => ?_)
        fun _ xs s₂ _ => .of_run rfl
      exact expr_returns e fun n id hn => hfind n id (.part he hn)
    | name | generic | array | literal => exact htransparent

theorem instantiates_of_mentions {id : DeclarationId}
    (h : ∀ id', u.Mentions id id' → u.Instantiates id') : u.Instantiates id := by
  intro s args
  unfold instantiate
  cases hd : u.declaration? id with
  | none => exact .intern _
  | some d =>
    refine .bind (.each _ fun position _ s₁ => .intern _) fun _ missing s₁ hmissing => ?_
    cases hbody : d.body with
    | interface | enum => exact .intern _
    | typeAlias body =>
      refine expandAlias_returns (fun n id' hn hreserved hfind => ?_) d.name s₁
      have hlen : d.typeParams.length ≤ (args.take d.typeParams.length ++ missing).length := by
        have hmissing := length_of_mapM hmissing
        rw [List.length_drop, List.length_range] at hmissing
        rw [List.length_append]
        omega
      dsimp only at hn
      rw [List.map_fst_zip hlen] at hn
      exact h id' ⟨d, body, n, hd, hbody, hn, hreserved, hfind⟩

/-- **Every expression is resolved** where no chain of aliases that mention each other goes on
without end. -/
theorem expands_of_mentions (h : WellFounded fun id id' => u.Mentions id' id) : u.Expands := by
  have hall : ∀ id, u.Instantiates id := fun id =>
    h.induction id fun id ih => instantiates_of_mentions ih
  exact fun s scope e => expr_returns e (fun n id _ _ _ => hall id) s

/-! ## Lists

`Founded` is accessibility of the type along the relation of taking over, in this table and
in all larger ones, since what a base stands for may become known only while the list is
computed. -/

variable {busy : List (Listing × TypeId)} {k : Listing} {t : TypeId}

/-- With enough fuel the computation has a result, and goes on to a table between questions if it
begins with one. -/
abbrev Succeeds {α : Type} (u : Universe) (busy : List (Listing × TypeId)) (s : Interner)
    (m : Nat → Session α) : Prop :=
  Ends (fun s s' => u.Kept busy s → u.Onward busy s s') s m

namespace Succeeds

variable {α β : Type}

theorem pure (a : α) : u.Succeeds busy s fun _ => (Pure.pure a : Session α) := Ends.pure .refl a

theorem trans ⦃s₁ s₂ s₃ : Interner⦄ (h : u.Kept busy s₁ → u.Onward busy s₁ s₂)
    (h' : u.Kept busy s₂ → u.Onward busy s₂ s₃) (hs : u.Kept busy s₁) : u.Onward busy s₁ s₃ :=
  (h hs).trans (h' (h hs).after)

theorem of_goes {m : Nat → Session α} {Q : α → Interner → Prop} (h : Returns s m)
    (hgoes : ∀ fuel, u.Goes busy s (m fuel) Q) : u.Succeeds busy s m :=
  h.along fun fuel => (hgoes fuel).mono fun _ _ h _ => h.1

theorem bind (hs : u.Kept busy s) {m : Nat → Session α} {f : Nat → α → Session β}
    (hm : u.Succeeds busy s m)
    (hf : ∀ a s', u.Onward busy s s' → (∃ fuel, m fuel s = some (a, s')) →
      u.Succeeds busy s' fun fuel => f fuel a) :
    u.Succeeds busy s fun fuel => m fuel >>= f fuel :=
  Ends.bind trans hm fun a s' h hrun => hf a s' (h hs) hrun

theorem map {m : Nat → Session α} (g : α → β) (hm : u.Succeeds busy s m) :
    u.Succeeds busy s fun fuel => g <$> m fuel := Ends.map trans (fun _ => .refl) g hm

theorem mapM (hs : u.Kept busy s) {f : Nat → α → Session β} (as : List α)
    (hf : ∀ a ∈ as, ∀ s', u.Onward busy s s' → u.Succeeds busy s' fun fuel => f fuel a) :
    u.Succeeds busy s fun fuel => as.mapM (f fuel) :=
  Ends.mapM trans (fun _ => .refl) as fun a ha s' h => hf a ha s' (h hs)

end Succeeds

theorem resolve_succeeds (hexpands : u.Expands) (hs : u.Kept busy s) {scope : Scope}
    (hscope : Scope.In scope s) (e : TypeExpr) :
    u.Succeeds busy s fun fuel => u.resolve fuel scope e :=
  .of_goes (hexpands s scope e) fun fuel => resolve_goes fuel hs hscope e

theorem resolveOwn_succeeds (hexpands : u.Expands) (hs : u.Kept busy s) {scope : Scope}
    (hscope : Scope.In scope s) (members : List Member) (indexes : List Index) : ∀ k : Listing,
    u.Succeeds busy s fun fuel => resolveOwn (u.resolve fuel) scope members indexes k
  | .members => by
    refine .mapM hs members fun m _ s' h' => .bind h'.after ?_ fun type s'' _ _ => .pure _
    unfold memberType
    split
    · exact .map _ (resolve_succeeds hexpands h'.after (fun p hp => h'.has _ (hscope p hp)) _)
    · exact .pure _
  | .indexes => .mapM hs indexes fun m _ s₁ h₁ =>
    have hscope₁ : Scope.In scope s₁ := fun p hp => h₁.has _ (hscope p hp)
    .bind h₁.after (resolve_succeeds hexpands h₁.after hscope₁ m.key) fun key s₂ h₂ _ =>
      have hscope₂ : Scope.In scope s₂ := fun p hp => h₂.has _ (hscope₁ p hp)
      .bind h₂.after (resolve_succeeds hexpands h₂.after hscope₂ m.value) fun value s₃ _ _ =>
        .pure _

/-- What the types that this one takes over from may be asked for, and answer. -/
def BasesSucceed (u : Universe) (busy : List (Listing × TypeId)) (k : Listing) (t : TypeId)
    (s : Interner) : Prop :=
  ∀ b s', u.Onward busy s s' → s'.Has b → u.Inherits s' t b →
    u.Succeeds busy s' fun fuel => u.list fuel k b

theorem compute_succeeds (hexpands : u.Expands) (hs : u.Kept busy s) (ht : s.Has t)
    (hof : u.BasesSucceed busy k t s) :
    u.Succeeds busy s fun fuel => u.compute (u.resolve fuel) k (u.list fuel k) t := by
  suffices h : u.Succeeds busy s fun fuel => computeFrom (u.resolve fuel) k (u.list fuel k) s
      (u.contents (s.data t)) by
    obtain ⟨l, s', h', n, hrun⟩ := h
    exact ⟨l, s', h', n, fun fuel hle => (compute_eq _ _ t s).trans (hrun fuel hle)⟩
  have hdata {s'} (h : u.Onward busy s s') : s'.data t = s.data t :=
    h.table.data t (hs.closed t ht)
  cases hcontents : u.contents (s.data t) with
  | text unit params es members indexes =>
    have hscope := contents_scope_in hs.sound hcontents
    refine .bind hs (resolveOwn_succeeds hexpands hs hscope members indexes k)
      fun own s₁ h₁ _ => .bind h₁.after (.mapM h₁.after es fun e he s₂ h₂ => ?_)
        fun lists s₂ _ _ => .pure _
    have h₂ := h₁.trans h₂
    have hscope₂ : Scope.In ⟨unit, params⟩ s₂ := fun p hp => h₂.has _ (hscope p hp)
    refine .bind h₂.after (resolve_succeeds hexpands h₂.after hscope₂ e) fun b s₃ h₃ hrun => ?_
    obtain ⟨fuel, hrun⟩ := hrun
    obtain ⟨-, hb, hdenotes⟩ := resolve_goes fuel h₂.after hscope₂ e b s₃ hrun
    have h₃ := h₂.trans h₃
    exact hof b s₃ h₃ hb (inherits_of_text (by rw [hdata h₃]; exact hcontents) he hdenotes)
  | parts xs =>
    obtain ⟨origin, hparts⟩ := contents_parts hcontents
    refine .bind hs (.mapM hs xs fun b hb s' h' => ?_) fun lists s' _ _ => .pure _
    exact hof b s' h' (h'.has b (shape_parts_has hs.sound hparts b hb))
      (.part ((hdata h').trans hparts) hb)
  | record key value => exact .pure _
  | nothing => exact .pure _

/-- No chain of types, each of which takes over from the next one, goes on without end from the
type, whatever is added to the table. -/
inductive Founded (u : Universe) : Interner → TypeId → Prop
  | intro {s : Interner} {t : TypeId} (h : ∀ busy s' b, s.Extends s' → u.Kept busy s' →
    u.Inherits s' t b → Founded u s' b) : Founded u s t

/-- **What is founded is listed**, by induction on the chains from it. -/
theorem list_returns_of_founded (hexpands : u.Expands) (h : u.Founded s t) :
    ∀ (k : Listing) (busy : List (Listing × TypeId)), u.Kept busy s → s.Has t →
      u.Awaits busy k t s → Returns s fun fuel => u.list fuel k t := by
  induction h with
  | @intro s t _ ih =>
    intro k busy hs ht hawaits
    refine .succ ?_
    simp only [list_succ]
    refine .query_bind ?_
    cases hkept : s.kept? k t with
    | some l => exact .pure l
    | none =>
      refine .bind (.of_run rfl) fun _ _ s₁ hrun => ?_
      cases hrun
      have hs₁ : u.Kept ((k, t) :: busy) (s.keep k t []) := hs.keep_nil ht
      have hext : s.Extends (s.keep k t []) := Interner.extends_keep
      -- The chains go on from the table in which the empty list is kept.
      have hof : u.BasesSucceed ((k, t) :: busy) k t (s.keep k t []) := by
        intro b s' h' hb hinherits
        have hext' := hext.trans h'.table
        have hawaits' := hawaits.inherits hext' hinherits
        exact .of_goes (ih _ s' b hext' h'.after hinherits k _ h'.after hb hawaits')
          fun fuel => list_goes u k fuel b s' _ h'.after hb hawaits'
      obtain ⟨l, s₂, -, n, hrun⟩ := compute_succeeds hexpands hs₁ (Interner.has_keep.2 ht) hof
      exact .bind ⟨l, s₂, trivial, n, hrun⟩ fun _ l' s₃ _ => .of_run rfl

end Universe
end TypedJson
