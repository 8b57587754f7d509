import TypedJson.Proofs.Enumeration
import TypedJson.Proofs.Reproduction
/-!
# What is listed in one table is listed in every table

If what a type of some name lists has names, and so do the texts of the aliases with a handle of
their own that come up in it, then a type of that name is listed in every table
(`list_returns`).  The list of names is a derivation that the computation follows: own texts first,
then the types that are taken over from.

The induction is on the derivation of the list.  At each step the texts of the type are
resolved, as their names are given, and the types taken over from are listed, by the
induction hypothesis.  That other lists come under way in between is no obstacle, as the
hypothesis is for every list of lists under way in which this type does not await itself.
-/
namespace TypedJson
namespace Universe

variable {u : Universe} {busy : List (Listing × TypeId)} {V V' : NamedTable} {k : Listing}
  {K : DeclarationId → List TypeName → Prop} {L : List (DeclarationId × List TypeName)}

namespace Returns

variable {α β : Type}

theorem mapM {I : Nat → NamedTable → Prop} {P : Nat → Site → Prop} {f : Nat → α → Session β}
    (hI : ∀ i V V', u.Proceeds busy (P i) V V' → I i V → I (i + 1) V') :
    ∀ (as : List α) (k : Nat) {V : NamedTable}, u.Prepared busy V → I k V →
      (∀ i a, as[i]? = some a → ∀ V', u.Proceeds busy (fun _ => True) V V' → I (k + i) V' →
        Returns V'.table (fun fuel => f fuel a) ∧
          ∀ fuel, u.Does busy (P (k + i)) V' (f fuel a) fun _ _ => True) →
      Returns V.table fun fuel => as.mapM (f fuel)
  | [], _, _, _, _, _ => by
    simp only [List.mapM_nil]
    exact .pure []
  | a :: as, k, V, hV, hk, hf => by
    simp only [List.mapM_cons]
    obtain ⟨hreturns, hdoes⟩ := hf 0 a rfl V (.refl hV) hk
    refine .bind hreturns fun fuel b s₁ hrun => ?_
    obtain ⟨V₁, rfl, h₁, -⟩ := hdoes fuel b s₁ hrun
    have hshift : ∀ i, k + 1 + i = k + (i + 1) := fun i => by omega
    refine .bind (mapM hI as (k + 1) h₁.after (hI k V V₁ h₁ hk) fun i a' ha' V' h' hi => ?_)
      fun _ bs s₂ _ => .pure _
    rw [hshift] at hi ⊢
    exact hf (i + 1) a' ha' V' (h₁.any.trans h') hi

end Returns

theorem Lacks.proceeds {P : Site → Prop} (h : Lacks K L V) (h' : u.Proceeds busy P V V') :
    Lacks K L V' := h.later h'.before.naming h'.later

/-! ## Texts -/

section Texts

variable {p : Site} {scope : Scope}

theorem resolve_returns (hcircular : ∀ n, ¬ u.Circular n) (hK : u.Spelled K)
    (hV : u.Prepared busy V) (hlacks : Lacks K L V) (hscope : Scope.In scope V.table)
    (howned : V.Owned p) (hfree : V.Free p) {e : TypeExpr} {N : TypeName}
    (hN : u.Names K (.expr p (V.scope scope) e) N) :
    Returns V.table fun fuel => u.resolve fuel scope e :=
  phrase_returns hcircular hK L.length L rfl hN V scope (hV.resolvable hscope howned hfree e) rfl
    hlacks

theorem texts_returns {α : Type} {f : Nat → α → Session k.Item}
    {R : Site → α → k.NamedItem → Prop} (hV : u.Prepared busy V) (howned : V.Owned p)
    (hfree : V.Free p) {as : List α} {xs : List k.NamedItem}
    (hxs : Pointwise (fun i a x => R (p.child i) a x) as xs)
    (hf : ∀ a x V' i, u.Proceeds busy (fun _ => True) V V' → V'.Owned (p.child i) →
      V'.Free (p.child i) → R (p.child i) a x → Returns V'.table (fun fuel => f fuel a) ∧
        ∀ fuel, u.Does busy (·.Within (p.child i)) V' (f fuel a) fun _ _ => True) :
    Returns V.table fun fuel => as.mapM (f fuel) := by
  refine Returns.mapM (I := fun i V' => Vacant V' p i) (P := fun i q => q.Within (p.child i))
    (fun i V V' h' h => h.next h') as 0 hV (.of_free howned hfree) fun i a ha V' h' hvacant => ?_
  have hi : i < xs.length := by
    rw [← hxs.1]
    exact (List.getElem?_eq_some_iff.1 ha).1
  have hx := hxs.2 i a _ ha (List.getElem?_eq_getElem hi)
  rw [Nat.zero_add] at hvacant ⊢
  exact hf a _ V' i h' (hvacant.owned.child i) (hvacant.free i (Nat.le_refl i)) hx

theorem member_returns (hcircular : ∀ n, ¬ u.Circular n) (hK : u.Spelled K) (hV : u.Prepared busy V)
    (hlacks : Lacks K L V) (hscope : Scope.In scope V.table) (howned : V.Owned p)
    (hfree : V.Free p) {m : Member} {x : NamedMember}
    (hx : u.MemberNames K p (V.scope scope) m x) : Returns V.table fun fuel =>
      (do pure ⟨m.name, m.optional, ← memberType (u.resolve fuel) scope m⟩ : Session TypeMember) := by
  have htype := hx.type
  unfold memberType
  split
  · rename_i e hmethod hm
    rw [hmethod, hm] at htype
    obtain ⟨N, -, hN⟩ := htype
    simp only [map_eq_pure_bind]
    exact .bind (.bind (resolve_returns hcircular hK hV hlacks hscope howned hfree hN)
      fun _ t s₁ _ => .pure _) fun _ type s₂ _ => .pure _
  · exact .pure _

theorem index_returns (hcircular : ∀ n, ¬ u.Circular n) (hK : u.Spelled K) (hV : u.Prepared busy V)
    (hlacks : Lacks K L V) (hscope : Scope.In scope V.table) (howned : V.Owned p)
    (hfree : V.Free p) {m : Index} {x : NamedIndex}
    (hx : u.IndexNames K p (V.scope scope) m x) : Returns V.table fun fuel =>
      (do
        let key ← u.resolve fuel scope m.key
        let value ← u.resolve fuel scope m.value
        pure ⟨key, value⟩ : Session TypeIndex) := by
  have hvacant := Vacant.of_free howned hfree
  refine .bind (resolve_returns hcircular hK hV hlacks hscope (howned.child 0)
    (hvacant.free 0 (Nat.le_refl 0)) hx.key) fun fuel key s₁ hrun => ?_
  obtain ⟨V₁, rfl, h₁, -⟩ := resolve_does hcircular fuel hV hscope (howned.child 0)
    (hvacant.free 0 (Nat.le_refl 0)) m.key key s₁ hrun
  have hvacant₁ := hvacant.next h₁
  have hvalue := hx.value
  rw [← h₁.later.scope hscope] at hvalue
  exact .bind (resolve_returns hcircular hK h₁.after (hlacks.proceeds h₁)
    (h₁.later.scope_in hscope) (hvacant₁.owned.child 1) (hvacant₁.free 1 (Nat.le_refl 1)) hvalue)
    fun _ value s₂ _ => .pure _

theorem own_returns (hcircular : ∀ n, ¬ u.Circular n) (hK : u.Spelled K) (hV : u.Prepared busy V)
    (hlacks : Lacks K L V) (hscope : Scope.In scope V.table) (howned : V.Owned p)
    (hfree : V.Free p) {members : List Member} {indexes : List Index} : ∀ {k : Listing}
    {own : List k.NamedItem}, u.TextNames K p (V.scope scope) members indexes k own →
      Returns V.table fun fuel => resolveOwn (u.resolve fuel) scope members indexes k
  | .members, _, h => texts_returns (k := .members)
      (R := fun p m x => u.MemberNames K p (V.scope scope) m x) hV howned hfree h
      fun m x V' i h' howned' hfree' hx => by
        rw [← h'.later.scope hscope] at hx
        have hscope' := h'.later.scope_in hscope
        exact ⟨member_returns hcircular hK h'.after (hlacks.proceeds h') hscope' howned' hfree' hx,
          fun fuel => (member_does hcircular fuel h'.after hscope' howned' hfree' m).mono
            (fun _ h => h) fun _ _ _ _ => trivial⟩
  | .indexes, _, h => texts_returns (k := .indexes)
      (R := fun p m x => u.IndexNames K p (V.scope scope) m x) hV howned hfree h
      fun m x V' i h' howned' hfree' hx => by
        rw [← h'.later.scope hscope] at hx
        have hscope' := h'.later.scope_in hscope
        exact ⟨index_returns hcircular hK h'.after (hlacks.proceeds h') hscope' howned' hfree' hx,
          fun fuel => (index_does hcircular fuel h'.after hscope' howned' hfree' m).mono
            (fun _ h => h) fun _ _ _ _ => trivial⟩

end Texts

/-! ## The list of a type

The forms of the contents as before; the names of the bases are those of the derivation. -/

/-- What the types that this one takes over from may be asked for, if they have these names. -/
def BasesReturn (u : Universe) (busy : List (Listing × TypeId)) (k : Listing) (t : TypeId)
    (bases : List TypeName) (V : NamedTable) : Prop :=
  ∀ b V', u.Proceeds busy (fun _ => True) V V' → V'.Has b → u.Inherits V'.table t b →
    V'.name b ∈ bases → Returns V'.table (fun fuel => u.list fuel k b)

/-- The bases of a text are resolved and listed in turn. -/
theorem list_of_text_returns (hcircular : ∀ n, ¬ u.Circular n) (hK : u.Spelled K) {t : TypeId}
    (hV : u.Prepared busy V) (hlacks : Lacks K L V) (ht : V.Has t)
    (howned : V.Owned (listSite k (V.name t))) (hfree : V.Free (listSite k (V.name t)))
    {unit : Nat} {params : List (String × TypeId)} {es : List TypeExpr} {members : List Member}
    {indexes : List Index}
    (hcontents : u.contents (V.table.data t) = .text unit params es members indexes)
    {own : List k.NamedItem} {bases : List TypeName}
    (hown : u.TextNames K ((listSite k (V.name t)).child 0) (V.scope ⟨unit, params⟩) members indexes
      k own)
    (hbases : u.NamesAll K ((listSite k (V.name t)).child 1) (V.scope ⟨unit, params⟩) es bases)
    (hlists : ∀ fuel, u.BasesList busy k (u.list fuel k) t V)
    (hof : u.BasesReturn busy k t bases V) :
    Returns V.table fun fuel => computeFrom (u.resolve fuel) k (u.list fuel k) V.table
      (.text unit params es members indexes) := by
  have hvacant := Vacant.of_free howned hfree
  have hscope := contents_scope_in hV.kept.sound hcontents
  refine .bind (own_returns hcircular hK hV hlacks hscope (howned.child 0)
    (hvacant.free 0 (Nat.le_refl 0)) hown) fun fuel own s₁ hrun => ?_
  obtain ⟨V₁, rfl, h₁, -⟩ := own_does hcircular fuel hV hscope (howned.child 0)
    (hvacant.free 0 (Nat.le_refl 0)) members indexes k own s₁ hrun
  have hvacant₁ := hvacant.next h₁
  refine .bind ?_ fun _ lists s₂ _ => .pure _
  refine Returns.mapM (I := fun i V' => Vacant V' ((listSite k (V.name t)).child 1) i)
    (P := fun i q => q.Within (((listSite k (V.name t)).child 1).child i))
    (fun i V V' h' h => h.next h') es 0 h₁.after
    (.of_free (hvacant₁.owned.child 1) (hvacant₁.free 1 (Nat.le_refl 1)))
    fun i e he V' h' hi => ?_
  rw [Nat.zero_add] at hi ⊢
  have hto := h₁.any.trans h'
  have hscope' := hto.later.scope_in hscope
  have hfree' := hi.free i (Nat.le_refl i)
  have hlt : i < bases.length := by
    rw [← hbases.1]
    exact (List.getElem?_eq_some_iff.1 he).1
  have hN : u.Names K (.expr (((listSite k (V.name t)).child 1).child i)
      (V'.scope ⟨unit, params⟩) e) bases[i] := by
    rw [hto.later.scope hscope]
    exact hbases.2 i e _ he (List.getElem?_eq_getElem hlt)
  have hinherits : ∀ {V'' : NamedTable} {b : TypeId}, u.Proceeds busy (fun _ => True) V V'' →
      u.Denotes V''.table (.expr ⟨unit, params⟩ e) b → u.Inherits V''.table t b := fun h'' =>
    inherits_of_text ((h''.contents ht).trans hcontents) (List.mem_of_getElem? he)
  refine ⟨.bind (resolve_returns hcircular hK h'.after (hlacks.proceeds hto) hscope'
    (hi.owned.child i) hfree' hN) fun fuel b s₂ hrun₂ => ?_, fun fuel => ?_⟩
  · obtain ⟨V₂, rfl, h₂, hb, hdenotes⟩ := resolve_does hcircular fuel h'.after hscope'
      (hi.owned.child i) hfree' e b s₂ hrun₂
    refine hof b V₂ (hto.trans h₂.any) hb.has (hinherits (hto.trans h₂.any) hdenotes) ?_
    rw [hb.names.unique hN]
    exact List.getElem_mem hlt
  · refine (resolve_does hcircular fuel h'.after hscope' (hi.owned.child i) hfree' e).bind
      fun b V₂ h₂ ⟨hb, hdenotes⟩ => ?_
    exact (hlists fuel b V₂ (hto.trans h₂.any) hb.has
      (hinherits (hto.trans h₂.any) hdenotes)).mono (fun _ h => h.elim) fun _ _ _ _ => trivial

theorem list_of_parts_returns {t : TypeId} (hV : u.Prepared busy V) (ht : V.Has t)
    {xs : List TypeId} (hcontents : u.contents (V.table.data t) = .parts xs)
    (hlists : ∀ fuel, u.BasesList busy k (u.list fuel k) t V)
    (hof : u.BasesReturn busy k t (xs.map V.name) V) :
    Returns V.table fun fuel => computeFrom (u.resolve fuel) k (u.list fuel k) V.table (.parts xs) := by
  obtain ⟨origin, hdata⟩ := contents_parts hcontents
  have hxs := shape_parts_has hV.kept.sound hdata
  refine .bind ?_ fun _ lists s₁ _ => .pure _
  refine Returns.mapM (I := fun _ _ => True) (P := fun _ _ => False) (fun _ _ _ _ _ => trivial)
    xs 0 hV trivial fun i b hb V' h' _ => ?_
  have hb := List.mem_of_getElem? hb
  have hhas := h'.later.has b (hxs b hb)
  have hinherits : u.Inherits V'.table t b := .part ((h'.data ht).trans hdata) hb
  refine ⟨hof b V' h' hhas hinherits ?_, fun fuel => (hlists fuel b V' h' hhas hinherits).mono
    (fun _ h => h) fun _ _ _ _ => trivial⟩
  rw [h'.later.name b (hxs b hb)]
  exact List.mem_map_of_mem hb

theorem compute_returns (hcircular : ∀ n, ¬ u.Circular n) (hK : u.Spelled K) {t : TypeId}
    (hV : u.Prepared busy V) (hlacks : Lacks K L V) (ht : V.Has t)
    (howned : V.Owned (listSite k (V.name t))) (hfree : V.Free (listSite k (V.name t)))
    {c : Contents TypeName} {own : List k.NamedItem} {bases : List TypeName}
    (hc : u.HasContents K (V.name t) c) (hown : u.OwnNames K k (V.name t) c own)
    (hbases : u.BaseNames K k (V.name t) c bases)
    (hlists : ∀ fuel, u.BasesList busy k (u.list fuel k) t V)
    (hof : u.BasesReturn busy k t bases V) :
    Returns V.table fun fuel => u.compute (u.resolve fuel) k (u.list fuel k) t := by
  obtain rfl := (hV.contents ht).unique hc
  suffices h : Returns V.table fun fuel => computeFrom (u.resolve fuel) k (u.list fuel k) V.table
      (u.contents (V.table.data t)) by
    obtain ⟨l, s', -, n, hrun⟩ := h
    exact ⟨l, s', trivial, n, fun fuel hle => (compute_eq _ _ t V.table).trans (hrun fuel hle)⟩
  cases hcontents : u.contents (V.table.data t) with
  | text unit params es members indexes =>
    rw [hcontents] at hown hbases
    exact list_of_text_returns hcircular hK hV hlacks ht howned hfree hcontents hown hbases hlists hof
  | parts xs =>
    rw [hcontents] at hbases
    obtain rfl : bases = xs.map V.name := hbases
    exact list_of_parts_returns hV ht hcontents hlists hof
  | record key value => exact .pure _
  | nothing => exact .pure _

/-- **What has a list of names is listed.** -/
theorem list_returns (hcircular : ∀ n, ¬ u.Circular n) (hK : u.Spelled K) {N : TypeName}
    {l : List k.NamedItem} (h : u.Enumerates K k N l) : ∀ (V : NamedTable)
    (busy : List (Listing × TypeId)) (t : TypeId), u.Prepared busy V → Lacks K L V → V.Has t →
      V.name t = N → u.Awaits busy k t V.table → Returns V.table fun fuel => u.list fuel k t := by
  induction h with
  | intro hc hown hbases hlen _ ih =>
    rintro V busy t hV hlacks ht rfl hawaits
    refine Ends.succ ?_
    simp only [list_succ]
    refine Returns.query_bind ?_
    cases hkept : V.table.kept? k t with
    | some l' => exact .pure l'
    | none =>
      refine .bind (.of_run rfl) fun _ _ s₁ hrun => ?_
      cases hrun
      obtain ⟨h₁, hlater₁⟩ := hV.begin (k := k) ht
      obtain ⟨howned, hfree⟩ := hV.naming.vacant_list ht hkept
      have hof : ∀ {b V'}, u.Proceeds ((k, t) :: busy) (fun _ => True) (begunList V k t) V' →
          u.Inherits V'.table t b → u.Awaits ((k, t) :: busy) k b V'.table := fun h' hinherits =>
        hawaits.inherits (Interner.extends_keep.trans h'.table) hinherits
      refine .bind (compute_returns hcircular hK h₁ (hlacks.later hV.naming hlater₁)
        (Interner.has_keep.2 ht) howned hfree hc hown hbases
        (fun fuel b V' h' hb hinherits => list_does hcircular k fuel b V' _ h'.after hb
          (hof h' hinherits))
        fun b V' h' hb hinherits hmem => ?_) fun _ l' s₂ _ => .of_run rfl
      obtain ⟨i, hi, hname⟩ := List.getElem_of_mem hmem
      exact ih i _ _ (List.getElem?_eq_getElem hi) (List.getElem?_eq_getElem (by rw [← hlen]; exact hi))
        V' _ b h'.after ((hlacks.later hV.naming hlater₁).proceeds h') hb hname.symm
        (hof h' hinherits)

end Universe
end TypedJson
