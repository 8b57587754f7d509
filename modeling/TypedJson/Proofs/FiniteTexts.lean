import TypedJson.Proofs.Transcription
/-!
# Which texts are finite

The text of an inline object goes on with the texts of its members.  It has no end if one of
them shows a transparent alias whose body shows the inline object again.  If no alias does that
(`Universe.FiniteTexts`) then the way from an expression to the members of the inline objects
that it shows cannot be gone without end (`Universe.below_wellFounded`).

The measure counts the transparent aliases that the text may still come to, and after them
the size of the expression.  Going down to a part makes the expression smaller and cannot add
an alias.  Going from an alias to its body makes it larger.  But then the alias is not behind
the members of any inline object that the body shows, which is what the condition says; so
by the time a member is reached there is one alias less to come.
-/
namespace TypedJson
namespace Universe

/-- The text of the first expression, carried on through the members of inline objects, comes to
the second one. -/
def Continues (u : Universe) : Spot → Spot → Prop :=
  Relation.ReflTransGen fun p q => u.Shows p q ∨ p.HasMember q

/-- No transparent alias has, at whatever depth of its body, an inline object around the alias
itself. -/
def FiniteTexts (u : Universe) : Prop :=
  ∀ id d body, u.declaration? id = some d → d.body = .typeAlias body → body.isStructure = false →
    ∀ o q, Relation.ReflTransGen u.Shows ⟨id.unit, body⟩ o → o.HasMember q →
      ¬ u.Continues q ⟨id.unit, body⟩

/-- The first expression is that of a member of an inline object which the second shows. -/
def Below (u : Universe) (q p : Spot) : Prop :=
  ∃ o, Relation.ReflTransGen u.Shows p o ∧ o.HasMember q

variable {u : Universe} {p q o : Spot}

theorem continues_of_shows (h : Relation.ReflTransGen u.Shows p q) : u.Continues p q := by
  induction h with
  | refl => exact .refl
  | tail _ hstep ih => exact ih.tail (.inl hstep)

theorem Below.continues (h : u.Below q p) : u.Continues p q := by
  obtain ⟨o, hshows, hmember⟩ := h
  exact (continues_of_shows hshows).tail (.inr hmember)

theorem size_lt_of_hasMember (h : p.HasMember q) : sizeOf q.expr < sizeOf p.expr := by
  obtain ⟨hm, -, htype⟩ := h
  rename_i unit members indexes m e
  have hlt := List.sizeOf_lt_of_mem hm
  have hsize : sizeOf e < sizeOf m := by
    obtain ⟨name, optional, method, type⟩ := m
    obtain rfl : type = some e := htype
    rw [MemberDecl.mk.sizeOf_spec, Option.some.sizeOf_spec]
    omega
  show sizeOf e < sizeOf (TypeExpr.object members indexes)
  rw [TypeExpr.object.sizeOf_spec]
  omega

/-- The body of a transparent alias. -/
def IsTransparentBody (u : Universe) (id : DeclarationId) (body : TypeExpr) : Prop :=
  ∃ d, u.declaration? id = some d ∧ d.body = .typeAlias body ∧ body.isStructure = false

theorem size_lt_of_shows (h : u.Shows p q) :
    sizeOf q.expr < sizeOf p.expr ∨
      ∃ id body, u.IsTransparentBody id body ∧ q = ⟨id.unit, body⟩ := by
  cases h with
  | element => exact .inl (by dsimp only; rw [TypeExpr.array.sizeOf_spec]; omega)
  | branch he =>
    have hlt := List.sizeOf_lt_of_mem he
    exact .inl (by dsimp only; rw [TypeExpr.union.sizeOf_spec]; omega)
  | part he =>
    have hlt := List.sizeOf_lt_of_mem he
    exact .inl (by dsimp only; rw [TypeExpr.intersection.sizeOf_spec]; omega)
  | argument _ _ he =>
    have hlt := List.sizeOf_lt_of_mem (List.mem_of_mem_take he)
    exact .inl (by dsimp only; rw [TypeExpr.generic.sizeOf_spec]; omega)
  | expanded _ _ hd hbody hopen => exact .inr ⟨_, _, ⟨_, hd, hbody, hopen⟩, rfl⟩
  | expandedGeneric _ _ hd hbody hopen => exact .inr ⟨_, _, ⟨_, hd, hbody, hopen⟩, rfl⟩

theorem size_le_of_shows (h : Relation.ReflTransGen u.Shows p o) :
    sizeOf o.expr ≤ sizeOf p.expr ∨
      ∃ id body, u.IsTransparentBody id body ∧ Relation.ReflTransGen u.Shows p ⟨id.unit, body⟩ ∧
        Relation.ReflTransGen u.Shows ⟨id.unit, body⟩ o := by
  induction h using Relation.ReflTransGen.head_induction_on with
  | refl => exact .inl (Nat.le_refl _)
  | @head p q hstep hrest ih =>
    rcases size_lt_of_shows hstep with hlt | ⟨id, body, hbody, rfl⟩
    · rcases ih with hle | ⟨id, body, hbody, hto, hfrom⟩
      · exact .inl (hle.trans (Nat.le_of_lt hlt))
      · exact .inr ⟨id, body, hbody, .head hstep hto, hfrom⟩
    · exact .inr ⟨id, body, hbody, .single hstep, hrest⟩

open Classical in
/-- The transparent aliases that the text of the expression comes to. -/
noncomputable def aliasesBehind (u : Universe) (p : Spot) : Finset DeclarationId :=
  (u.declarations.map (·.1)).toFinset.filter fun id =>
    ∃ body, u.IsTransparentBody id body ∧ u.Continues p ⟨id.unit, body⟩

theorem mem_aliasesBehind {id : DeclarationId} :
    id ∈ u.aliasesBehind p ↔
      ∃ body, u.IsTransparentBody id body ∧ u.Continues p ⟨id.unit, body⟩ := by
  classical
  refine Finset.mem_filter.trans ?_
  rw [List.mem_toFinset, and_iff_right_iff_imp]
  rintro ⟨body, ⟨d, hd, -⟩, -⟩
  exact List.mem_map.2 ⟨(id, d), mem_declarations_iff.2 hd, rfl⟩

theorem aliasesBehind_subset (h : u.Continues p q) : u.aliasesBehind q ⊆ u.aliasesBehind p := by
  intro id hid
  obtain ⟨body, hbody, hcontinues⟩ := mem_aliasesBehind.1 hid
  exact mem_aliasesBehind.2 ⟨body, hbody, h.trans hcontinues⟩

/-- What an expression may still come to: aliases first, then its own parts. -/
noncomputable def weight (u : Universe) (p : Spot) : Nat ×ₗ Nat :=
  toLex ((u.aliasesBehind p).card, sizeOf p.expr)

/-- **In the members of an inline object there is less to come than around it.** -/
theorem weight_lt_of_below (hfinite : u.FiniteTexts) (h : u.Below q p) :
    u.weight q < u.weight p := by
  have hsubset := aliasesBehind_subset h.continues
  obtain ⟨o, hshows, hmember⟩ := h
  refine Prod.Lex.toLex_lt_toLex.2 ?_
  rcases size_le_of_shows hshows with hle | ⟨id, body, hbody, hto, hfrom⟩
  · rcases (Finset.card_le_card hsubset).lt_or_eq with hlt | heq
    · exact .inl hlt
    · exact .inr ⟨heq, (size_lt_of_hasMember hmember).trans_le hle⟩
  · -- the alias on the way is behind the expression, but not behind the member
    refine .inl (Finset.card_lt_card (Finset.ssubset_iff_of_subset hsubset |>.2 ⟨id, ?_, ?_⟩))
    · exact mem_aliasesBehind.2 ⟨body, hbody, continues_of_shows hto⟩
    · intro hid
      obtain ⟨body', ⟨d', hd', hbody', -⟩, hcontinues⟩ := mem_aliasesBehind.1 hid
      obtain ⟨d, hd, hbody, hopen⟩ := hbody
      obtain rfl : d = d' := Option.some.inj (hd.symm.trans hd')
      obtain rfl : body = body' := DeclarationBody.typeAlias.inj (hbody.symm.trans hbody')
      exact hfinite id d body hd hbody hopen o q hfrom hmember hcontinues

theorem below_wellFounded (hfinite : u.FiniteTexts) : WellFounded u.Below :=
  Subrelation.wf (fun h => weight_lt_of_below hfinite h) (InvImage.wf u.weight wellFounded_lt)

end Universe
end TypedJson
