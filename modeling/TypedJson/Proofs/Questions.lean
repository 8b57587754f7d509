import TypedJson.Proofs.Resolution
import TypedJson.Proofs.Trace
/-!
# What questions come down to

A question is answered by resolving declarations and by listing members and index signatures;
the text and the key of a type ask for nothing else.  So what these keep is kept by every
question (`reaches_induction`).

A universe is asked about types in several ways, but each way comes down to two that change
the table: a declaration is instantiated, or the members or index signatures of a type are
listed.  An invariant of the table is therefore checked for these two, and never for texts
and keys.
-/
namespace TypedJson
namespace Universe

variable {u : Universe} {s s' : Interner}

/-- The second table comes of the first as a declaration is resolved or the members or index
signatures of a type are listed. -/
inductive Looks (u : Universe) (s s' : Interner) : Prop
  | instantiate {fuel : Nat} {id : DeclarationId} {d : Declaration} {t : TypeId}
      (hd : u.declaration? id = some d)
      (run : u.instantiate (u.resolve fuel) id [] s = some (t, s'))
  | members {fuel : Nat} {t : TypeId} {ms : List TypeMember}
      (run : u.members fuel t s = some (ms, s'))
  | indexes {fuel : Nat} {t : TypeId} {is : List TypeIndex}
      (run : u.indexes fuel t s = some (is, s'))

/-- Whatever it answers, the computation only looks. -/
def OnlyLooks (u : Universe) (m : Session α) : Prop :=
  ∀ s a s', m s = some (a, s') → Relation.ReflTransGen u.Looks s s'

namespace OnlyLooks

variable {α β : Type}

theorem pure (a : α) : u.OnlyLooks (Pure.pure a) := by
  rintro s _ s' hrun
  cases hrun
  exact .refl

theorem query (f : Interner → α) : u.OnlyLooks (Session.query f) := by
  rintro s _ s' hrun
  cases hrun
  exact .refl

theorem bind {m : Session α} {f : α → Session β} (hm : u.OnlyLooks m)
    (hf : ∀ a, u.OnlyLooks (f a)) : u.OnlyLooks (m >>= f) := by
  intro s b s₂ hrun
  obtain ⟨a, s₁, hrun₁, hrun₂⟩ := bind_eq_some.1 hrun
  exact (hm s a s₁ hrun₁).trans (hf a s₁ b s₂ hrun₂)

theorem mapM {f : α → Session β} : ∀ (as : List α) (_ : ∀ a ∈ as, u.OnlyLooks (f a)),
    u.OnlyLooks (as.mapM f)
  | [], _ => by
    rw [List.mapM_nil]
    exact pure []
  | a :: as, hf => by
    rw [List.mapM_cons]
    exact (hf a List.mem_cons_self).bind fun b =>
      (mapM as fun x hx => hf x (List.mem_cons_of_mem a hx)).bind fun bs => pure _

end OnlyLooks

theorem members_onlyLooks (u : Universe) (fuel : Nat) (t : TypeId) :
    u.OnlyLooks (u.members fuel t) := fun _ _ _ hrun => .single (.members hrun)

theorem instantiate_onlyLooks (fuel : Nat) {id : DeclarationId} {d : Declaration}
    (hd : u.declaration? id = some d) : u.OnlyLooks (u.instantiate (u.resolve fuel) id []) :=
  fun _ _ _ hrun => .single (.instantiate hd hrun)

/-! ## Texts

The text of an object without a name asks for its members; all others go on to texts only. -/

theorem genericText_onlyLooks {displayOf : TypeId → Session String}
    (h : ∀ t, u.OnlyLooks (displayOf t)) (inst : Instance) :
    u.OnlyLooks (u.genericText displayOf inst) := by
  unfold genericText
  dsimp only
  split
  · exact .pure _
  · exact .bind (.mapM _ fun t _ => h t) fun args => .pure _

theorem memberText_onlyLooks {displayOf : TypeId → Session String}
    (h : ∀ t, u.OnlyLooks (displayOf t)) (m : TypeMember) : u.OnlyLooks (memberText displayOf m) := by
  unfold memberText
  cases m.type with
  | some t => exact .bind (h t) fun text => .pure _
  | none => exact .pure _

theorem display_onlyLooks (u : Universe) : ∀ (fuel : Nat) (t : TypeId),
    u.OnlyLooks (u.display fuel t)
  | 0, _ => fun _ _ _ h => by cases h
  | fuel + 1, t => by
    have hself := display_onlyLooks u fuel
    have hall : ∀ ts : List TypeId, u.OnlyLooks (ts.mapM (u.display fuel)) :=
      fun ts => .mapM ts fun t _ => hself t
    unfold display
    refine .bind (.query _) fun data => ?_
    split
    case h_5 =>
      refine .bind (hself _) fun inner => .bind (.query _) fun element => ?_
      split
      · exact .pure _
      · exact .pure _
    case h_6 | h_8 | h_9 => exact genericText_onlyLooks hself _
    case h_7 | h_10 => exact .bind (hall _) fun texts => .pure _
    case h_11 =>
      refine .bind (members_onlyLooks u fuel t) fun ms => ?_
      refine .bind (.mapM ms fun m _ => memberText_onlyLooks hself m) fun fields => ?_
      split
      · exact .pure _
      · exact .pure _
    all_goals exact .pure _

/-! ## Keys -/

theorem keyWithin_onlyLooks (u : Universe) : ∀ (fuel : Nat) (opened : List TypeId) (t : TypeId),
    u.OnlyLooks (u.keyWithin fuel opened t)
  | 0, _, _ => fun _ _ _ h => by cases h
  | fuel + 1, opened, t => by
    have htext := (display_onlyLooks u fuel t).bind fun text =>
      OnlyLooks.pure (TypeKey.opaqueText text)
    have hall : ∀ (opened : List TypeId) (ts : List TypeId),
        u.OnlyLooks (ts.mapM (u.keyWithin fuel opened)) :=
      fun opened ts => .mapM ts fun t _ => keyWithin_onlyLooks u fuel opened t
    unfold keyWithin
    refine .bind (.query _) fun data => ?_
    split
    case h_5 =>
      split
      · split
        · split
          · exact .pure _
          · exact htext
        · exact .bind (hall _ _) fun keys => .pure _
      · exact htext
      · split
        · exact .pure _
        · exact .bind (hall _ _) fun keys => .pure _
    all_goals exact .pure _

theorem keyOfBranches_onlyLooks (u : Universe) (fuel : Nat) (ts : List TypeId) :
    u.OnlyLooks (u.keyOfBranches fuel ts) := by
  unfold keyOfBranches
  split
  · exact .pure _
  · exact keyWithin_onlyLooks u fuel [] _
  · exact .bind (.mapM _ fun t _ => keyWithin_onlyLooks u fuel [] t) fun keys => .pure _

/-! ## Questions -/

theorem asks_looks (h : u.Asks s s') : Relation.ReflTransGen u.Looks s s' := by
  cases h with
  | @declared fuel name found run =>
    have hdeclared : u.OnlyLooks (u.declared? fuel name) := by
      unfold declared?
      cases hfind : u.find? name 0 with
      | none => exact .pure none
      | some id =>
        obtain ⟨d, hmem, -⟩ := mem_declarations_of_find? hfind
        exact .bind (instantiate_onlyLooks fuel (mem_declarations_iff.1 hmem)) fun t => .pure _
    exact hdeclared _ _ _ run
  | @exported fuel ts run =>
    have hexported : u.OnlyLooks (u.exportedTypes fuel) := .mapM _ fun entry hmem =>
      instantiate_onlyLooks fuel (mem_declarations_iff.1 (List.mem_filter.1 hmem).1)
    exact hexported _ _ _ run
  | members _ run => exact .single (.members run)
  | indexes _ run => exact .single (.indexes run)
  | display _ run => exact display_onlyLooks u _ _ _ _ _ run
  | key _ run => exact keyOfBranches_onlyLooks u _ _ _ _ _ run

/-- **What every look keeps, every question keeps.** -/
theorem reaches_induction {P : Interner → Prop} (hstep : ∀ s s', P s → u.Looks s s' → P s')
    (hs : P s) (h : u.Reaches s s') : P s' := by
  induction h with
  | refl => exact hs
  | tail _ hask ih =>
    have hlooks := asks_looks hask
    clear hask
    induction hlooks with
    | refl => exact ih
    | tail _ hlook ih => exact hstep _ _ ih hlook

end Universe
end TypedJson
