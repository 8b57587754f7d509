import Mathlib.Logic.Equiv.Basic
import TypedJson.Proofs.Renaming
import TypedJson.Proofs.Unresolved
/-!
# Tables after a renaming

A table of handles made before a renaming has a counterpart made after it (`Renaming.table`): the
same slots with the same resolved forms, and the names of the aliases that could not be resolved
renamed with their declaration.  Types keep their handles.

`Mirrors` says of two computations that whatever the first returns the second returns as well, up
to relations between results and between states; the modules that follow carry it through the
resolver, its questions, the keys and the builder.

Handles do not change, since resolution goes through the declarations in the same order
before and after.  What does change are the texts that a table keeps for later, as these have
the new name in them.  The renaming of a table is a map over its slots, so what is asked of a
table commutes with it by a computation for each question.
-/
namespace TypedJson

/-- Whenever the first computation has a result, so has the second, with results and states that
are related. -/
def Mirrors {σ τ α β : Type} (Rel : σ → τ → Prop) (R : α → β → Prop) (m : StateT σ Option α)
    (m' : StateT τ Option β) : Prop :=
  ∀ s s', Rel s s' → After s m fun a s₁ => ∃ b s₁', m' s' = some (b, s₁') ∧ Rel s₁ s₁' ∧ R a b

namespace Mirrors

variable {σ τ α β γ δ : Type} {Rel : σ → τ → Prop} {R : α → β → Prop}

theorem pure {a : α} {b : β} (h : R a b) :
    Mirrors Rel R (Pure.pure a : StateT σ Option α) (Pure.pure b : StateT τ Option β) :=
  fun _ s' hrel => After.pure ⟨b, s', rfl, hrel, h⟩

theorem bind {Q : γ → δ → Prop} {m : StateT σ Option α} {m' : StateT τ Option β}
    {f : α → StateT σ Option γ} {f' : β → StateT τ Option δ} (hm : Mirrors Rel R m m')
    (hf : ∀ a b, R a b → Mirrors Rel Q (f a) (f' b)) : Mirrors Rel Q (m >>= f) (m' >>= f') := by
  intro s s' hrel
  refine (hm s s' hrel).bind fun a s₁ ⟨b, s₁', hrun, hrel₁, hab⟩ => ?_
  intro c s₂ hfrun
  obtain ⟨d, s₂', hrun', hrel₂, hcd⟩ := hf a b hab s₁ s₁' hrel₁ c s₂ hfrun
  exact ⟨d, s₂', bind_eq_some.2 ⟨b, s₁', hrun, hrun'⟩, hrel₂, hcd⟩

theorem mono {Q : α → β → Prop} {m : StateT σ Option α} {m' : StateT τ Option β}
    (h : Mirrors Rel R m m') (hQ : ∀ a b, R a b → Q a b) : Mirrors Rel Q m m' := fun s s' hrel =>
  (h s s' hrel).mono fun a _ ⟨b, s₁', hrun, hrel₁, hab⟩ => ⟨b, s₁', hrun, hrel₁, hQ a b hab⟩

theorem and {P : α → Prop} {m : StateT σ Option α} {m' : StateT τ Option β} (h : Mirrors Rel R m m')
    (hP : ∀ s, After s m fun a _ => P a) : Mirrors Rel (fun a b => R a b ∧ P a) m m' := by
  intro s s' hrel a s₁ hrun
  obtain ⟨b, s₁', hrun', hrel₁, hab⟩ := h s s' hrel a s₁ hrun
  exact ⟨b, s₁', hrun', hrel₁, hab, hP s a s₁ hrun⟩

theorem map {Q : γ → δ → Prop} {m : StateT σ Option α} {m' : StateT τ Option β} {f : α → γ}
    {f' : β → δ} (hm : Mirrors Rel R m m') (hf : ∀ a b, R a b → Q (f a) (f' b)) :
    Mirrors Rel Q (f <$> m) (f' <$> m') := by
  rw [map_eq_pure_bind, map_eq_pure_bind]
  exact hm.bind fun a b hab => .pure (hf a b hab)

theorem mapM {f : γ → StateT σ Option α} {f' : δ → StateT τ Option β} {as : List γ} {bs : List δ}
    (h : List.Forall₂ (fun a b => Mirrors Rel R (f a) (f' b)) as bs) :
    Mirrors Rel (List.Forall₂ R) (as.mapM f) (bs.mapM f') := by
  induction h with
  | nil =>
    rw [List.mapM_nil, List.mapM_nil]
    exact pure .nil
  | cons hab _ ih =>
    rw [List.mapM_cons, List.mapM_cons]
    exact hab.bind fun x y hxy => ih.bind fun xs ys hxs => .pure (.cons hxy hxs)

theorem mapM_map {f : γ → StateT σ Option α} {f' : δ → StateT τ Option α} {g : γ → δ} {as : List γ}
    (h : ∀ a ∈ as, Mirrors Rel Eq (f a) (f' (g a))) :
    Mirrors Rel Eq (as.mapM f) ((as.map g).mapM f') := by
  have hall : List.Forall₂ (fun a b => Mirrors Rel Eq (f a) (f' b)) as (as.map g) :=
    List.forall₂_map_right_iff.2 (List.forall₂_same.2 h)
  refine (mapM hall).mono fun xs ys hxs => ?_
  rwa [List.forall₂_eq_eq_eq] at hxs

theorem mapM_same {f : γ → StateT σ Option α} {f' : γ → StateT τ Option α} {as : List γ}
    (h : ∀ a ∈ as, Mirrors Rel Eq (f a) (f' a)) : Mirrors Rel Eq (as.mapM f) (as.mapM f') := by
  have hmap := mapM_map (g := id) h
  rwa [List.map_id] at hmap

end Mirrors

namespace Universe

/-- The declaration is a transparent alias that leads back to itself. -/
def CircularAt (u : Universe) (id : DeclarationId) : Prop :=
  ∃ d, u.declaration? id = some d ∧ d.IsTransparent ∧ Relation.TransGen u.Mentions id id

namespace Renaming

variable {u : Universe} (r : u.Renaming)

/-! ## Tables

The name of an unresolved type is the one text that is not an expression.  It has to be
renamed if it is that of the renamed declaration, which can be only if that is circular. -/

open Classical in
/-- The name of an unresolved type after the renaming: only that of a circular alias is the name
of a declaration. -/
noncomputable def unresolved (n : String) : String :=
  if u.CircularAt r.id then Equiv.swap r.old r.new n else n

noncomputable def form : Form → Form
  | .unresolved n => .unresolved (r.unresolved n)
  | f => f

def shape : Shape → Shape
  | .literal members indexes scope =>
    .literal (r.members scope.unit members) (r.indexes scope.unit indexes) scope
  | s => s

noncomputable def data : TypeData → TypeData
  | .form f => .form (r.form f)
  | .object origin s => .object origin (r.shape s)
  | d => d

noncomputable def slot (slot : Slot) : Slot := { slot with data := r.data slot.data }

/-- The table after the renaming: the same handles for the same types, with the new name in the
texts that are kept for later. -/
noncomputable def table (s : Interner) : Interner := { s with slots := s.slots.map r.slot }

theorem unresolved_injective : Function.Injective r.unresolved := by
  intro a b h
  unfold unresolved at h
  split at h
  · exact (Equiv.swap r.old r.new).injective h
  · exact h

theorem form_injective : Function.Injective r.form := by
  intro f g h
  cases f <;> cases g <;> simp only [form, Form.unresolved.injEq, reduceCtorEq] at h ⊢
  all_goals first | exact r.unresolved_injective h | exact h

theorem data_table (s : Interner) (t : TypeId) : (r.table s).data t = r.data (s.data t) := by
  unfold Interner.data table
  simp only [Array.getElem?_map]
  cases s.slots[t.index]? with
  | none => rfl
  | some slot => rfl

theorem members?_table (s : Interner) (t : TypeId) : (r.table s).members? t = s.members? t := by
  unfold Interner.members? table
  simp only [Array.getElem?_map]
  cases s.slots[t.index]? with
  | none => rfl
  | some slot => rfl

theorem indexes?_table (s : Interner) (t : TypeId) : (r.table s).indexes? t = s.indexes? t := by
  unfold Interner.indexes? table
  simp only [Array.getElem?_map]
  cases s.slots[t.index]? with
  | none => rfl
  | some slot => rfl

theorem hasForm_slot (f : Form) (slot : Slot) :
    Interner.Slot.hasForm (r.form f) (r.slot slot) = Interner.Slot.hasForm f slot := by
  unfold Interner.Slot.hasForm Renaming.slot
  cases slot.data with
  | form g => exact decide_eq_decide.2 r.form_injective.eq_iff
  | _ => rfl

theorem find?_table (s : Interner) (f : Form) : (r.table s).find? (r.form f) = s.find? f := by
  unfold Interner.find? table
  have hpred : Interner.Slot.hasForm (r.form f) ∘ r.slot = Interner.Slot.hasForm f :=
    funext (r.hasForm_slot f)
  rw [Array.findIdx?_map, hpred]

theorem push_table (s : Interner) (d : TypeData) :
    (r.table s).push (r.data d) = ((s.push d).1, r.table (s.push d).2) := by
  simp [Interner.push, table, slot]

theorem intern_table (s : Interner) (f : Form) :
    (r.table s).intern (r.form f) = ((s.intern f).1, r.table (s.intern f).2) := by
  unfold Interner.intern
  rw [find?_table]
  cases s.find? f with
  | some t => rfl
  | none => exact r.push_table s (.form f)

theorem modifySlot_table (s : Interner) (t : TypeId) {f g : Slot → Slot}
    (h : ∀ x, g (r.slot x) = r.slot (f x)) :
    (r.table s).modifySlot t g = r.table (s.modifySlot t f) := by
  unfold Interner.modifySlot table
  congr 1
  refine Array.ext_getElem? fun i => ?_
  simp only [Array.getElem?_modify, Array.getElem?_map]
  split
  · cases s.slots[i]? with
    | none => rfl
    | some x => exact congrArg some (h x)
  · rfl

theorem define_table (s : Interner) (t : TypeId) (d : TypeData) :
    (r.table s).define t (r.data d) = r.table (s.define t d) :=
  r.modifySlot_table s t fun _ => rfl

theorem setMembers_table (s : Interner) (t : TypeId) (ms : List TypeMember) :
    (r.table s).setMembers t ms = r.table (s.setMembers t ms) :=
  r.modifySlot_table s t fun _ => rfl

theorem setIndexes_table (s : Interner) (t : TypeId) (is : List TypeIndex) :
    (r.table s).setIndexes t is = r.table (s.setIndexes t is) :=
  r.modifySlot_table s t fun _ => rfl

theorem start_target : r.target.start = r.table u.start := by
  have hempty : r.table .empty = .empty := by simp [table, Interner.empty]
  unfold start
  rw [declarations_target, List.foldl_map]
  conv_lhs => rw [← hempty]
  refine List.foldl_hom r.table fun s p => ?_
  refine List.foldl_hom r.table fun s position => ?_
  exact congrArg Prod.snd (r.intern_table s (.param (.param p.1 position)))

/-! ## What tables are asked -/

theorem interface?_target (d : TypeData) :
    r.target.interface? (r.data d) = (u.interface? d).map fun (scope, bases, members, indexes) =>
      (scope, bases.map (r.text scope.unit), r.members scope.unit members,
        r.indexes scope.unit indexes) := by
  unfold interface?
  rcases d with f | _ | _ | _
  · cases f with
    | reference inst =>
      obtain ⟨symbol, args⟩ := inst
      cases symbol with
      | declared id =>
        simp only [data, form, declaration?_target]
        cases u.declaration? id with
        | none => rfl
        | some d =>
          obtain ⟨name, exported, line, params, body⟩ := d
          cases body <;> rfl
      | _ => rfl
    | _ => rfl
  all_goals rfl

theorem intrinsic?_data (d : TypeData) : (r.data d).intrinsic? = d.intrinsic? := by
  rcases d with f | _ | _ | _
  · cases f <;> rfl
  all_goals rfl

theorem literal?_data (d : TypeData) : (r.data d).literal? = d.literal? := by
  rcases d with f | _ | _ | _
  · cases f <;> rfl
  all_goals rfl

theorem union?_data (d : TypeData) : (r.data d).union? = d.union? := by
  rcases d with f | _ | _ | _
  · cases f <;> rfl
  all_goals rfl

theorem element?_data (d : TypeData) : (r.data d).element? = d.element? := by
  rcases d with f | _ | _ | _
  · cases f <;> rfl
  all_goals rfl

theorem symbol?_data (t : TypeId) (d : TypeData) : (r.data d).symbol? t = d.symbol? t := by
  rcases d with f | _ | ⟨origin, _⟩ | _
  · cases f <;> rfl
  · rfl
  · cases origin <;> rfl
  · rfl

theorem arguments_data (d : TypeData) : (r.data d).arguments = d.arguments := by
  rcases d with f | _ | ⟨origin, _⟩ | _
  · cases f <;> rfl
  · rfl
  · cases origin <;> rfl
  · rfl

theorem instance?_data (d : TypeData) : (r.data d).instance? = d.instance? := by
  rcases d with f | _ | ⟨origin, _⟩ | _
  · cases f <;> rfl
  · rfl
  · cases origin <;> rfl
  · rfl

theorem literal?_table (s : Interner) (t : TypeId) : (r.table s).literal? t = s.literal? t := by
  rw [Interner.literal?, data_table, literal?_data, Interner.literal?]

theorem intrinsic?_table (s : Interner) (t : TypeId) :
    (r.table s).intrinsic? t = s.intrinsic? t := by
  rw [Interner.intrinsic?, data_table, intrinsic?_data, Interner.intrinsic?]

theorem union?_table (s : Interner) (t : TypeId) : (r.table s).union? t = s.union? t := by
  rw [Interner.union?, data_table, union?_data, Interner.union?]

theorem element?_table (s : Interner) (t : TypeId) : (r.table s).element? t = s.element? t := by
  rw [Interner.element?, data_table, element?_data, Interner.element?]

theorem isNull_table (s : Interner) (t : TypeId) : (r.table s).isNull t = s.isNull t := by
  rw [Interner.isNull, intrinsic?_table, Interner.isNull]

theorem size_table (s : Interner) : (r.table s).slots.size = s.slots.size := Array.size_map

theorem literalKeys?_table (s : Interner) (key : TypeId) :
    literalKeys? (r.table s) key = literalKeys? s key := by
  simp only [literalKeys?, union?_table, literal?_table]

theorem isNullable_table (s : Interner) (t : TypeId) :
    (r.table s).isNullable t = s.isNullable t := by
  have hnull : (r.table s).isNull = s.isNull := funext (r.isNull_table s)
  simp only [Interner.isNullable, union?_table, size_table, hnull]

end Renaming
end Universe
end TypedJson
