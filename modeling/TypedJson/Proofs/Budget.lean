import Mathlib
import TypedJson.Proofs.Lookup
/-!
# What resolution may still cost

In a universe without type parameters every text of a declaration is resolved a bounded number
of times: an alias when its handle is made, a list of members or index signatures when it is
first asked for.  `Universe.budget` counts what is left to resolve together with the handles
that there are.  A new handle, a list and an alias under way are paid from it, so no question
adds to the budget, and with as much fuel as there is budget every question of this kind is
answered (`Universe.Affords`).

The budget has a share for each slot and one for each declaration.  A slot counts one, and
for each list that it lacks one more and what the texts of the list may cost; a declaration
counts what its body may cost until it is entered.  Every operation of the table changes one
of the shares, and the last section says by how much.
-/
namespace TypedJson

/-! ## Sums

The shares are summed over lists, and an operation changes one entry. -/

theorem sum_map_modify {α : Type} (g : α → Nat) (f : α → α) : ∀ (as : List α) (i : Nat)
    (hi : i < as.length), ((as.modify i f).map g).sum + g as[i] = (as.map g).sum + g (f as[i])
  | a :: as, 0, _ => by
    simp only [List.modify_zero_cons, List.map_cons, List.sum_cons, List.getElem_cons_zero]
    omega
  | a :: as, i + 1, hi => by
    have ih := sum_map_modify g f as i (Nat.lt_of_succ_lt_succ hi)
    simp only [List.modify_succ_cons, List.map_cons, List.sum_cons, List.getElem_cons_succ]
    omega

theorem sum_map_add_le {α : Type} {f g : α → Nat} {a : α} : ∀ {as : List α},
    (∀ x ∈ as, f x ≤ g x) → a ∈ as → (as.map f).sum + g a ≤ (as.map g).sum + f a
  | x :: as, h, ha => by
    obtain ⟨hx, hrest⟩ := List.forall_mem_cons.1 h
    have hsum : (as.map f).sum ≤ (as.map g).sum := List.sum_le_sum hrest
    simp only [List.map_cons, List.sum_cons]
    rcases List.mem_cons.1 ha with rfl | ha
    · omega
    · have ih := sum_map_add_le hrest ha
      omega

theorem sum_sizeOf_le {α : Type} [SizeOf α] (k : Nat) : ∀ as : List α,
    (as.map fun a => k * sizeOf a).sum + k ≤ k * sizeOf as
  | [] => by simp
  | a :: as => by
    have ih := sum_sizeOf_le k as
    have hsize : k * sizeOf (a :: as) = k + k * sizeOf a + k * sizeOf as := by
      rw [List.cons.sizeOf_spec]
      ring
    simp only [List.map_cons, List.sum_cons]
    omega

namespace Interner

theorem instance?_record (s : Interner) (i j : Instance) (t : TypeId) :
    (s.record i t).instance? j = if i = j then some t else s.instance? j := by
  unfold instance? record
  rw [List.find?_cons]
  by_cases h : i = j
  · simp [h]
  · simp [h]

/-- The second table keeps what the types of the first stand for, and no other alias is under
way. -/
structure Retains (s s' : Interner) : Prop where
  size : s.slots.size ≤ s'.slots.size
  data : ∀ t, s.Has t → s'.data t = s.data t
  expanding : s'.expanding = s.expanding

namespace Retains

theorem of_grows {s s' : Interner} (h : s.Grows s') (hexpanding : s'.expanding = s.expanding) :
    s.Retains s' := ⟨h.size, h.data, hexpanding⟩

theorem refl (s : Interner) : s.Retains s := of_grows (.refl s) rfl

theorem has {s s' : Interner} (h : s.Retains s') {t : TypeId} (ht : s.Has t) : s'.Has t :=
  Nat.lt_of_lt_of_le ht h.size

theorem trans {s₁ s₂ s₃ : Interner} (h₁ : s₁.Retains s₂) (h₂ : s₂.Retains s₃) : s₁.Retains s₃ where
  size := Nat.le_trans h₁.size h₂.size
  data := fun t ht => (h₂.data t (h₁.has ht)).trans (h₁.data t ht)
  expanding := h₂.expanding.trans h₁.expanding

theorem push (s : Interner) (d : TypeData) : s.Retains (s.push d).2 := of_grows (.push s d) rfl

theorem record {s s' : Interner} (h : s.Retains s') (i : Instance) (t : TypeId) :
    s.Retains (s'.record i t) := ⟨h.size, h.data, h.expanding⟩

theorem define {s s' : Interner} (h : s.Retains s') {t : TypeId} (ht : s'.Has t) (hs : ¬ s.Has t)
    (d : TypeData) : s.Retains (s'.define t d) where
  size := by rw [Interner.define, size_modifySlot]; exact h.size
  data := by
    intro x hx
    have hne : t ≠ x := fun e => hs (e ▸ hx)
    rw [data_define ht, if_neg hne, h.data x hx]
  expanding := h.expanding

theorem setMembers {s s' : Interner} (h : s.Retains s') (t : TypeId) (ms : List TypeMember) :
    s.Retains (s'.setMembers t ms) where
  size := by rw [Interner.setMembers, size_modifySlot]; exact h.size
  data := fun x hx => by rw [data_setMembers]; exact h.data x hx
  expanding := h.expanding

theorem setIndexes {s s' : Interner} (h : s.Retains s') (t : TypeId) (is : List TypeIndex) :
    s.Retains (s'.setIndexes t is) where
  size := by rw [Interner.setIndexes, size_modifySlot]; exact h.size
  data := fun x hx => by rw [data_setIndexes]; exact h.data x hx
  expanding := h.expanding

end Retains
end Interner

namespace Universe

/-! ## The budget

A declaration is entered when its handle is in the table, or when it is an alias under way.
Nothing that is entered is ever left out again, so the second share only drops. -/

/-- No declaration has type parameters. -/
def Monomorphic (u : Universe) : Prop := ∀ d ∈ u.declarations, d.2.typeParams = []

/-- What it may cost to resolve the expressions that the members come from. -/
noncomputable def memberCost (u : Universe) (d : TypeData) : Nat :=
  match u.interface? d with
  | some (_, bases, members, _) => 10 * sizeOf members + 10 * sizeOf bases
  | none =>
    match d with
    | .object _ (.literal members _ _) => 10 * sizeOf members
    | _ => 0

/-- What it may cost to resolve the expressions that the index signatures come from. -/
noncomputable def indexCost (u : Universe) (d : TypeData) : Nat :=
  match u.interface? d with
  | some (_, bases, _, indexes) => 10 * sizeOf indexes + 10 * sizeOf bases
  | none =>
    match d with
    | .object _ (.literal _ indexes _) => 10 * sizeOf indexes
    | _ => 0

/-- A handle counts for itself and for the lists that it lacks. -/
noncomputable def slotBudget (u : Universe) (slot : Slot) : Nat :=
  1 + (if slot.members.isSome then 0 else 1 + u.memberCost slot.data) +
    (if slot.indexes.isSome then 0 else 1 + u.indexCost slot.data)

/-- The declaration has its handle, or it is an alias under way. -/
def IsEntered (s : Interner) (id : DeclarationId) : DeclarationBody → Prop
  | .typeAlias body => (∃ t, s.instance? ⟨.declared id, []⟩ = some t) ∨
    (body.isStructure = false ∧ ⟨.declared id, []⟩ ∈ s.expanding)
  | .interface _ _ _ | .enum _ => ∃ t, s.data t = .form (.reference ⟨.declared id, []⟩)

open Classical in
/-- A declaration counts until it is entered. -/
noncomputable def declarationBudget (s : Interner) (entry : DeclarationId × Declaration) : Nat :=
  if IsEntered s entry.1 entry.2.body then 0 else 20 * sizeOf entry.2.body

/-- The handles that there are and what there is left to resolve. -/
noncomputable def budget (u : Universe) (s : Interner) : Nat :=
  (s.slots.toList.map u.slotBudget).sum + (u.declarations.map (declarationBudget s)).sum

variable {u : Universe} {s s' : Interner} {t : TypeId}

theorem size_le_budget (u : Universe) (s : Interner) : s.slots.size ≤ u.budget s := by
  have hone : s.slots.toList.length • 1 ≤ (s.slots.toList.map u.slotBudget).sum := by
    rw [← List.length_map (f := u.slotBudget)]
    refine List.card_nsmul_le_sum _ _ fun b hb => ?_
    obtain ⟨slot, -, rfl⟩ := List.mem_map.1 hb
    unfold slotBudget
    omega
  rw [smul_eq_mul, mul_one, Array.length_toList] at hone
  unfold budget
  omega

theorem declarationBudget_le {entry : DeclarationId × Declaration}
    (h : IsEntered s entry.1 entry.2.body → IsEntered s' entry.1 entry.2.body) :
    declarationBudget s' entry ≤ declarationBudget s entry := by
  unfold declarationBudget
  by_cases hs : IsEntered s entry.1 entry.2.body
  · rw [if_pos (h hs)]
    exact Nat.zero_le _
  · rw [if_neg hs]
    split <;> omega

/-- The declarations of the first table that are entered are so in the second. -/
def EntersNoLess (s s' : Interner) : Prop :=
  ∀ id body, IsEntered s id body → IsEntered s' id body

theorem entersNoLess_of {s s' : Interner}
    (hinstances : ∀ i t, s.instance? i = some t → ∃ t', s'.instance? i = some t')
    (hexpanding : ∀ i ∈ s.expanding, i ∈ s'.expanding ∨ ∃ t, s'.instance? i = some t)
    (hdata : ∀ t f, s.data t = .form f → s'.data t = .form f) : EntersNoLess s s' := by
  intro id body h
  cases body with
  | typeAlias body =>
    rcases h with ⟨t, ht⟩ | ⟨hopen, h⟩
    · exact .inl (hinstances _ t ht)
    · exact (hexpanding _ h).symm.imp_right fun h => ⟨hopen, h⟩
  | interface | enum =>
    obtain ⟨t, ht⟩ := h
    exact ⟨t, hdata t _ ht⟩

theorem sum_declarations_le (h : EntersNoLess s s') :
    (u.declarations.map (declarationBudget s')).sum ≤
      (u.declarations.map (declarationBudget s)).sum :=
  List.sum_le_sum fun entry _ => declarationBudget_le (h entry.1 entry.2.body)

/-- **To enter a declaration releases what its body may cost.** -/
theorem sum_declarations_enter (h : EntersNoLess s s') {id : DeclarationId} {d : Declaration}
    (hd : u.declaration? id = some d) (hs : ¬ IsEntered s id d.body) (hs' : IsEntered s' id d.body) :
    (u.declarations.map (declarationBudget s')).sum + 20 * sizeOf d.body ≤
      (u.declarations.map (declarationBudget s)).sum := by
  have hle := sum_map_add_le (f := declarationBudget s') (g := declarationBudget s)
    (fun entry _ => declarationBudget_le (h entry.1 entry.2.body)) (mem_declarations_iff.2 hd)
  have hbefore : declarationBudget s (id, d) = 20 * sizeOf d.body := if_neg hs
  have hafter : declarationBudget s' (id, d) = 0 := if_pos hs'
  omega

theorem budget_le_of_slots_eq (h : EntersNoLess s s') (hslots : s'.slots = s.slots) :
    u.budget s' ≤ u.budget s := by
  have hle := sum_declarations_le (u := u) h
  unfold budget
  rw [hslots]
  omega

theorem budget_enter_of_slots_eq (h : EntersNoLess s s') (hslots : s'.slots = s.slots)
    {id : DeclarationId} {d : Declaration} (hd : u.declaration? id = some d)
    (hs : ¬ IsEntered s id d.body) (hs' : IsEntered s' id d.body) :
    u.budget s' + 20 * sizeOf d.body ≤ u.budget s := by
  have hle := sum_declarations_enter h hd hs hs'
  unfold budget
  rw [hslots]
  omega

/-! ## What each operation takes from the budget

A new slot is paid by the caller.  What it lacks is paid when its data is put in, and is
given back when the first list is kept. -/

theorem sum_slots_push (u : Universe) (s : Interner) (d : TypeData) :
    ((s.push d).2.slots.toList.map u.slotBudget).sum =
      (s.slots.toList.map u.slotBudget).sum + (3 + u.memberCost d + u.indexCost d) := by
  have hslot : u.slotBudget ⟨d, none, none⟩ = 3 + u.memberCost d + u.indexCost d := by
    simp only [slotBudget, Option.isSome_none, Bool.false_eq_true, if_false]
    omega
  simp only [Interner.push, Array.toList_push, List.map_append, List.map_cons, List.map_nil,
    List.sum_append, List.sum_cons, List.sum_nil, hslot, Nat.add_zero]

theorem entersNoLess_push (s : Interner) (d : TypeData) : EntersNoLess s (s.push d).2 := by
  refine entersNoLess_of (fun i t h => ⟨t, h⟩) (fun i h => .inl h) fun t f ht => ?_
  have hhas : s.Has t := Interner.has_of_data_ne (by rw [ht]; exact fun h => by cases h)
  rw [(Interner.Grows.push s d).data t hhas, ht]

theorem budget_push (u : Universe) (s : Interner) (d : TypeData) :
    u.budget (s.push d).2 ≤ u.budget s + (3 + u.memberCost d + u.indexCost d) := by
  have hslots := sum_slots_push u s d
  have hdeclarations := sum_declarations_le (u := u) (entersNoLess_push s d)
  unfold budget
  omega

theorem slot_data (hhas : s.Has t) : s.data t = s.slots[t.index].data := by
  simp [Interner.data, Array.getElem?_eq_getElem hhas]

theorem budget_modifySlot (hhas : s.Has t) {f : Slot → Slot} {r c : Nat}
    (hslot : u.slotBudget (f s.slots[t.index]) + r ≤ u.slotBudget s.slots[t.index] + c)
    (hdata : ∀ x g, s.data x = .form g → (s.modifySlot t f).data x = .form g) :
    u.budget (s.modifySlot t f) + r ≤ u.budget s + c := by
  have henters : EntersNoLess s (s.modifySlot t f) :=
    entersNoLess_of (fun _ x h => ⟨x, h⟩) (fun _ h => .inl h) hdata
  have hdeclarations := sum_declarations_le (u := u) henters
  have hsum := sum_map_modify u.slotBudget f s.slots.toList t.index
    (by rw [Array.length_toList]; exact hhas)
  rw [Array.getElem_toList] at hsum
  have hslots : (s.modifySlot t f).slots.toList = s.slots.toList.modify t.index f :=
    Array.toList_modify ..
  unfold budget
  rw [hslots]
  omega

theorem modifySlot_of_not_has (hhas : ¬ s.Has t) (f : Slot → Slot) : s.modifySlot t f = s := by
  have hmodify : s.slots.modify t.index f = s.slots := by
    refine Array.ext (by simp) fun i hi hi' => ?_
    have hne : t.index ≠ i := by
      rintro rfl
      exact hhas hi'
    rw [Array.getElem_modify, if_neg hne]
  unfold Interner.modifySlot
  rw [hmodify]

theorem budget_define (hhas : s.Has t) (hopen : s.data t = .reserved) (d : TypeData) :
    u.budget (s.define t d) ≤ u.budget s + (u.memberCost d + u.indexCost d) := by
  refine budget_modifySlot (r := 0) hhas ?_ fun x g hx => ?_
  · dsimp only [slotBudget]
    split <;> split <;> omega
  · have hne : t ≠ x := by
      rintro rfl
      rw [hopen] at hx
      cases hx
    have hdata := Interner.data_define hhas d x
    rw [if_neg hne, hx] at hdata
    exact hdata

theorem setMembers_form (s : Interner) (t : TypeId) (ms : List TypeMember) (x : TypeId) (g : Form)
    (hx : s.data x = .form g) : (s.setMembers t ms).data x = .form g := by
  rw [Interner.data_setMembers, hx]

theorem setIndexes_form (s : Interner) (t : TypeId) (is : List TypeIndex) (x : TypeId) (g : Form)
    (hx : s.data x = .form g) : (s.setIndexes t is).data x = .form g := by
  rw [Interner.data_setIndexes, hx]

theorem budget_setMembers (u : Universe) (s : Interner) (t : TypeId) (ms : List TypeMember) :
    u.budget (s.setMembers t ms) ≤ u.budget s := by
  by_cases hhas : s.Has t
  · refine budget_modifySlot (r := 0) (c := 0) hhas ?_ (setMembers_form s t ms)
    dsimp only [slotBudget, Option.isSome_some]
    rw [if_pos rfl]
    omega
  · rw [Interner.setMembers, modifySlot_of_not_has hhas]

/-- **A first list of members releases what the members may cost.** -/
theorem budget_setMembers_first (hhas : s.Has t) (hnone : s.members? t = none)
    (ms : List TypeMember) :
    u.budget (s.setMembers t ms) + (1 + u.memberCost (s.data t)) ≤ u.budget s := by
  have hmembers : s.slots[t.index].members = none := by
    simpa [Interner.members?, Array.getElem?_eq_getElem hhas] using hnone
  refine budget_modifySlot (c := 0) hhas ?_ (setMembers_form s t ms)
  rw [slot_data hhas]
  dsimp only [slotBudget, Option.isSome_some]
  rw [if_pos rfl, hmembers, Option.isSome_none, if_neg Bool.false_ne_true]
  omega

theorem budget_setIndexes (u : Universe) (s : Interner) (t : TypeId) (is : List TypeIndex) :
    u.budget (s.setIndexes t is) ≤ u.budget s := by
  by_cases hhas : s.Has t
  · refine budget_modifySlot (r := 0) (c := 0) hhas ?_ (setIndexes_form s t is)
    dsimp only [slotBudget, Option.isSome_some]
    rw [if_pos rfl]
    omega
  · rw [Interner.setIndexes, modifySlot_of_not_has hhas]

/-- **A first list of index signatures releases what these may cost.** -/
theorem budget_setIndexes_first (hhas : s.Has t) (hnone : s.indexes? t = none)
    (is : List TypeIndex) :
    u.budget (s.setIndexes t is) + (1 + u.indexCost (s.data t)) ≤ u.budget s := by
  have hindexes : s.slots[t.index].indexes = none := by
    simpa [Interner.indexes?, Array.getElem?_eq_getElem hhas] using hnone
  refine budget_modifySlot (c := 0) hhas ?_ (setIndexes_form s t is)
  rw [slot_data hhas]
  dsimp only [slotBudget, Option.isSome_some]
  rw [if_pos rfl, hindexes, Option.isSome_none, if_neg Bool.false_ne_true]
  omega

end Universe
end TypedJson
