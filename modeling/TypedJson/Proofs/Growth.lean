import TypedJson.Types.Query
/-!
# How the table of types grows

The table of types only ever grows: a handle keeps its meaning, and a list of members or
index signatures that was computed is kept (`Interner.Grows`).  A table is sound for a
universe if it refers to handles it has and if every type in it is one that the
declarations can lead to (`Universe.Sound`).

Soundness is an invariant of the table with a clause for each thing that later proofs read
off a handle: its parts are handles, its data is lawful, and what is kept of members and
index signatures belongs to a type that can have them.  Each operation of the table changes
one slot or adds one, so `Sound.of_changes` states once what has to be checked of such a
change, and the lemmas for the single operations are instances of it.
-/
namespace TypedJson

theorem TypeId.index_injective : Function.Injective TypeId.index := by
  rintro ⟨i⟩ ⟨j⟩ h
  exact congrArg TypeId.mk h

/-- The handles that a shape refers to. -/
def Shape.parts : Shape → List TypeId
  | .literal _ _ scope => scope.params.map (·.2)
  | .intersection parts => parts
  | .record key value => [key, value]

/-- The handles that a type refers to. -/
def TypeData.parts : TypeData → List TypeId
  | .form (.array element) => [element]
  | .form (.reference inst) => inst.args
  | .form (.union branches) => branches
  | .namedUnion origin branches => origin.args ++ branches
  | .object (some origin) shape => origin.args ++ shape.parts
  | .object none shape => shape.parts
  | _ => []

/-- The type has no members of its own, whatever its parts have. -/
def TypeData.isBare : TypeData → Bool
  | .form (.reference _) => false
  | .object _ _ => false
  | _ => true

namespace TypeData

/-! ## What the answers say of the type

The questions look at one constructor of the data each.  They are inverted here once, so that
later proofs go from an answer to the data and never unfold the question. -/

theorem intrinsic?_eq_some_iff {d : TypeData} {i : Intrinsic} :
    d.intrinsic? = some i ↔ d = .form (.intrinsic i) := by
  constructor
  · intro h
    unfold intrinsic? at h
    split at h
    · cases h
      rfl
    · cases h
  · rintro rfl
    rfl

theorem literal?_eq_some_iff {d : TypeData} {value : Literal} :
    d.literal? = some value ↔ d = .form (.literal value) := by
  constructor
  · intro h
    unfold literal? at h
    split at h
    · cases h
      rfl
    · cases h
  · rintro rfl
    rfl

theorem element?_eq_some_iff {d : TypeData} {element : TypeId} :
    d.element? = some element ↔ d = .form (.array element) := by
  constructor
  · intro h
    unfold element? at h
    split at h
    · cases h
      rfl
    · cases h
  · rintro rfl
    rfl

theorem union?_eq_some_iff {d : TypeData} {branches : List TypeId} :
    d.union? = some branches ↔
      d = .form (.union branches) ∨ ∃ origin, d = .namedUnion origin branches := by
  constructor
  · intro h
    unfold union? at h
    split at h
    · cases h
      exact .inl rfl
    · rename_i origin _
      cases h
      exact .inr ⟨origin, rfl⟩
    · cases h
  · rintro (rfl | ⟨origin, rfl⟩)
    · rfl
    · rfl

theorem symbol?_of_instance? (t : TypeId) {d : TypeData} {inst : Instance}
    (h : d.instance? = some inst) : d.symbol? t = some inst.symbol := by
  unfold instance? at h
  split at h
  · cases h
    rfl
  · cases h
    rfl
  · cases h
    rfl
  · cases h

theorem element?_parts {d : TypeData} {element : TypeId} (h : d.element? = some element) :
    element ∈ d.parts := by
  rw [element?_eq_some_iff.1 h]
  exact List.mem_cons_self

theorem union?_parts {d : TypeData} {branches : List TypeId} (h : d.union? = some branches) :
    branches ⊆ d.parts := by
  rcases union?_eq_some_iff.1 h with rfl | ⟨origin, rfl⟩
  · exact List.Subset.refl branches
  · exact List.subset_append_right origin.args branches

theorem arguments_parts (d : TypeData) : d.arguments ⊆ d.parts := by
  intro a ha
  unfold arguments at ha
  split at ha
  · exact ha
  · exact ha
  · exact List.mem_append_left _ ha
  · exact List.mem_append_left _ ha
  · cases ha

end TypeData

namespace Interner

theorem isNull_iff {s : Interner} {t : TypeId} :
    s.isNull t = true ↔ s.data t = .form (.intrinsic .null) := by
  rw [isNull, beq_iff_eq, intrinsic?, TypeData.intrinsic?_eq_some_iff]

/-- The table has the handle. -/
def Has (s : Interner) (t : TypeId) : Prop := t.index < s.slots.size

/-! ## Slots

A slot is read by its data, its members and its index signatures, and it is written by
adding a slot or modifying one.  The lemmas go by pairs of these: adding or modifying leaves
every other slot as it reads (`read_modifySlot`), whatever is read. -/

theorem data_of_not_has {s : Interner} {t : TypeId} (h : ¬ s.Has t) : s.data t = .reserved := by
  unfold data
  rw [Array.getElem?_eq_none (Nat.le_of_not_lt h)]

theorem has_of_data_ne {s : Interner} {t : TypeId} (h : s.data t ≠ .reserved) : s.Has t :=
  Classical.byContradiction fun hn => h (data_of_not_has hn)

@[simp] theorem size_push (s : Interner) (d : TypeData) :
    (s.push d).2.slots.size = s.slots.size + 1 := by simp [push]

theorem slots_push (s : Interner) (d : TypeData) (t : TypeId) :
    (s.push d).2.slots[t.index]? =
      if t.index = s.slots.size then some ⟨d, none, none⟩ else s.slots[t.index]? := by
  rw [push, Array.getElem?_push]

theorem data_push (s : Interner) (d : TypeData) (t : TypeId) :
    (s.push d).2.data t = if t.index = s.slots.size then d else s.data t := by
  unfold data
  rw [slots_push]
  by_cases h : t.index = s.slots.size
  · simp [h]
  · simp [h]

theorem has_push_new (s : Interner) (d : TypeData) : (s.push d).2.Has (s.push d).1 := by
  show s.slots.size < (s.push d).2.slots.size
  rw [size_push]
  exact Nat.lt_succ_self _

theorem data_push_new (s : Interner) (d : TypeData) : (s.push d).2.data (s.push d).1 = d := by
  show (s.push d).2.data ⟨s.slots.size⟩ = d
  rw [data_push, if_pos rfl]

theorem members?_push (s : Interner) (d : TypeData) (t : TypeId) :
    (s.push d).2.members? t = s.members? t := by
  unfold members?
  rw [slots_push]
  by_cases h : t.index = s.slots.size
  · simp [h]
  · simp [h]

theorem indexes?_push (s : Interner) (d : TypeData) (t : TypeId) :
    (s.push d).2.indexes? t = s.indexes? t := by
  unfold indexes?
  rw [slots_push]
  by_cases h : t.index = s.slots.size
  · simp [h]
  · simp [h]

@[simp] theorem size_modifySlot (s : Interner) (t : TypeId) (f : Slot → Slot) :
    (s.modifySlot t f).slots.size = s.slots.size := by simp [modifySlot]

theorem has_modifySlot (s : Interner) (t : TypeId) (f : Slot → Slot) {x : TypeId} :
    (s.modifySlot t f).Has x ↔ s.Has x := by
  unfold Has
  rw [size_modifySlot]

theorem slots_modifySlot (s : Interner) (t x : TypeId) (f : Slot → Slot) :
    (s.modifySlot t f).slots[x.index]? =
      if t = x then s.slots[x.index]?.map f else s.slots[x.index]? := by
  simp only [modifySlot, Array.getElem?_modify, TypeId.index_injective.eq_iff]

/-- Only the slot that is modified can read differently. -/
theorem read_modifySlot {α : Type} (read : Option Slot → α) (s : Interner) (t x : TypeId)
    (f : Slot → Slot) (hf : ∀ slot, read (some (f slot)) = read (some slot)) :
    read (s.modifySlot t f).slots[x.index]? = read s.slots[x.index]? := by
  rw [slots_modifySlot]
  by_cases h : t = x
  · rw [if_pos h]
    cases s.slots[x.index]? with
    | none => rfl
    | some slot => exact hf slot
  · rw [if_neg h]

/-- A slot of the table reads as it was modified. -/
theorem read_modifySlot_of_has {α : Type} (read : Option Slot → α) {s : Interner} {t : TypeId}
    (ht : s.Has t) (x : TypeId) (f : Slot → Slot) {a : α}
    (hf : ∀ slot, read (some (f slot)) = a) :
    read (s.modifySlot t f).slots[x.index]? = if t = x then a else read s.slots[x.index]? := by
  rw [slots_modifySlot]
  by_cases h : t = x
  · subst h
    rw [if_pos rfl, if_pos rfl, Array.getElem?_eq_getElem ht]
    exact hf _
  · rw [if_neg h, if_neg h]

/-- What stands in a slot, if there is one. -/
def readData : Option Slot → TypeData
  | some slot => slot.data
  | none => .reserved

theorem data_define {s : Interner} {t : TypeId} (h : s.Has t) (d : TypeData) (x : TypeId) :
    (s.define t d).data x = if t = x then d else s.data x :=
  read_modifySlot_of_has readData h x _ fun _ => rfl

theorem members?_define (s : Interner) (t : TypeId) (d : TypeData) (x : TypeId) :
    (s.define t d).members? x = s.members? x :=
  read_modifySlot (·.bind Slot.members) s t x _ fun _ => rfl

theorem indexes?_define (s : Interner) (t : TypeId) (d : TypeData) (x : TypeId) :
    (s.define t d).indexes? x = s.indexes? x :=
  read_modifySlot (·.bind Slot.indexes) s t x _ fun _ => rfl

theorem data_setMembers (s : Interner) (t : TypeId) (ms : List TypeMember) (x : TypeId) :
    (s.setMembers t ms).data x = s.data x :=
  read_modifySlot readData s t x _ fun _ => rfl

theorem indexes?_setMembers (s : Interner) (t : TypeId) (ms : List TypeMember) (x : TypeId) :
    (s.setMembers t ms).indexes? x = s.indexes? x :=
  read_modifySlot (·.bind Slot.indexes) s t x _ fun _ => rfl

theorem members?_setMembers {s : Interner} {t : TypeId} (h : s.Has t) (ms : List TypeMember)
    (x : TypeId) : (s.setMembers t ms).members? x = if t = x then some ms else s.members? x :=
  read_modifySlot_of_has (·.bind Slot.members) h x _ fun _ => rfl

theorem data_setIndexes (s : Interner) (t : TypeId) (is : List TypeIndex) (x : TypeId) :
    (s.setIndexes t is).data x = s.data x :=
  read_modifySlot readData s t x _ fun _ => rfl

theorem members?_setIndexes (s : Interner) (t : TypeId) (is : List TypeIndex) (x : TypeId) :
    (s.setIndexes t is).members? x = s.members? x :=
  read_modifySlot (·.bind Slot.members) s t x _ fun _ => rfl

theorem indexes?_setIndexes {s : Interner} {t : TypeId} (h : s.Has t) (is : List TypeIndex)
    (x : TypeId) : (s.setIndexes t is).indexes? x = if t = x then some is else s.indexes? x :=
  read_modifySlot_of_has (·.bind Slot.indexes) h x _ fun _ => rfl

theorem data_of_find? {s : Interner} {f : Form} {t : TypeId} (h : s.find? f = some t) :
    s.Has t ∧ s.data t = .form f := by
  obtain ⟨i, hi, rfl⟩ := Option.map_eq_some_iff.1 h
  obtain ⟨hlt, hform, -⟩ := Array.findIdx?_eq_some_iff_getElem.1 hi
  refine ⟨hlt, ?_⟩
  simp only [data, Array.getElem?_eq_getElem hlt]
  unfold Slot.hasForm at hform
  split at hform
  · rename_i g hdata
    rw [hdata, of_decide_eq_true hform]
  · cases hform

/-- A form has a handle exactly if some handle stands for it. -/
theorem find?_eq_none_iff {s : Interner} {f : Form} :
    s.find? f = none ↔ ∀ t, s.data t ≠ .form f := by
  constructor
  · intro h t ht
    have hhas : s.Has t := has_of_data_ne (by rw [ht]; exact fun h => by cases h)
    obtain ⟨slot, hslot, hdata⟩ : ∃ slot ∈ s.slots, slot.data = .form f := by
      refine ⟨_, Array.getElem_mem hhas, ?_⟩
      simpa [data, Array.getElem?_eq_getElem hhas] using ht
    have hnone := Array.findIdx?_eq_none_iff.1 (Option.map_eq_none_iff.1 h) slot hslot
    simp [Slot.hasForm, hdata] at hnone
  · intro h
    cases hfind : s.find? f with
    | none => rfl
    | some t => exact absurd (data_of_find? hfind).2 (h t)

theorem mem_of_instance? {s : Interner} {inst : Instance} {t : TypeId}
    (h : s.instance? inst = some t) : (inst, t) ∈ s.instances := by
  obtain ⟨⟨inst', t'⟩, hentry, rfl⟩ := Option.map_eq_some_iff.1 h
  have hinst : inst' = inst := by simpa using List.find?_some hentry
  rw [← hinst]
  exact List.mem_of_find?_eq_some hentry

theorem not_mem_of_instance? {s : Interner} {inst : Instance} (h : s.instance? inst = none)
    (t : TypeId) : (inst, t) ∉ s.instances := by
  intro hmem
  rw [instance?, Option.map_eq_none_iff, List.find?_eq_none] at h
  simpa using h _ hmem

/-- The only handle of a form is found. -/
theorem find?_of_data {s : Interner} {f : Form} {t : TypeId} (ht : s.data t = .form f)
    (hunique : ∀ x, s.data x = .form f → x = t) : s.find? f = some t := by
  cases hfind : s.find? f with
  | some x => rw [hunique x (data_of_find? hfind).2]
  | none => exact absurd ht (find?_eq_none_iff.1 hfind t)

/-- What is noted for an instance is found again, if it is noted for it alone. -/
theorem instance?_of_mem {s : Interner} {inst : Instance} {t : TypeId}
    (ht : (inst, t) ∈ s.instances) (hunique : ∀ x, (inst, x) ∈ s.instances → x = t) :
    s.instance? inst = some t := by
  cases hfind : s.instance? inst with
  | some x => rw [hunique x (mem_of_instance? hfind)]
  | none => exact absurd ht (not_mem_of_instance? hfind t)

/-! ## Growth

Growth keeps the data of every handle, and a placeholder is data too.  So a handle that is
reserved has to be filled in before anything is said to have grown: `define` asks for one
that the first table lacks. -/

/-- The second table has all that the first has, with the same meaning. -/
structure Grows (s s' : Interner) : Prop where
  size : s.slots.size ≤ s'.slots.size
  data : ∀ t, s.Has t → s'.data t = s.data t
  members : ∀ t ms, s.members? t = some ms → s'.members? t = some ms
  indexes : ∀ t is, s.indexes? t = some is → s'.indexes? t = some is

namespace Grows

theorem refl (s : Interner) : s.Grows s :=
  ⟨Nat.le_refl _, fun _ _ => rfl, fun _ _ h => h, fun _ _ h => h⟩

theorem of_slots_eq {s s' : Interner} (h : s'.slots = s.slots) : s.Grows s' := by
  obtain ⟨slots', instances', expanding'⟩ := s'
  obtain rfl : slots' = s.slots := h
  exact ⟨Nat.le_refl _, fun _ _ => rfl, fun _ _ h => h, fun _ _ h => h⟩

theorem has {s s' : Interner} (h : s.Grows s') {t : TypeId} (ht : s.Has t) : s'.Has t :=
  Nat.lt_of_lt_of_le ht h.size

theorem trans {s₁ s₂ s₃ : Interner} (h₁ : s₁.Grows s₂) (h₂ : s₂.Grows s₃) : s₁.Grows s₃ where
  size := Nat.le_trans h₁.size h₂.size
  data := fun t ht => (h₂.data t (h₁.has ht)).trans (h₁.data t ht)
  members := fun t ms hm => h₂.members t ms (h₁.members t ms hm)
  indexes := fun t is hi => h₂.indexes t is (h₁.indexes t is hi)

theorem push (s : Interner) (d : TypeData) : s.Grows (s.push d).2 where
  size := by rw [size_push]; exact Nat.le_succ _
  data := by
    intro t ht
    rw [data_push, if_neg (Nat.ne_of_lt ht)]
  members := fun t ms hm => by rw [members?_push]; exact hm
  indexes := fun t is hi => by rw [indexes?_push]; exact hi

/-- A handle that the first table lacks may still be filled in. -/
theorem define {s s' : Interner} (h : s.Grows s') {t : TypeId} (ht : s'.Has t) (hs : ¬ s.Has t)
    (d : TypeData) : s.Grows (s'.define t d) where
  size := by rw [Interner.define, size_modifySlot]; exact h.size
  data := by
    intro x hx
    have hne : t ≠ x := fun e => hs (e ▸ hx)
    rw [data_define ht, if_neg hne, h.data x hx]
  members := fun x ms hm => by rw [members?_define]; exact h.members x ms hm
  indexes := fun x is hi => by rw [indexes?_define]; exact h.indexes x is hi

theorem setMembers {s s' : Interner} (h : s.Grows s') {t : TypeId} (ht : s'.Has t)
    (hs : s.members? t = none) (ms : List TypeMember) : s.Grows (s'.setMembers t ms) where
  size := by rw [Interner.setMembers, size_modifySlot]; exact h.size
  data := fun x hx => by rw [data_setMembers]; exact h.data x hx
  members := by
    intro x ms' hx
    have hne : t ≠ x := by
      rintro rfl
      rw [hs] at hx
      cases hx
    rw [members?_setMembers ht, if_neg hne]
    exact h.members x ms' hx
  indexes := fun x is hi => by rw [indexes?_setMembers]; exact h.indexes x is hi

theorem setIndexes {s s' : Interner} (h : s.Grows s') {t : TypeId} (ht : s'.Has t)
    (hs : s.indexes? t = none) (is : List TypeIndex) : s.Grows (s'.setIndexes t is) where
  size := by rw [Interner.setIndexes, size_modifySlot]; exact h.size
  data := fun x hx => by rw [data_setIndexes]; exact h.data x hx
  members := fun x ms hm => by rw [members?_setIndexes]; exact h.members x ms hm
  indexes := by
    intro x is' hx
    have hne : t ≠ x := by
      rintro rfl
      rw [hs] at hx
      cases hx
    rw [indexes?_setIndexes ht, if_neg hne]
    exact h.indexes x is' hx

end Grows
end Interner

/-! ## Soundness

`Lawful` is about the declarations that a type refers to, which never change, and so it need
not be looked at again when the table grows. -/

namespace Universe

/-- The symbol is that of an alias. -/
def IsAlias (u : Universe) (symbol : Symbol) : Prop :=
  ∃ id d body, symbol = .declared id ∧ u.declaration? id = some d ∧ d.body = .typeAlias body

/-- The type is one that the resolution of declarations can lead to. -/
def Lawful (u : Universe) : TypeData → Prop
  | .form (.unresolved name) =>
    (Intrinsic.ofName? name = none ∧ Builtin.ofName? name = none) ∨
      ∃ id d, u.declaration? id = some d ∧ d.name = name
  | .form (.param symbol) =>
    ∃ id position d, symbol = .param id position ∧ u.declaration? id = some d ∧
      position < d.typeParams.length
  | .form (.reference inst) =>
    (∃ b, (b = .date ∨ b = .pattern) ∧ inst = ⟨.builtin b, []⟩) ∨
      ∃ id d, inst.symbol = .declared id ∧ u.declaration? id = some d ∧
        DeclarationBody.kind d.body ≠ .typeAlias
  | .namedUnion origin _ => u.IsAlias origin.symbol
  | .object (some origin) (.record key value) => origin = ⟨.builtin .record, [key, value]⟩
  | .object (some origin) _ => u.IsAlias origin.symbol
  | .object none (.record _ _) => False
  | _ => True

/-- The table refers to handles that it has, its types are lawful, and only interfaces and
objects have members and index signatures. -/
structure Sound (u : Universe) (s : Interner) : Prop where
  parts : ∀ t, ∀ p ∈ (s.data t).parts, s.Has p
  lawful : ∀ t, u.Lawful (s.data t)
  members : ∀ t ms, s.members? t = some ms → ∀ m ∈ ms, ∀ p, m.type = some p → s.Has p
  indexes : ∀ t is, s.indexes? t = some is → ∀ x ∈ is, s.Has x.key ∧ s.Has x.value
  instances : ∀ entry ∈ s.instances, s.Has entry.2
  bare : ∀ t, (s.data t).isBare = true →
    (∀ ms, s.members? t = some ms → ms = []) ∧ ∀ is, s.indexes? t = some is → is = []

namespace Sound

theorem empty (u : Universe) : u.Sound .empty where
  parts := fun _ _ h => by cases h
  lawful := fun _ => trivial
  members := fun _ _ h => by cases h
  indexes := fun _ _ h => by cases h
  instances := fun _ h => by cases h
  bare := fun _ _ => ⟨fun _ h => (by cases h), fun _ h => (by cases h)⟩

variable {u : Universe} {s : Interner}

/-- A table stays sound if it keeps its handles and if what changes in it is sound. -/
theorem of_changes (h : u.Sound s) {s' : Interner} (hhas : ∀ x, s.Has x → s'.Has x)
    (hdata : ∀ x, s'.data x = s.data x ∨
      ((∀ p ∈ (s'.data x).parts, s'.Has p) ∧ u.Lawful (s'.data x)))
    (hmembers : ∀ x ms, s'.members? x = some ms → s.members? x = some ms ∨
      ∀ m ∈ ms, ∀ p, m.type = some p → s'.Has p)
    (hindexes : ∀ x is, s'.indexes? x = some is → s.indexes? x = some is ∨
      ∀ y ∈ is, s'.Has y.key ∧ s'.Has y.value)
    (hinstances : s'.instances = s.instances)
    (hbare : ∀ x, (s'.data x).isBare = true →
      (∀ ms, s'.members? x = some ms → ms = []) ∧ ∀ is, s'.indexes? x = some is → is = []) :
    u.Sound s' where
  parts := by
    intro x p hp
    rcases hdata x with heq | ⟨hparts, -⟩
    · rw [heq] at hp
      exact hhas p (h.parts x p hp)
    · exact hparts p hp
  lawful := by
    intro x
    rcases hdata x with heq | ⟨-, hlawful⟩
    · rw [heq]
      exact h.lawful x
    · exact hlawful
  members := by
    intro x ms hms m hm p hp
    rcases hmembers x ms hms with hold | hnew
    · exact hhas p (h.members x ms hold m hm p hp)
    · exact hnew m hm p hp
  indexes := by
    intro x is his y hy
    rcases hindexes x is his with hold | hnew
    · exact (h.indexes x is hold y hy).imp (hhas _) (hhas _)
    · exact hnew y hy
  instances := by
    intro entry he
    rw [hinstances] at he
    exact hhas _ (h.instances entry he)
  bare := hbare

/-! Each operation changes one slot.  The other slots stay sound because no handle is lost, which
is what `of_changes` takes care of; what remains is to look at the slot in question. -/

theorem push (h : u.Sound s) {d : TypeData} (hp : ∀ p ∈ d.parts, s.Has p) (hd : u.Lawful d) :
    u.Sound (s.push d).2 := by
  have hhas : ∀ x, s.Has x → (s.push d).2.Has x := fun _ => (Interner.Grows.push s d).has
  refine h.of_changes hhas ?_ ?_ ?_ rfl ?_
  · intro x
    rw [Interner.data_push]
    by_cases hx : x.index = s.slots.size
    · rw [if_pos hx]
      exact .inr ⟨fun p hmem => hhas p (hp p hmem), hd⟩
    · rw [if_neg hx]
      exact .inl rfl
  · intro x ms hms
    rw [Interner.members?_push] at hms
    exact .inl hms
  · intro x is his
    rw [Interner.indexes?_push] at his
    exact .inl his
  · intro x hx
    rw [Interner.data_push] at hx
    rw [Interner.members?_push, Interner.indexes?_push]
    -- nothing is kept for a new handle, as there was no slot for it
    by_cases hnew : x.index = s.slots.size
    · have hnot : ¬ s.Has x := Nat.not_lt_of_le (Nat.le_of_eq hnew.symm)
      exact h.bare x (by rw [Interner.data_of_not_has hnot]; rfl)
    · rw [if_neg hnew] at hx
      exact h.bare x hx

theorem define (h : u.Sound s) {t : TypeId} (ht : s.Has t) (hopen : s.data t = .reserved)
    {d : TypeData} (hp : ∀ p ∈ d.parts, s.Has p) (hd : u.Lawful d) : u.Sound (s.define t d) := by
  have hhas : ∀ x, s.Has x → (s.define t d).Has x := fun _ => (Interner.has_modifySlot s t _).2
  refine h.of_changes hhas ?_ ?_ ?_ rfl ?_
  · intro x
    rw [Interner.data_define ht]
    by_cases hx : t = x
    · rw [if_pos hx]
      exact .inr ⟨fun p hmem => hhas p (hp p hmem), hd⟩
    · rw [if_neg hx]
      exact .inl rfl
  · intro x ms hms
    rw [Interner.members?_define] at hms
    exact .inl hms
  · intro x is his
    rw [Interner.indexes?_define] at his
    exact .inl his
  · intro x hx
    rw [Interner.data_define ht] at hx
    rw [Interner.members?_define, Interner.indexes?_define]
    by_cases heq : t = x
    · subst heq
      exact h.bare t (by rw [hopen]; rfl)
    · rw [if_neg heq] at hx
      exact h.bare x hx

theorem setMembers (h : u.Sound s) {t : TypeId} (ht : s.Has t) {ms : List TypeMember}
    (hms : ∀ m ∈ ms, ∀ p, m.type = some p → s.Has p)
    (hbare : (s.data t).isBare = true → ms = []) : u.Sound (s.setMembers t ms) := by
  have hhas : ∀ x, s.Has x → (s.setMembers t ms).Has x :=
    fun _ => (Interner.has_modifySlot s t _).2
  refine h.of_changes hhas ?_ ?_ ?_ rfl ?_
  · exact fun x => .inl (Interner.data_setMembers s t ms x)
  · intro x ms' hms'
    rw [Interner.members?_setMembers ht] at hms'
    by_cases hx : t = x
    · rw [if_pos hx] at hms'
      cases hms'
      exact .inr fun m hm p hp => hhas p (hms m hm p hp)
    · rw [if_neg hx] at hms'
      exact .inl hms'
  · intro x is his
    rw [Interner.indexes?_setMembers] at his
    exact .inl his
  · intro x hx
    rw [Interner.data_setMembers] at hx
    refine ⟨fun ms' hms' => ?_, fun is his => (h.bare x hx).2 is ?_⟩
    · rw [Interner.members?_setMembers ht] at hms'
      by_cases heq : t = x
      · subst heq
        rw [if_pos rfl] at hms'
        cases hms'
        exact hbare hx
      · rw [if_neg heq] at hms'
        exact (h.bare x hx).1 ms' hms'
    · rw [← Interner.indexes?_setMembers s t ms]
      exact his

theorem setIndexes (h : u.Sound s) {t : TypeId} (ht : s.Has t) {is : List TypeIndex}
    (his : ∀ x ∈ is, s.Has x.key ∧ s.Has x.value)
    (hbare : (s.data t).isBare = true → is = []) : u.Sound (s.setIndexes t is) := by
  have hhas : ∀ x, s.Has x → (s.setIndexes t is).Has x :=
    fun _ => (Interner.has_modifySlot s t _).2
  refine h.of_changes hhas ?_ ?_ ?_ rfl ?_
  · exact fun x => .inl (Interner.data_setIndexes s t is x)
  · intro x ms hms
    rw [Interner.members?_setIndexes] at hms
    exact .inl hms
  · intro x is' his'
    rw [Interner.indexes?_setIndexes ht] at his'
    by_cases hx : t = x
    · rw [if_pos hx] at his'
      cases his'
      exact .inr fun y hy => (his y hy).imp (hhas _) (hhas _)
    · rw [if_neg hx] at his'
      exact .inl his'
  · intro x hx
    rw [Interner.data_setIndexes] at hx
    refine ⟨fun ms hms => (h.bare x hx).1 ms ?_, fun is' his' => ?_⟩
    · rw [← Interner.members?_setIndexes s t is]
      exact hms
    · rw [Interner.indexes?_setIndexes ht] at his'
      by_cases heq : t = x
      · subst heq
        rw [if_pos rfl] at his'
        cases his'
        exact hbare hx
      · rw [if_neg heq] at his'
        exact (h.bare x hx).2 is' his'

theorem of_slots_eq (h : u.Sound s) {s' : Interner} (hs : s'.slots = s.slots)
    (hi : ∀ entry ∈ s'.instances, s.Has entry.2) : u.Sound s' := by
  obtain ⟨slots', instances', expanding'⟩ := s'
  obtain rfl : slots' = s.slots := hs
  exact ⟨h.parts, h.lawful, h.members, h.indexes, hi, h.bare⟩

end Sound
end Universe
end TypedJson
