import TypedJson.Proofs.Answering
/-!
# Where the inline objects of a text come from

The text of a type shows the texts of its parts, and an inline object shows its members, whose
types are resolved when the text is asked for.  Which expressions stand within the text of an
expression can be read off the declarations (`Universe.Shows`, `Spot.HasMember`), and the table
keeps to that: every inline object in the text of a type is one that the expression shows which
the type was written as (`Universe.WrittenAs`).  This holds of every table that questions lead
to (`Universe.written_of_reaches`).

Without type parameters an inline object is resolved in an empty scope, so it can be
identified with the expression that it was written as, together with the unit.  A type shows
finitely many of these expressions, and how they follow one another through members is a
matter of the declarations.  That is what the termination of texts will be measured by.
-/
namespace TypedJson

/-- An expression in the unit where its names are looked up. -/
structure Spot where
  unit : Nat
  expr : TypeExpr

/-- How many arguments of the builtin stand in its text. -/
def Builtin.shownArguments : Builtin → Nat
  | .array => 1
  | .record => 2
  | .date | .pattern => 0

/-- The inline object has the member, whose type is written as the second expression. -/
inductive Spot.HasMember : Spot → Spot → Prop
  | mk {unit : Nat} {members : List Member} {indexes : List Index} {m : Member} {e : TypeExpr}
    (hm : m ∈ members) (hmethod : m.method = false) (htype : m.type = some e) :
    HasMember ⟨unit, .object members indexes⟩ ⟨unit, e⟩

namespace Universe

/-- In the text of the first expression stands that of the second. -/
inductive Shows (u : Universe) : Spot → Spot → Prop
  | element {unit : Nat} {e : TypeExpr} : Shows u ⟨unit, .array e⟩ ⟨unit, e⟩
  | branch {unit : Nat} {branches : List TypeExpr} {e : TypeExpr} (he : e ∈ branches) :
    Shows u ⟨unit, .union branches⟩ ⟨unit, e⟩
  | part {unit : Nat} {parts : List TypeExpr} {e : TypeExpr} (he : e ∈ parts) :
    Shows u ⟨unit, .intersection parts⟩ ⟨unit, e⟩
  | argument {unit : Nat} {name : String} {args : List TypeExpr} {b : Builtin} {e : TypeExpr}
    (hfind : u.find? name unit = none) (hbuiltin : Builtin.ofName? name = some b)
    (he : e ∈ args.take b.shownArguments) : Shows u ⟨unit, .generic name args⟩ ⟨unit, e⟩
  | expanded {unit : Nat} {name : String} {id : DeclarationId} {d : Declaration} {body : TypeExpr}
    (hreserved : ¬ IsReserved name) (hfind : u.find? name unit = some id)
    (hd : u.declaration? id = some d) (hbody : d.body = .typeAlias body)
    (hopen : body.isStructure = false) : Shows u ⟨unit, .name name⟩ ⟨id.unit, body⟩
  | expandedGeneric {unit : Nat} {name : String} {args : List TypeExpr} {id : DeclarationId}
    {d : Declaration} {body : TypeExpr} (hreserved : ¬ IsReserved name)
    (hfind : u.find? name unit = some id) (hd : u.declaration? id = some d)
    (hbody : d.body = .typeAlias body) (hopen : body.isStructure = false) :
    Shows u ⟨unit, .generic name args⟩ ⟨id.unit, body⟩

end Universe

namespace TypeData

/-- The types whose texts stand in that of the type, apart from the types of members. -/
def shown : TypeData → List TypeId
  | .form (.array element) => [element]
  | .form (.reference inst) => inst.args
  | .form (.union branches) => branches
  | .namedUnion origin _ => origin.args
  | .object (some origin) _ => origin.args
  | .object none (.intersection parts) => parts
  | _ => []

/-- The inline object that the type was written as. -/
def inline? : TypeData → Option Spot
  | .object none (.literal members indexes scope) => some ⟨scope.unit, .object members indexes⟩
  | _ => none

theorem shown_of_inline? {d : TypeData} {q : Spot} (h : d.inline? = some q) : d.shown = [] := by
  unfold inline? at h
  split at h
  · rfl
  · cases h

end TypeData

/-- The second table shows the types of the first as before. -/
structure Interner.KeepsTexts (s s' : Interner) : Prop where
  size : s.slots.size ≤ s'.slots.size
  shown : ∀ t, s.Has t → (s'.data t).shown = (s.data t).shown
  inline : ∀ t, s.Has t → (s'.data t).inline? = (s.data t).inline?

namespace Interner.KeepsTexts

theorem of_data {s s' : Interner} (hsize : s.slots.size ≤ s'.slots.size)
    (hdata : ∀ t, s.Has t → s'.data t = s.data t) : s.KeepsTexts s' where
  size := hsize
  shown := fun t ht => by rw [hdata t ht]
  inline := fun t ht => by rw [hdata t ht]

theorem refl (s : Interner) : s.KeepsTexts s := of_data (Nat.le_refl _) fun _ _ => rfl

theorem has {s s' : Interner} (h : s.KeepsTexts s') {t : TypeId} (ht : s.Has t) : s'.Has t :=
  Nat.lt_of_lt_of_le ht h.size

theorem trans {s₁ s₂ s₃ : Interner} (h₁ : s₁.KeepsTexts s₂) (h₂ : s₂.KeepsTexts s₃) :
    s₁.KeepsTexts s₃ where
  size := Nat.le_trans h₁.size h₂.size
  shown := fun t ht => (h₂.shown t (h₁.has ht)).trans (h₁.shown t ht)
  inline := fun t ht => (h₂.inline t (h₁.has ht)).trans (h₁.inline t ht)

end Interner.KeepsTexts

namespace Universe

variable {u : Universe} {s s' : Interner} {t : TypeId} {p q : Spot}

/-- The expression shows every inline object that stands in the text of the type. -/
def WrittenAs (u : Universe) (s : Interner) (p : Spot) (t : TypeId) : Prop :=
  s.Has t ∧ ∀ o q, Relation.ReflTransGen (fun a b => b ∈ (s.data a).shown) t o →
    (s.data o).inline? = some q → Relation.ReflTransGen u.Shows p q

/-- The handle that is kept for an instance shows what the instance shows: a record its
arguments, an alias what its body shows unless it is known by its name. -/
def KeptAs (u : Universe) (s : Interner) (i : Instance) (t : TypeId) : Prop :=
  (∀ id p, i.symbol = .declared id →
    (∀ d body, u.declaration? id = some d → d.body = .typeAlias body → body.isStructure = false →
      Relation.ReflTransGen u.Shows p ⟨id.unit, body⟩) → u.WrittenAs s p t) ∧
  (i.symbol = .builtin .record → s.Has t ∧ (s.data t).shown = i.args ∧ (s.data t).inline? = none)

/-- The texts of the table are those of the declarations: every type shows earlier ones only,
no object has parameters in force, and aliases and members show what they are written as. -/
structure Written (u : Universe) (s : Interner) : Prop where
  earlier : ∀ t, ∀ x ∈ (s.data t).shown, x.index < t.index
  closed : ∀ t origin members indexes scope,
    s.data t = .object origin (.literal members indexes scope) → scope.params = []
  instances : ∀ i t, s.instance? i = some t → u.KeptAs s i t
  members : ∀ t q ms, (s.data t).inline? = some q → s.members? t = some ms → ∀ m ∈ ms,
    ∀ x, m.type = some x → ∃ q', q.HasMember q' ∧ u.WrittenAs s q' x

/-! ## What an expression shows

`WrittenAs` is an upper bound: the expression shows at least the inline objects of the type.
It is kept by going to parts, and it may be weakened along `Shows`. -/

namespace WrittenAs

theorem step (hshows : u.Shows p q) (h : u.WrittenAs s q t) : u.WrittenAs s p t :=
  ⟨h.1, fun o r hchain ho => .head hshows (h.2 o r hchain ho)⟩

theorem steps (hshows : Relation.ReflTransGen u.Shows p q) (h : u.WrittenAs s q t) :
    u.WrittenAs s p t :=
  ⟨h.1, fun o r hchain ho => hshows.trans (h.2 o r hchain ho)⟩

theorem of_shown (ht : s.Has t) (hinline : (s.data t).inline? = none)
    (hshown : ∀ x ∈ (s.data t).shown, u.WrittenAs s p x) : u.WrittenAs s p t := by
  refine ⟨ht, fun o q hchain ho => ?_⟩
  rcases Relation.ReflTransGen.cases_head hchain with rfl | ⟨x, hx, hrest⟩
  · rw [hinline] at ho
    cases ho
  · exact (hshown x hx).2 o q hrest ho

theorem of_inline (ht : s.Has t) (hinline : (s.data t).inline? = some q) : u.WrittenAs s q t := by
  refine ⟨ht, fun o r hchain ho => ?_⟩
  rcases Relation.ReflTransGen.cases_head hchain with rfl | ⟨x, hx, -⟩
  · rw [hinline] at ho
    cases ho
    exact .refl
  · have hx : x ∈ (s.data t).shown := hx
    rw [TypeData.shown_of_inline? hinline] at hx
    cases hx

theorem of_mem (h : u.WrittenAs s p t) (hearlier : ∀ x ∈ (s.data t).shown, x.index < t.index)
    {x : TypeId} (hx : x ∈ (s.data t).shown) : u.WrittenAs s p x :=
  ⟨(hearlier x hx).trans h.1, fun o q hchain ho => h.2 o q (.head hx hchain) ho⟩

theorem kept (h : u.WrittenAs s p t) (hearlier : ∀ t, ∀ x ∈ (s'.data t).shown, x.index < t.index)
    (hkeeps : s.KeepsTexts s') : u.WrittenAs s' p t := by
  refine ⟨hkeeps.has h.1, fun o q hchain ho => ?_⟩
  have hback : s.Has o ∧ Relation.ReflTransGen (fun a b => b ∈ (s.data a).shown) t o := by
    clear ho
    induction hchain with
    | refl => exact ⟨h.1, .refl⟩
    | @tail a b _ hab ih =>
      obtain ⟨ha, hchain⟩ := ih
      have hb : s.Has b := (hearlier a b hab).trans ha
      rw [hkeeps.shown a ha] at hab
      exact ⟨hb, hchain.tail hab⟩
  rw [hkeeps.inline o hback.1] at ho
  exact h.2 o q hback.2 ho

end WrittenAs

theorem KeptAs.kept {i : Instance} (h : u.KeptAs s i t)
    (hearlier : ∀ t, ∀ x ∈ (s'.data t).shown, x.index < t.index) (hkeeps : s.KeepsTexts s') :
    u.KeptAs s' i t := by
  refine ⟨fun id p hsymbol hshows => (h.1 id p hsymbol hshows).kept hearlier hkeeps, fun hsymbol => ?_⟩
  obtain ⟨ht, hshown, hinline⟩ := h.2 hsymbol
  exact ⟨hkeeps.has ht, by rw [hkeeps.shown t ht, hshown], by rw [hkeeps.inline t ht, hinline]⟩

/-! ## The table keeps to the declarations

The clauses of `Written` are checked for each operation on the table.  A handle that is
filled in must show what it showed before, as other handles may mention it already; reserved
handles show nothing, and so do the types known by a name that they are filled in with. -/

namespace Written

/-- What changes in the table must itself keep to the declarations. -/
theorem of_changes (h : u.Written s) (hkeeps : s.KeepsTexts s')
    (hearlier : ∀ t, ¬ s.Has t → ∀ x ∈ (s'.data t).shown, x.index < t.index)
    (hclosed : ∀ t origin members indexes scope,
      s'.data t = .object origin (.literal members indexes scope) →
        s.data t = s'.data t ∨ scope.params = [])
    (hinstances : ∀ i t, s'.instance? i = some t → s.instance? i = some t ∨ u.KeptAs s' i t)
    (hmembers : ∀ t q ms, (s'.data t).inline? = some q → s'.members? t = some ms →
      s.members? t = some ms ∨ ∀ m ∈ ms, ∀ x, m.type = some x →
        ∃ q', q.HasMember q' ∧ u.WrittenAs s' q' x) : u.Written s' := by
  have hall : ∀ t, ∀ x ∈ (s'.data t).shown, x.index < t.index := by
    intro t x hx
    by_cases ht : s.Has t
    · rw [hkeeps.shown t ht] at hx
      exact h.earlier t x hx
    · exact hearlier t ht x hx
  refine ⟨hall, ?closed, ?instances, ?members⟩
  case closed =>
    intro t origin members indexes scope hdata
    rcases hclosed t origin members indexes scope hdata with heq | hscope
    · exact h.closed t origin members indexes scope (heq.trans hdata)
    · exact hscope
  case instances =>
    intro i t hi
    rcases hinstances i t hi with hold | hnew
    · exact (h.instances i t hold).kept hall hkeeps
    · exact hnew
  case members =>
    intro t q ms hinline hms m hm x hx
    rcases hmembers t q ms hinline hms with hold | hnew
    · have ht : s.Has t := by
        by_contra hnot
        rw [Interner.members?, Array.getElem?_eq_none (Nat.le_of_not_lt hnot)] at hold
        cases hold
      rw [hkeeps.inline t ht] at hinline
      obtain ⟨q', hmember, hwritten⟩ := h.members t q ms hinline hold m hm x hx
      exact ⟨q', hmember, hwritten.kept hall hkeeps⟩
    · exact hnew m hm x hx

theorem empty (u : Universe) : u.Written .empty where
  earlier := fun _ _ h => by cases h
  closed := fun _ _ _ _ _ h => by cases h
  instances := fun _ _ h => by cases h
  members := fun _ _ _ h => by cases h

theorem keepsTexts_push (s : Interner) (d : TypeData) : s.KeepsTexts (s.push d).2 :=
  .of_data (Interner.Grows.push s d).size (Interner.Grows.push s d).data

theorem push (h : u.Written s) {d : TypeData} (hshown : ∀ x ∈ d.shown, s.Has x)
    (hclosed : ∀ origin members indexes scope,
      d = .object origin (.literal members indexes scope) → scope.params = []) :
    u.Written (s.push d).2 := by
  refine h.of_changes (keepsTexts_push s d) ?_ ?_ (fun i t hi => .inl hi) fun t q ms _ hms => .inl ?_
  · intro t ht x hx
    rw [Interner.data_push] at hx
    by_cases hnew : t.index = s.slots.size
    · rw [if_pos hnew] at hx
      rw [hnew]
      exact hshown x hx
    · rw [if_neg hnew, Interner.data_of_not_has ht] at hx
      cases hx
  · intro t origin members indexes scope hdata
    rw [Interner.data_push] at hdata ⊢
    by_cases hnew : t.index = s.slots.size
    · rw [if_pos hnew] at hdata
      exact .inr (hclosed origin members indexes scope hdata)
    · rw [if_neg hnew]
      exact .inl rfl
  · rw [← Interner.members?_push s d]
    exact hms

theorem keepsTexts_define (ht : s.Has t) {d : TypeData} (hshown : d.shown = (s.data t).shown)
    (hinline : d.inline? = (s.data t).inline?) : s.KeepsTexts (s.define t d) where
  size := by rw [Interner.define, Interner.size_modifySlot]
  shown := by
    intro x _
    rw [Interner.data_define ht]
    split
    · rename_i heq
      rw [← heq]
      exact hshown
    · rfl
  inline := by
    intro x _
    rw [Interner.data_define ht]
    split
    · rename_i heq
      rw [← heq]
      exact hinline
    · rfl

/-- A handle may be filled in with what has the same text. -/
theorem define (h : u.Written s) (ht : s.Has t) {d : TypeData}
    (hshown : d.shown = (s.data t).shown) (hinline : d.inline? = (s.data t).inline?)
    (hclosed : ∀ origin members indexes scope,
      d = .object origin (.literal members indexes scope) → scope.params = []) :
    u.Written (s.define t d) := by
  have hkeeps := keepsTexts_define ht hshown hinline
  refine h.of_changes hkeeps ?_ ?_ (fun i x hi => .inl hi) fun x q ms _ hms => .inl ?_
  · intro x hx y hy
    have hne : t ≠ x := by
      rintro rfl
      exact hx ht
    rw [Interner.data_define ht, if_neg hne, Interner.data_of_not_has hx] at hy
    cases hy
  · intro x origin members indexes scope hdata
    rw [Interner.data_define ht] at hdata ⊢
    by_cases heq : t = x
    · rw [if_pos heq] at hdata
      exact .inr (hclosed origin members indexes scope hdata)
    · rw [if_neg heq]
      exact .inl rfl
  · rw [← Interner.members?_define s t d]
    exact hms

theorem of_slots_eq (h : u.Written s) (hslots : s'.slots = s.slots)
    (hinstances : ∀ i t, s'.instance? i = some t → s.instance? i = some t ∨ u.KeptAs s' i t) :
    u.Written s' := by
  obtain ⟨slots', instances', expanding'⟩ := s'
  obtain rfl : slots' = s.slots := hslots
  exact h.of_changes ⟨Nat.le_refl _, fun _ _ => rfl, fun _ _ => rfl⟩
    (fun t _ x hx => h.earlier t x hx) (fun _ _ _ _ _ _ => .inl rfl) hinstances
    fun _ _ _ _ hms => .inl hms

theorem record (h : u.Written s) {i : Instance} (hi : u.KeptAs s i t) :
    u.Written (s.record i t) := by
  refine h.of_slots_eq rfl fun j x hj => ?_
  rw [Interner.instance?_record] at hj
  by_cases heq : i = j
  · rw [if_pos heq] at hj
    cases hj
    cases heq
    exact .inr hi
  · rw [if_neg heq] at hj
    exact .inl hj

theorem keepsTexts_record (s : Interner) (i : Instance) (t : TypeId) :
    s.KeepsTexts (s.record i t) := ⟨Nat.le_refl _, fun _ _ => rfl, fun _ _ => rfl⟩

theorem keepsTexts_modifySlot {f : Slot → Slot}
    (hdata : ∀ x, (s.modifySlot t f).data x = s.data x) : s.KeepsTexts (s.modifySlot t f) :=
  .of_data (by rw [Interner.size_modifySlot]) fun x _ => hdata x

theorem setMembers (h : u.Written s) {ms : List TypeMember}
    (hms : ∀ q, (s.data t).inline? = some q → ∀ m ∈ ms, ∀ x, m.type = some x →
      ∃ q', q.HasMember q' ∧ u.WrittenAs s q' x) : u.Written (s.setMembers t ms) := by
  have hdata := Interner.data_setMembers s t ms
  have hkeeps : s.KeepsTexts (s.setMembers t ms) := keepsTexts_modifySlot hdata
  have hearlier : ∀ x, ∀ y ∈ ((s.setMembers t ms).data x).shown, y.index < x.index := by
    intro x y hy
    rw [hdata x] at hy
    exact h.earlier x y hy
  refine h.of_changes hkeeps (fun x _ => hearlier x) (fun x _ _ _ _ _ => .inl (hdata x).symm)
    (fun i x hi => .inl hi) fun x q ms' hinline hms' => ?_
  · rw [hdata x] at hinline
    by_cases heq : t = x
    · subst heq
      have ht : s.Has t := by
        by_contra hnot
        rw [Interner.data_of_not_has hnot] at hinline
        cases hinline
      rw [Interner.members?_setMembers ht, if_pos rfl] at hms'
      cases hms'
      refine .inr fun m hm y hy => ?_
      obtain ⟨q', hmember, hwritten⟩ := hms q hinline m hm y hy
      exact ⟨q', hmember, hwritten.kept hearlier hkeeps⟩
    · left
      rw [← hms', Interner.members?, Interner.members?, Interner.setMembers,
        Interner.slots_modifySlot, if_neg heq]

theorem setIndexes (h : u.Written s) (is : List TypeIndex) : u.Written (s.setIndexes t is) := by
  have hdata := Interner.data_setIndexes s t is
  refine h.of_changes (keepsTexts_modifySlot hdata) (fun x _ y hy => ?_)
    (fun x _ _ _ _ _ => .inl (hdata x).symm) (fun i x hi => .inl hi) fun x q ms _ hms => .inl ?_
  · rw [hdata x] at hy
    exact h.earlier x y hy
  · rw [← Interner.members?_setIndexes s t is]
    exact hms

end Written

end Universe
end TypedJson
