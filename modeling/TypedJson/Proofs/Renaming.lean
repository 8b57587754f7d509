import TypedJson.Proofs.Lookup
/-!
# Renaming a declaration

A declaration gets another name, and so does every reference that means it (`Renaming.name`): a
name that other files declare too is changed only where it means this declaration.  The new name
is one that nothing else has and nothing looks up; neither name is reserved or a type parameter.

In the renamed universe the same declarations stand at the same places, and every name that a
declaration looks up means what it meant before (`Renaming.find?_name`).

A name is looked up by filtering the declarations of that name and preferring those of the
same file.  After the renaming the list of a name differs by one declaration, in one place:
the old name has one fewer, and the new name that one alone.  So what is looked up is the
same unless it was the renamed declaration that was preferred, and there the name is
changed.
-/
namespace TypedJson

def MemberDecl.map {S T : Type} (f : S → T) (m : MemberDecl S) : MemberDecl T :=
  ⟨m.name, m.optional, m.method, m.type.map f⟩

def IndexDecl.map {S T : Type} (f : S → T) (x : IndexDecl S) : IndexDecl T := ⟨f x.key, f x.value⟩

namespace TypeExpr

mutual

/-- The expression with other names in it. -/
def mapNames (f : String → String) : TypeExpr → TypeExpr
  | .name n => .name (f n)
  | .generic n args => .generic (f n) (mapNamesAll f args)
  | .array element => .array (mapNames f element)
  | .union branches => .union (mapNamesAll f branches)
  | .intersection parts => .intersection (mapNamesAll f parts)
  | .literal value => .literal value
  | .object members indexes => .object (mapNamesMembers f members) (mapNamesIndexes f indexes)

def mapNamesAll (f : String → String) : List TypeExpr → List TypeExpr
  | [] => []
  | e :: es => mapNames f e :: mapNamesAll f es

def mapNamesOption (f : String → String) : Option TypeExpr → Option TypeExpr
  | none => none
  | some e => some (mapNames f e)

def mapNamesMember (f : String → String) : MemberDecl TypeExpr → MemberDecl TypeExpr
  | ⟨n, optional, method, type⟩ => ⟨n, optional, method, mapNamesOption f type⟩

def mapNamesMembers (f : String → String) : List (MemberDecl TypeExpr) → List (MemberDecl TypeExpr)
  | [] => []
  | m :: ms => mapNamesMember f m :: mapNamesMembers f ms

def mapNamesIndex (f : String → String) : IndexDecl TypeExpr → IndexDecl TypeExpr
  | ⟨key, value⟩ => ⟨mapNames f key, mapNames f value⟩

def mapNamesIndexes (f : String → String) : List (IndexDecl TypeExpr) → List (IndexDecl TypeExpr)
  | [] => []
  | x :: xs => mapNamesIndex f x :: mapNamesIndexes f xs

end

theorem mapNamesAll_eq (f : String → String) (es : List TypeExpr) :
    mapNamesAll f es = es.map (mapNames f) := by
  induction es with
  | nil => rfl
  | cons e es ih => rw [mapNamesAll, ih, List.map_cons]

theorem mapNamesMember_eq (f : String → String) (m : Member) :
    mapNamesMember f m = m.map (mapNames f) := by
  obtain ⟨n, optional, method, type⟩ := m
  cases type with
  | none => rfl
  | some e => rfl

theorem mapNamesMembers_eq (f : String → String) (ms : List Member) :
    mapNamesMembers f ms = ms.map (·.map (mapNames f)) := by
  induction ms with
  | nil => rfl
  | cons m ms ih => rw [mapNamesMembers, ih, mapNamesMember_eq, List.map_cons]

theorem mapNamesIndexes_eq (f : String → String) (xs : List Index) :
    mapNamesIndexes f xs = xs.map (·.map (mapNames f)) := by
  induction xs with
  | nil => rfl
  | cons x xs ih =>
    obtain ⟨key, value⟩ := x
    rw [mapNamesIndexes, ih, List.map_cons]
    rfl

variable (f : String → String)

@[simp] theorem mapNames_name (n : String) : mapNames f (.name n) = .name (f n) := rfl

@[simp] theorem mapNames_generic (n : String) (args : List TypeExpr) :
    mapNames f (.generic n args) = .generic (f n) (args.map (mapNames f)) := by
  rw [mapNames, mapNamesAll_eq]

@[simp] theorem mapNames_array (e : TypeExpr) : mapNames f (.array e) = .array (mapNames f e) := rfl

@[simp] theorem mapNames_union (branches : List TypeExpr) :
    mapNames f (.union branches) = .union (branches.map (mapNames f)) := by
  rw [mapNames, mapNamesAll_eq]

@[simp] theorem mapNames_intersection (parts : List TypeExpr) :
    mapNames f (.intersection parts) = .intersection (parts.map (mapNames f)) := by
  rw [mapNames, mapNamesAll_eq]

@[simp] theorem mapNames_literal (value : Literal) : mapNames f (.literal value) = .literal value := rfl

@[simp] theorem mapNames_object (members : List Member) (indexes : List Index) :
    mapNames f (.object members indexes) =
      .object (members.map (·.map (mapNames f))) (indexes.map (·.map (mapNames f))) := by
  rw [mapNames, mapNamesMembers_eq, mapNamesIndexes_eq]

/-! ## Names

What stands in an expression is more than what is looked up for it; the condition on the new
name is about the former, which is easier to check. -/

mutual

/-- The names in the expression. -/
def names : TypeExpr → List String
  | .name n => [n]
  | .generic n args => n :: namesAll args
  | .array element => names element
  | .union branches => namesAll branches
  | .intersection parts => namesAll parts
  | .literal _ => []
  | .object members indexes => namesMembers members ++ namesIndexes indexes

def namesAll : List TypeExpr → List String
  | [] => []
  | e :: es => names e ++ namesAll es

def namesMembers : List (MemberDecl TypeExpr) → List String
  | [] => []
  | ⟨_, _, _, none⟩ :: ms => namesMembers ms
  | ⟨_, _, _, some e⟩ :: ms => names e ++ namesMembers ms

def namesIndexes : List (IndexDecl TypeExpr) → List String
  | [] => []
  | ⟨key, value⟩ :: xs => names key ++ names value ++ namesIndexes xs

end

theorem names_subset_all {e : TypeExpr} : ∀ {es : List TypeExpr}, e ∈ es → e.names ⊆ namesAll es
  | _ :: _, h => by
    rcases List.mem_cons.1 h with rfl | h
    · exact List.subset_append_left _ _
    · exact List.Subset.trans (names_subset_all h) (List.subset_append_right _ _)

theorem names_subset_members {m : Member} {e : TypeExpr} (htype : m.type = some e) :
    ∀ {ms : List Member}, m ∈ ms → e.names ⊆ namesMembers ms
  | ⟨_, _, _, none⟩ :: _, h => by
    rcases List.mem_cons.1 h with rfl | h
    · cases htype
    · have hrest := names_subset_members htype h
      exact hrest
  | ⟨_, _, _, some _⟩ :: _, h => by
    rcases List.mem_cons.1 h with rfl | h
    · cases htype
      exact List.subset_append_left _ _
    · exact List.Subset.trans (names_subset_members htype h) (List.subset_append_right _ _)

theorem names_subset_indexes {x : Index} : ∀ {xs : List Index}, x ∈ xs →
    x.key.names ++ x.value.names ⊆ namesIndexes xs
  | ⟨_, _⟩ :: _, h => by
    rcases List.mem_cons.1 h with rfl | h
    · exact List.subset_append_left _ _
    · exact List.Subset.trans (names_subset_indexes h) (List.subset_append_right _ _)

theorem LooksUp.mem_names {later : Bool} {params : List String} {e : TypeExpr} {n : String}
    (h : e.LooksUp later params n) : n ∈ e.names := by
  induction h with
  | name => exact List.mem_singleton.2 rfl
  | generic => exact List.mem_cons_self
  | argument _ he _ ih => exact List.mem_cons_of_mem _ (names_subset_all he ih)
  | element _ ih => exact ih
  | branch he _ ih => exact names_subset_all he ih
  | part he _ ih => exact names_subset_all he ih
  | member _ hm _ htype _ ih => exact List.mem_append_left _ (names_subset_members htype hm ih)
  | key _ hx _ ih =>
    exact List.mem_append_right _ (names_subset_indexes hx (List.mem_append_left _ ih))
  | value _ hx _ ih =>
    exact List.mem_append_right _ (names_subset_indexes hx (List.mem_append_right _ ih))

end TypeExpr

/-- The names in the declaration. -/
def Declaration.names (d : Declaration) : List String :=
  d.name :: d.typeParams ++ d.texts.flatMap TypeExpr.names

namespace Universe

instance (name : String) : Decidable (IsReserved name) :=
  inferInstanceAs (Decidable (_ ∨ _ ∨ _))

/-- A declaration and a name for it that nothing else has. -/
structure Renaming (u : Universe) where
  id : DeclarationId
  declaration : Declaration
  declared : u.declaration? id = some declaration
  new : String
  unreserved : ¬ IsReserved declaration.name ∧ ¬ IsReserved new
  noParams : ∀ i d, u.declaration? i = some d →
    declaration.name ∉ d.typeParams ∧ new ∉ d.typeParams
  fresh : ∀ i d, u.declaration? i = some d → d.name ≠ new ∧ ¬ d.LooksUp new

namespace Renaming

variable {u : Universe}

/-- The renaming to a name that stands nowhere. -/
def toUnused (id : DeclarationId) {d : Declaration} (declared : u.declaration? id = some d)
    (new : String) (unreserved : ¬ IsReserved d.name ∧ ¬ IsReserved new)
    (noParam : ∀ p ∈ u.declarations, d.name ∉ p.2.typeParams)
    (unused : ∀ p ∈ u.declarations, new ∉ p.2.names) : u.Renaming where
  id := id
  declaration := d
  declared := declared
  new := new
  unreserved := unreserved
  noParams := fun i e he => by
    have hmem := mem_declarations_iff.2 he
    exact ⟨noParam _ hmem, fun hnew => unused _ hmem
      (List.mem_append_left _ (List.mem_cons_of_mem _ hnew))⟩
  fresh := fun i e he => by
    have hmem := mem_declarations_iff.2 he
    refine ⟨fun heq => unused _ hmem (heq ▸ List.mem_cons_self), ?_⟩
    rintro ⟨text, htext, hlook⟩
    exact unused _ hmem (List.mem_append_right _ (List.mem_flatMap.2 ⟨text, htext, hlook.mem_names⟩))

variable (r : u.Renaming)

def old : String := r.declaration.name

/-- What becomes of a name in a unit. -/
def name (unit : Nat) (n : String) : String :=
  if n = r.old ∧ u.find? n unit = some r.id then r.new else n

def text (unit : Nat) : TypeExpr → TypeExpr := TypeExpr.mapNames (r.name unit)

def members (unit : Nat) : List Member → List Member := List.map (·.map (r.text unit))

def indexes (unit : Nat) : List Index → List Index := List.map (·.map (r.text unit))

def body (unit : Nat) : DeclarationBody → DeclarationBody
  | .interface bases members indexes =>
    .interface (bases.map (r.text unit)) (r.members unit members) (r.indexes unit indexes)
  | .typeAlias e => .typeAlias (r.text unit e)
  | .enum members => .enum members

/-- The declaration at a place after the renaming. -/
def declarationAt (i : DeclarationId) (d : Declaration) : Declaration :=
  { d with name := if i = r.id then r.new else d.name, body := r.body i.unit d.body }

def unitAt (k : Nat) (unit : SourceUnit) : SourceUnit :=
  { unit with declarations := unit.declarations.mapIdx fun j => r.declarationAt ⟨k, j⟩ }

theorem distinct : ∀ unit ∈ u.units.mapIdx r.unitAt, unit.names.Nodup := by
  intro unit hunit
  obtain ⟨k, hk, rfl⟩ := List.mem_mapIdx.1 hunit
  have hnodup := u.distinct _ (List.getElem_mem hk)
  have hdeclared : ∀ j (hj : j < u.units[k].declarations.length),
      u.declaration? ⟨k, j⟩ = some u.units[k].declarations[j] := by
    intro j hj
    simp [declaration?, hk, hj]
  unfold SourceUnit.names List.Nodup at *
  rw [List.pairwise_map, List.pairwise_iff_getElem] at *
  intro i j hi hj hij
  have hi : i < u.units[k].declarations.length := by simpa [unitAt] using hi
  have hj : j < u.units[k].declarations.length := by simpa [unitAt] using hj
  have hne := hnodup i j hi hj hij
  have hfresh_i := (r.fresh _ _ (hdeclared i hi)).1
  have hfresh_j := (r.fresh _ _ (hdeclared j hj)).1
  simp only [unitAt, List.getElem_mapIdx, declarationAt]
  by_cases hid : (⟨k, i⟩ : DeclarationId) = r.id
  · have hother : ¬ (⟨k, j⟩ : DeclarationId) = r.id := by
      rw [← hid]
      simp only [DeclarationId.mk.injEq, true_and]
      omega
    rw [if_pos hid, if_neg hother]
    exact hfresh_j.symm
  · rw [if_neg hid]
    split
    · exact hfresh_i
    · exact hne

/-- The universe after the renaming. -/
def target : Universe := ⟨u.units.mapIdx r.unitAt, r.distinct⟩

theorem declaration?_target (i : DeclarationId) :
    r.target.declaration? i = (u.declaration? i).map (r.declarationAt i) := by
  simp only [declaration?, target, List.getElem?_mapIdx]
  cases u.units[i.unit]? with
  | none => rfl
  | some unit =>
    simp only [Option.map_some, Option.bind_some, unitAt, List.getElem?_mapIdx]

theorem file_target (unit : Nat) : r.target.file unit = u.file unit := by
  simp only [file, target, List.getElem?_mapIdx]
  cases u.units[unit]? with
  | none => rfl
  | some unit => rfl

theorem zipIdx_mapIdx {α β : Type} (f : Nat → α → β) (l : List α) :
    (l.mapIdx f).zipIdx = l.zipIdx.map fun p => (f p.2 p.1, p.2) := by
  refine List.ext_getElem? fun i => ?_
  simp [List.getElem?_zipIdx, List.getElem?_mapIdx, Option.map_map, Function.comp_def]

theorem declarations_target :
    r.target.declarations = u.declarations.map fun p => (p.1, r.declarationAt p.1 p.2) := by
  simp only [declarations, target, zipIdx_mapIdx, List.flatMap_map, List.map_flatMap, unitAt,
    List.map_map, Function.comp_def]

/-! ## What names mean

The lemmas on lists are about leaving out of a list what is not preferred. -/

theorem preferred_of_all {α : Type} {p : α → Bool} {a : α} : ∀ {l : List α}, a ∈ l →
    (∀ x ∈ l, x = a) → (l.find? p).or l.head? = some a
  | [], ha, _ => by cases ha
  | x :: l, _, hall => by
    cases hfind : (x :: l).find? p with
    | none => rw [Option.none_or, List.head?_cons, hall x List.mem_cons_self]
    | some y => rw [Option.some_or, hall y (List.mem_of_find?_eq_some hfind)]

theorem find?_filter_ne {α : Type} [DecidableEq α] {p : α → Bool} {a b : α} (hne : b ≠ a) :
    ∀ {l : List α}, l.find? p = some b → (l.filter (· ≠ a)).find? p = some b
  | [], h => by cases h
  | x :: l, h => by
    rw [List.find?_cons] at h
    by_cases hx : x = a
    · rw [List.filter_cons_of_neg (by simpa using hx)]
      split at h
      · exact absurd ((Option.some.inj h).symm.trans hx) hne
      · exact find?_filter_ne hne h
    · rw [List.filter_cons_of_pos (by simpa using hx), List.find?_cons]
      split at h
      · exact h
      · exact find?_filter_ne hne h

theorem preferred_filter {α : Type} [DecidableEq α] {p : α → Bool} {a : α} {l : List α}
    (h : (l.find? p).or l.head? ≠ some a) :
    ((l.filter (· ≠ a)).find? p).or (l.filter (· ≠ a)).head? = (l.find? p).or l.head? := by
  cases hfind : l.find? p with
  | some b =>
    rw [hfind, Option.some_or] at h
    rw [find?_filter_ne (fun hb => h (congrArg some hb)) hfind, Option.some_or, Option.some_or]
  | none =>
    rw [hfind, Option.none_or] at h
    have hnone : (l.filter (· ≠ a)).find? p = none := List.find?_eq_none.2 fun x hx =>
      List.find?_eq_none.1 hfind x (List.mem_filter.1 hx).1
    rw [hnone, Option.none_or, Option.none_or]
    cases l with
    | nil => rfl
    | cons x l =>
      have hx : x ≠ a := fun hx => h (congrArg some hx)
      rw [List.filter_cons_of_pos (by simpa using hx), List.head?_cons, List.head?_cons]

theorem find?_eq (u : Universe) (n : String) (unit : Nat) :
    u.find? n unit = (((u.declarations.filter (·.2.name == n)).map (·.1)).find? (·.unit == unit)).or
      ((u.declarations.filter (·.2.name == n)).map (·.1)).head? := by
  unfold find?
  rw [Option.orElse_eq_orElse, Option.orElse_eq_or]

theorem declaring_target (m : String) :
    (r.target.declarations.filter (·.2.name == m)).map (·.1) =
      (u.declarations.filter fun p => (if p.1 = r.id then r.new else p.2.name) == m).map (·.1) := by
  rw [declarations_target, List.filter_map, List.map_map]
  rfl

/-- **Every name that is not the new one means what it meant.** -/
theorem find?_name {n : String} (hn : n ≠ r.new) (unit : Nat) :
    r.target.find? (r.name unit n) unit = u.find? n unit := by
  have hdeclared := mem_declarations_iff.2 r.declared
  have hname : ∀ p ∈ u.declarations, p.1 = r.id → p.2.name = r.old := by
    rintro ⟨i, d⟩ hp rfl
    have hd := mem_declarations_iff.1 hp
    rw [r.declared] at hd
    rw [← Option.some.inj hd]
    rfl
  have hfresh : ∀ p ∈ u.declarations, p.2.name ≠ r.new := fun p hp =>
    (r.fresh p.1 p.2 (mem_declarations_iff.1 hp)).1
  rw [find?_eq, find?_eq, declaring_target]
  by_cases hold : n = r.old
  · subst hold
    by_cases hmeans : u.find? r.old unit = some r.id
    · -- the name means the declaration, and nothing else has its new name
      rw [name, if_pos ⟨rfl, hmeans⟩, ← find?_eq, hmeans]
      refine preferred_of_all (List.mem_map.2 ⟨_, List.mem_filter.2 ⟨hdeclared, by simp⟩, rfl⟩) ?_
      intro i hi
      obtain ⟨p, hp, rfl⟩ := List.mem_map.1 hi
      obtain ⟨hp, hpname⟩ := List.mem_filter.1 hp
      by_contra hid
      rw [if_neg hid] at hpname
      exact hfresh p hp (by simpa using hpname)
    · -- another declaration comes first, here as there
      rw [name, if_neg fun h => hmeans h.2]
      rw [find?_eq] at hmeans
      rw [← preferred_filter hmeans, List.filter_map, List.filter_filter]
      have hfilter : (u.declarations.filter fun p =>
          (if p.1 = r.id then r.new else p.2.name) == r.old) =
          u.declarations.filter fun p => (decide (p.1 ≠ r.id)) && (p.2.name == r.old) := by
        refine List.filter_congr fun p hp => ?_
        by_cases hid : p.1 = r.id
        · simp [hid, hn.symm]
        · simp [hid]
      rw [hfilter]
      rfl
  · rw [name, if_neg fun h => hold h.1]
    have hfilter : (u.declarations.filter fun p =>
        (if p.1 = r.id then r.new else p.2.name) == n) =
        u.declarations.filter fun p => p.2.name == n := by
      refine List.filter_congr fun p hp => ?_
      by_cases hid : p.1 = r.id
      · rw [if_pos hid, hname p hp hid, beq_eq_false_iff_ne.2 hn.symm,
          beq_eq_false_iff_ne.2 (Ne.symm hold)]
      · rw [if_neg hid]
    rw [hfilter]

end Renaming
end Universe
end TypedJson
