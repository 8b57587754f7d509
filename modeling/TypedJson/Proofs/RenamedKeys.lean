import TypedJson.Proofs.RenamedQuestions
import TypedJson.Proofs.Naming
import TypedJson.Proofs.KeyRelation
/-!
# Keys after a renaming

The text a type is shown by holds the names of declarations.  A check of data compares it with the
words of the language only (`SameWord`), and the key of a union compares it with the texts of other
unions.  A renaming keeps the first comparison when neither name is that of a type which is known by
its text (`Renaming.KeepsWords`), and the second when it keeps equal texts equal and different texts
different (`Renaming.KeepsTexts`).

Texts are the one thing that a renaming really changes, and a schema uses them in two ways.
As a word they decide how data is checked, so they must not become or cease to be one.  As
part of a key they decide which types share a node.  The two conditions are about these uses
and nothing else; a text that is only shown may change as it likes.
-/
namespace TypedJson

open Universe (reservedNames)

/-- A check of data takes the texts for the same primitive type, or both for none. -/
def SameWord (x x' : String) : Prop := x = x' ∨ x ∉ reservedNames ∧ x' ∉ reservedNames

namespace SameWord

theorem refl (x : String) : SameWord x x := .inl rfl

theorem symm {x x' : String} (h : SameWord x x') : SameWord x' x :=
  h.elim (fun heq => .inl heq.symm) fun hnot => .inr hnot.symm

theorem of_marks {x x' : String} (h : HasMark x.toList) (h' : HasMark x'.toList) : SameWord x x' :=
  .inr ⟨h.not_reserved, h'.not_reserved⟩

/-- Joined texts have a mark in them unless there is one text only. -/
theorem intercalate {separator : String} (h : HasMark separator.toList) : ∀ {xs xs' : List String},
    List.Forall₂ SameWord xs xs' → SameWord (separator.intercalate xs) (separator.intercalate xs')
  | [], [], .nil => refl _
  | [x], [x'], .cons hx .nil => by
    rw [String.intercalate_singleton, String.intercalate_singleton]
    exact hx
  | _ :: _ :: _, _ :: _ :: _, .cons _ (.cons _ _) =>
    of_marks (hasMark_intercalate h (by simp)) (hasMark_intercalate h (by simp))

end SameWord

namespace Universe
namespace Renaming

variable {u : Universe} {r : u.Renaming} {α : Type}

/-- A table that questions lead to, and the table after the renaming. -/
structure Seen (r : u.Renaming) (s s' : Interner) : Prop where
  looks : Relation.ReflTransGen u.Looks u.start s
  table : s' = r.table s

theorem Seen.start (r : u.Renaming) : r.Seen u.start r.target.start := ⟨.refl, r.start_target⟩

theorem grounded_of_looks {s : Interner} (h : Relation.ReflTransGen u.Looks u.start s) :
    u.Grounded s ∧ s.expanding = [] := by
  induction h with
  | refl => exact start_grounded u
  | tail _ hlook ih => exact looks_keeps ih hlook

theorem query_seen {β : Type} {R : α → β → Prop} {f : Interner → α} {f' : Interner → β}
    (h : ∀ s, R (f s) (f' (r.table s))) : Mirrors r.Seen R (Session.query f) (Session.query f') := by
  rintro s _ ⟨hlooks, rfl⟩ a s₁ hrun
  cases hrun
  exact ⟨_, _, rfl, ⟨hlooks, rfl⟩, h s⟩

theorem seen_of_asking {m m' : Session α} (hlooks : u.OnlyLooks m) (h : r.Asking m m') :
    Mirrors r.Seen Eq m m' := by
  rintro s _ ⟨hs, rfl⟩ a s₁ hrun
  obtain ⟨hgrounded, he⟩ := grounded_of_looks hs
  obtain ⟨b, _, hrun', hrel, hab⟩ := h s _ ⟨hgrounded, he, rfl⟩ a s₁ hrun
  exact ⟨b, _, hrun', ⟨hs.trans (hlooks s a s₁ hrun), hrel.table⟩, hab⟩

theorem members_seen (hcircles : r.KeepsCircles) (fuel : Nat) (t : TypeId) :
    Mirrors r.Seen Eq (u.members fuel t) (r.target.members fuel t) :=
  seen_of_asking (members_onlyLooks u fuel t) (members_asking hcircles fuel t)

theorem indexes_seen (hcircles : r.KeepsCircles) (fuel : Nat) (t : TypeId) :
    Mirrors r.Seen Eq (u.indexes fuel t) (r.target.indexes fuel t) :=
  seen_of_asking (fun _ _ _ hrun => .single (.indexes hrun)) (indexes_asking hcircles fuel t)

theorem instantiate_seen (hcircles : r.KeepsCircles) (fuel : Nat) {id : DeclarationId}
    {d : Declaration} (hd : u.declaration? id = some d) :
    Mirrors r.Seen Eq (u.instantiate (u.resolve fuel) id [])
      (r.target.instantiate (r.target.resolve fuel) id []) :=
  seen_of_asking (instantiate_onlyLooks fuel hd) (instantiate_keeping hcircles
    (resolve_grounds u fuel) (resolve_alike hcircles fuel) hd [] (leadTo_nil u id))

/-- **The exported declarations stand for the same types.** -/
theorem exportedTypes_seen (hcircles : r.KeepsCircles) (fuel : Nat) :
    Mirrors r.Seen Eq (u.exportedTypes fuel) (r.target.exportedTypes fuel) := by
  unfold exportedTypes
  rw [declarations_target, List.filter_map]
  refine .mapM_map fun p hp => ?_
  exact instantiate_seen hcircles fuel (mem_declarations_iff.1 (List.mem_filter.1 hp).1)

/-! ## Texts

By the steps of the definition.  A text that was joined from several has a mark in it before
and after, so only texts of one word need a look: the names of symbols and of unresolved
types. -/

variable (r) in
/-- Neither name is that of a builtin which the check of data tells by its name. -/
def KeepsWords : Prop := r.old ∉ ["Date", "RegExp"] ∧ r.new ∉ ["Date", "RegExp"]

theorem reserved_or : ∀ name ∈ reservedNames, name ∈ ["Date", "RegExp"] ∨
    Intrinsic.ofName? name ≠ none := by decide

theorem KeepsWords.not_reserved (h : r.KeepsWords) : r.old ∉ reservedNames ∧ r.new ∉ reservedNames :=
  ⟨fun hmem => (reserved_or _ hmem).elim h.1 fun hname => r.unreserved.1 (.inl hname),
    fun hmem => (reserved_or _ hmem).elim h.2 fun hname => r.unreserved.2 (.inl hname)⟩

theorem symbolName_sameWord (h : r.KeepsWords) (symbol : Symbol) :
    SameWord (u.symbolName symbol) (r.target.symbolName symbol) := by
  cases symbol with
  | declared id =>
    simp only [symbolName, declaration?_target]
    cases hd : u.declaration? id with
    | none => exact .refl _
    | some d =>
      show SameWord d.name (r.declarationAt id d).name
      unfold declarationAt
      by_cases hid : id = r.id
      · subst hid
        rw [r.declared] at hd
        cases hd
        rw [if_pos rfl]
        exact .inr h.not_reserved
      · rw [if_neg hid]
        exact .refl _
  | param id position =>
    simp only [symbolName, declaration?_target]
    cases u.declaration? id with
    | none => exact .refl _
    | some d => exact .refl _
  | builtin | anonymous => exact .refl _

theorem unresolved_sameWord (h : r.KeepsWords) (n : String) : SameWord n (r.unresolved n) := by
  unfold unresolved
  split
  · rw [Equiv.swap_apply_def]
    split
    · rename_i hn
      rw [hn]
      exact .inr h.not_reserved
    · split
      · rename_i hn
        rw [hn]
        exact .inr h.not_reserved.symm
      · exact .refl n
  · exact .refl n

theorem genericText_seen (hwords : r.KeepsWords) {displayOf displayOf' : TypeId → Session String}
    (h : ∀ t, Mirrors r.Seen SameWord (displayOf t) (displayOf' t)) (inst : Instance) :
    Mirrors r.Seen SameWord (u.genericText displayOf inst) (r.target.genericText displayOf' inst) := by
  unfold genericText
  by_cases hargs : inst.args.isEmpty = true
  · rw [if_pos hargs, if_pos hargs]
    exact .pure (symbolName_sameWord hwords inst.symbol)
  · rw [if_neg hargs, if_neg hargs]
    refine (Mirrors.mapM (List.forall₂_same.2 fun t _ => h t)).bind fun texts texts' _ => .pure ?_
    exact .of_marks (.of_mem (c := '<') (by decide) (by simp))
      (.of_mem (c := '<') (by decide) (by simp))

theorem memberText_seen {displayOf displayOf' : TypeId → Session String}
    (h : ∀ t, Mirrors r.Seen SameWord (displayOf t) (displayOf' t)) (m : TypeMember) :
    Mirrors r.Seen (fun _ _ => True) (memberText displayOf m) (memberText displayOf' m) := by
  unfold memberText
  cases m.type with
  | some t => exact (h t).bind fun _ _ _ => .pure trivial
  | none => exact .pure trivial

/-- **A type is shown by the same primitive name after the renaming, or by none as before.** -/
theorem display_seen (hcircles : r.KeepsCircles) (hwords : r.KeepsWords) : ∀ (fuel : Nat) (t : TypeId),
    Mirrors r.Seen SameWord (u.display fuel t) (r.target.display fuel t)
  | 0, _ => fun _ _ _ _ _ h => by cases h
  | fuel + 1, t => by
    have hself := display_seen hcircles hwords fuel
    have hall : ∀ ts : List TypeId, Mirrors r.Seen (List.Forall₂ SameWord)
        (ts.mapM (u.display fuel)) (ts.mapM (r.target.display fuel)) :=
      fun ts => .mapM (List.forall₂_same.2 fun t _ => hself t)
    have hdata : ∀ t, Mirrors r.Seen (fun d d' => d' = r.data d) (Session.query (·.data t))
        (Session.query (·.data t)) := fun t => query_seen fun s => r.data_table s t
    unfold display
    refine (hdata t).bind ?_
    rintro d _ rfl
    cases d with
    | form f =>
      cases f with
      | intrinsic i => exact .pure (.refl _)
      | literal value => exact .pure (.refl _)
      | unresolved n => exact .pure (unresolved_sameWord hwords n)
      | param symbol => exact .pure (symbolName_sameWord hwords symbol)
      | array element =>
        refine (hself element).bind fun inner inner' _ => (hdata element).bind ?_
        rintro d _ rfl
        -- with or without brackets around the element, both texts end in brackets
        split <;> split
        all_goals exact .pure (.of_marks (.of_mem (c := ']') (by decide) (by simp))
          (.of_mem (c := ']') (by decide) (by simp)))
      | reference inst => exact genericText_seen hwords hself inst
      | union branches =>
        have hbar : HasMark " | ".toList := .of_mem (c := '|') (by decide) (by simp)
        exact (hall branches).bind fun texts texts' htexts => .pure (.intercalate hbar htexts)
    | namedUnion origin branches => exact genericText_seen hwords hself origin
    | object origin shape =>
      cases origin with
      | some origin => exact genericText_seen hwords hself origin
      | none =>
        cases shape with
        | intersection parts =>
          have hamp : HasMark " & ".toList := .of_mem (c := '&') (by decide) (by simp)
          exact (hall parts).bind fun texts texts' htexts => .pure (.intercalate hamp htexts)
        | literal | record =>
          refine (members_seen hcircles fuel t).bind ?_
          rintro ms _ rfl
          refine (Mirrors.mapM (List.forall₂_same.2 fun m _ => memberText_seen hself m)).bind
            fun fields fields' _ => ?_
          split <;> split
          all_goals exact .pure (.of_marks (.of_mem (c := '\x7b') (by decide) (by simp))
            (.of_mem (c := '\x7b') (by decide) (by simp)))
    | reserved => exact .pure (.refl _)

/-! ## Keys

Symbols are places of declarations or handles, and a renaming changes neither.  So the key
keeps its shape, and comparing keys comes down to comparing the texts in them. -/

open TypeKey (Related Across)

/-- The key after the renaming is the same apart from the texts in it. -/
theorem keyWithin_seen (hcircles : r.KeepsCircles) (hwords : r.KeepsWords) :
    ∀ (fuel : Nat) (opened : List TypeId) (t : TypeId), Mirrors r.Seen (Related Eq fun _ _ => True)
      (u.keyWithin fuel opened t) (r.target.keyWithin fuel opened t)
  | 0, _, _ => fun _ _ _ _ _ h => by cases h
  | fuel + 1, opened, t => by
    have htext : Mirrors r.Seen (Related Eq fun _ _ => True)
        (do pure (.opaqueText (← u.display fuel t)))
        (do pure (.opaqueText (← r.target.display fuel t))) :=
      (display_seen hcircles hwords fuel t).bind fun _ _ _ => .pure (.opaqueText trivial)
    have hall : ∀ (opened ts : List TypeId), Mirrors r.Seen
        (List.Forall₂ (Related Eq fun _ _ => True)) (ts.mapM (u.keyWithin fuel opened))
        (ts.mapM (r.target.keyWithin fuel opened)) :=
      fun opened ts => .mapM (List.forall₂_same.2 fun t _ => keyWithin_seen hcircles hwords fuel opened t)
    unfold keyWithin
    refine Mirrors.bind (R := fun d d' => d' = r.data d) (query_seen fun s => r.data_table s t) ?_
    rintro d _ rfl
    rw [intrinsic?_data, literal?_data, union?_data, symbol?_data, arguments_data]
    cases d.intrinsic? with
    | some i =>
      cases i with
      | null => exact .pure .null
      | undefined => exact .pure .undefined
      | _ => exact .pure .intrinsic
    | none =>
      cases d.literal? with
      | some value => exact .pure .literal
      | none =>
        cases d.union? with
        | some branches =>
          by_cases hopened : opened.contains t = true
          · simp only [hopened, if_true]
            cases d.symbol? t with
            | some origin => exact .pure (.recursive rfl)
            | none => exact htext
          · simp only [hopened]
            exact (hall (t :: opened) branches).bind fun keys keys' hkeys => .pure (.union hkeys)
        | none =>
          cases d.symbol? t with
          | none => exact htext
          | some symbol =>
            cases d.arguments with
            | nil => exact .pure (.symbol rfl)
            | cons arg args =>
              exact (hall opened (arg :: args)).bind fun keys keys' hkeys =>
                .pure (.generic rfl hkeys)

/-- In the key of a type stands the one text before the renaming and the other after it. -/
def TextBecomes (r : u.Renaming) (x x' : String) : Prop :=
  ∃ s t fuel key s₁ key' s₁', Relation.ReflTransGen u.Looks u.start s ∧
    u.keyOf fuel t s = some (key, s₁) ∧ r.target.keyOf fuel t (r.table s) = some (key', s₁') ∧
    Across key key' x x'

variable (r) in
/-- The texts that stand for types in keys are equal before the renaming if and only if they are
equal after it. -/
def KeepsTexts : Prop :=
  ∀ {x x' y y' : String}, r.TextBecomes x x' → r.TextBecomes y y' → (x = y ↔ x' = y')

/-- The key after the renaming. -/
abbrev KeyBecomes (r : u.Renaming) : TypeKey → TypeKey → Prop := Related Eq r.TextBecomes

/-- **Keys are told apart alike before and after the renaming.** -/
theorem isEqual_becomes (htexts : r.KeepsTexts) {a a' b b' : TypeKey} (ha : r.KeyBecomes a a')
    (hb : r.KeyBecomes b b') : a'.isEqual b' = a.isEqual b :=
  TypeKey.isEqual_of_related (by rintro σ _ τ _ rfl rfl; rfl) htexts a a' b b' ha hb

theorem keyOf_seen (hcircles : r.KeepsCircles) (hwords : r.KeepsWords) (fuel : Nat) (t : TypeId) :
    Mirrors r.Seen r.KeyBecomes (u.keyOf fuel t) (r.target.keyOf fuel t) := by
  rintro s _ ⟨hlooks, rfl⟩ key s₁ hrun
  obtain ⟨key', s₁', hrun', hrel, hkey⟩ :=
    keyWithin_seen hcircles hwords fuel [] t s _ ⟨hlooks, rfl⟩ key s₁ hrun
  exact ⟨key', s₁', hrun', hrel, hkey.across.mono fun x x' hacross =>
    ⟨s, t, fuel, key, s₁, key', s₁', hlooks, hrun, hrun', hacross⟩⟩

theorem keyOfBranches_seen (hcircles : r.KeepsCircles) (hwords : r.KeepsWords) (fuel : Nat)
    (ts : List TypeId) : Mirrors r.Seen r.KeyBecomes (u.keyOfBranches fuel ts)
      (r.target.keyOfBranches fuel ts) := by
  have hself := keyOf_seen hcircles hwords fuel
  match ts with
  | [] => exact .pure .null
  | [t] => exact hself t
  | t :: t' :: ts =>
    exact (Mirrors.mapM (List.forall₂_same.2 fun t _ => hself t)).bind fun keys keys' hkeys =>
      .pure (.union hkeys)

end Renaming
end Universe
end TypedJson
