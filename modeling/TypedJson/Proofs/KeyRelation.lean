import TypedJson.Proofs.KeyEquality
import TypedJson.Proofs.Session
import TypedJson.Schema.Building
/-!
# Keys of one shape

Two keys have one shape if they differ only in the symbols and the texts in them
(`TypeKey.Related`).  Keys whose symbols and texts are told apart alike are told apart alike
(`TypeKey.isEqual_of_related`), and so are the keys of whole tables (`KeyTable.get?_alike`).

Both uses of this change a table of types into one that says the same in other words:
handles are replaced by those of another history, or names by those of a renaming.  The keys
change with it, and the question is always the same, whether the comparison of keys has the
answers it had.
-/
namespace TypedJson
namespace TypeKey

variable {S : Symbol → Symbol → Prop} {T : String → String → Prop}

/-- The second key is the first with related symbols and texts in it. -/
inductive Related (S : Symbol → Symbol → Prop) (T : String → String → Prop) : TypeKey → TypeKey → Prop
  | null : Related S T .null .null
  | undefined : Related S T .undefined .undefined
  | literal {value : Literal} : Related S T (.literal value) (.literal value)
  | intrinsic {i : Intrinsic} : Related S T (.intrinsic i) (.intrinsic i)
  | symbol {σ σ' : Symbol} (h : S σ σ') : Related S T (.symbol σ) (.symbol σ')
  | generic {σ σ' : Symbol} {args args' : List TypeKey} (h : S σ σ')
    (hargs : List.Forall₂ (Related S T) args args') : Related S T (.generic σ args) (.generic σ' args')
  | union {branches branches' : List TypeKey} (h : List.Forall₂ (Related S T) branches branches') :
    Related S T (.union branches) (.union branches')
  | recursive {σ σ' : Symbol} (h : S σ σ') : Related S T (.recursive σ) (.recursive σ')
  | opaqueText {x x' : String} (h : T x x') : Related S T (.opaqueText x) (.opaqueText x')

theorem Related.mono {T' : String → String → Prop} (h : ∀ x x', T x x' → T' x x') :
    ∀ (a : TypeKey) {a' : TypeKey}, Related S T a a' → Related S T' a a'
  | a, _, ha => by
    cases ha with
    | null => exact .null
    | undefined => exact .undefined
    | literal => exact .literal
    | intrinsic => exact .intrinsic
    | symbol hσ => exact .symbol hσ
    | generic hσ hargs =>
      exact .generic hσ (forall₂_imp_mem hargs fun x hx _ _ hrel => Related.mono h x hrel)
    | union hbranches =>
      exact .union (forall₂_imp_mem hbranches fun x hx _ _ hrel => Related.mono h x hrel)
    | recursive hσ => exact .recursive hσ
    | opaqueText hx => exact .opaqueText (h _ _ hx)
termination_by a => sizeOf a
decreasing_by
  · exact sizeOf_argument_lt hx
  · exact sizeOf_branch_lt hx

/-- The texts stand at one place of the two keys. -/
inductive Across : TypeKey → TypeKey → String → String → Prop
  | here {x x' : String} : Across (.opaqueText x) (.opaqueText x') x x'
  | argument {σ σ' : Symbol} {args args' : List TypeKey} {a a' : TypeKey} {x x' : String}
    (ha : (a, a') ∈ args.zip args') (h : Across a a' x x') :
    Across (.generic σ args) (.generic σ' args') x x'
  | branch {branches branches' : List TypeKey} {a a' : TypeKey} {x x' : String}
    (ha : (a, a') ∈ branches.zip branches') (h : Across a a' x x') :
    Across (.union branches) (.union branches') x x'

theorem Related.across : ∀ (a : TypeKey) {a' : TypeKey}, Related S (fun _ _ => True) a a' →
    Related S (Across a a') a a'
  | a, _, ha => by
    have hparts : ∀ {as as' : List TypeKey} {T : String → String → Prop},
        List.Forall₂ (Related S fun _ _ => True) as as' →
        (∀ x ∈ as, ∀ x', Related S (fun _ _ => True) x x' → Related S (Across x x') x x') →
        (∀ x x', (x, x') ∈ as.zip as' → ∀ y y', Across x x' y y' → T y y') →
        List.Forall₂ (Related S T) as as' := by
      intro as as' T hrel hself hT
      rw [List.forall₂_iff_zip] at hrel ⊢
      exact ⟨hrel.1, fun hx => (hself _ (List.of_mem_zip hx).1 _ (hrel.2 hx)).mono (hT _ _ hx)⟩
    cases ha with
    | null => exact .null
    | undefined => exact .undefined
    | literal => exact .literal
    | intrinsic => exact .intrinsic
    | symbol hσ => exact .symbol hσ
    | generic hσ hargs =>
      exact .generic hσ (hparts hargs (fun x hx _ hrel => Related.across x hrel)
        fun _ _ hx _ _ hacross => .argument hx hacross)
    | union hbranches =>
      exact .union (hparts hbranches (fun x hx _ hrel => Related.across x hrel)
        fun _ _ hx _ _ hacross => .branch hx hacross)
    | recursive hσ => exact .recursive hσ
    | opaqueText hx => exact .opaqueText .here
termination_by a => sizeOf a
decreasing_by
  · exact sizeOf_argument_lt hx
  · exact sizeOf_branch_lt hx

/-- With any other key, the key and the keys of its shape are told apart alike. -/
def Discerned (S : Symbol → Symbol → Prop) (T : String → String → Prop) (a : TypeKey) : Prop :=
  ∀ a' b b', Related S T a a' → Related S T b b' → isEqual a' b' = isEqual a b

theorem areEqual_of_related {as as' bs bs' : List TypeKey} (hdiscerned : ∀ a ∈ as, Discerned S T a)
    (has : List.Forall₂ (Related S T) as as') (hbs : List.Forall₂ (Related S T) bs bs') :
    areEqual as' bs' = areEqual as bs := by
  induction has generalizing bs bs' with
  | nil =>
    cases hbs with
    | nil => rfl
    | cons => rfl
  | cons ha _ ih =>
    cases hbs with
    | nil => rfl
    | cons hb hbs =>
      obtain ⟨hhead, htail⟩ := List.forall_mem_cons.1 hdiscerned
      simp only [areEqual]
      rw [hhead _ _ _ ha hb, ih htail hbs]

theorem takeOut_rel {α β : Type} {R : α → β → Prop} {p : α → Bool} {p' : β → Bool} {bs : List α}
    {bs' : List β} (h : List.Forall₂ R bs bs') (hp : ∀ b b', R b b' → p' b' = p b) :
    Option.Rel (List.Forall₂ R) (takeOut p bs) (takeOut p' bs') := by
  induction h with
  | nil => exact .none
  | @cons b b' bs bs' hb hbs ih =>
    simp only [takeOut]
    rw [hp b b' hb]
    split
    · exact .some hbs
    · generalize takeOut p bs = found at ih
      generalize takeOut p' bs' = found' at ih
      cases ih with
      | none => exact .none
      | some hrest => exact .some (.cons hb hrest)

theorem arePermuted_of_related {as as' bs bs' : List TypeKey} (hdiscerned : ∀ a ∈ as, Discerned S T a)
    (has : List.Forall₂ (Related S T) as as') (hbs : List.Forall₂ (Related S T) bs bs') :
    arePermuted as' bs' = arePermuted as bs := by
  induction has generalizing bs bs' with
  | nil =>
    cases hbs with
    | nil => rfl
    | cons => rfl
  | @cons a _ _ _ ha _ ih =>
    obtain ⟨hhead, htail⟩ := List.forall_mem_cons.1 hdiscerned
    simp only [arePermuted]
    have htake := takeOut_rel hbs fun b b' hb => hhead _ b b' ha hb
    generalize takeOut (fun b => isEqual a b) bs = found at htake
    generalize takeOut _ bs' = found' at htake
    cases htake with
    | none => rfl
    | some hrest => exact ih htail hrest

/-- **Keys with symbols and texts that are told apart alike are told apart alike.** -/
theorem isEqual_of_related
    (hS : ∀ {σ σ' τ τ' : Symbol}, S σ σ' → S τ τ' → (σ = τ ↔ σ' = τ'))
    (hT : ∀ {x x' y y' : String}, T x x' → T y y' → (x = y ↔ x' = y')) :
    ∀ a : TypeKey, Discerned S T a
  | a, _, _, _, ha, hb => by
    have hsymbol : ∀ {σ σ' τ τ' : Symbol}, S σ σ' → S τ τ' → (σ' == τ') = (σ == τ) := by
      intro σ σ' τ τ' h h'
      rw [Bool.eq_iff_iff, beq_iff_eq, beq_iff_eq, hS h h']
    cases ha with
    | null => cases hb with | _ => rfl
    | undefined => cases hb with | _ => rfl
    | literal => cases hb with | _ => rfl
    | intrinsic => cases hb with | _ => rfl
    | symbol h =>
      cases hb with
      | symbol h' => exact hsymbol h h'
      | _ => rfl
    | generic h hargs =>
      cases hb with
      | generic h' hargs' =>
        simp only [isEqual]
        rw [hsymbol h h', areEqual_of_related (fun x hx => isEqual_of_related hS hT x) hargs hargs']
      | _ => rfl
    | union h =>
      cases hb with
      | union h' =>
        simp only [isEqual]
        exact arePermuted_of_related (fun x hx => isEqual_of_related hS hT x) h h'
      | _ => rfl
    | recursive h =>
      cases hb with
      | recursive h' => exact hsymbol h h'
      | _ => rfl
    | opaqueText h =>
      cases hb with
      | opaqueText h' =>
        simp only [isEqual]
        rw [Bool.eq_iff_iff, beq_iff_eq, beq_iff_eq, hT h h']
      | _ => rfl
termination_by a => sizeOf a
decreasing_by
  · exact sizeOf_argument_lt hx
  · exact sizeOf_branch_lt hx

end TypeKey

theorem KeyTable.get?_alike {P : TypeKey → TypeKey → Prop} {keys keys' : KeyTable} {key key' : TypeKey}
    (hP : ∀ a a', P a a' → a'.isEqual key' = a.isEqual key) (h : List.Forall₂
      (fun e e' => P e.1 e'.1 ∧ e.2 = e'.2) keys.entries.toList keys'.entries.toList) :
    keys'.get? key' = keys.get? key := by
  unfold KeyTable.get?
  rw [← Array.find?_toList, ← Array.find?_toList]
  generalize keys.entries.toList = entries at h
  generalize keys'.entries.toList = entries' at h
  induction h with
  | nil => rfl
  | @cons e e' entries entries' he _ ih =>
    rw [List.find?_cons, List.find?_cons, hP e.1 e'.1 he.1]
    cases e.1.isEqual key with
    | true => exact congrArg some he.2.symm
    | false => exact ih

end TypedJson
