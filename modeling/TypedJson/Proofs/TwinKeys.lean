import TypedJson.Proofs.Twins
import TypedJson.Proofs.KeyRelation
/-!
# Texts and keys of twins

Twins have the same text (`display_follows`).  Their keys need not be the same, since an object
without a name has its handle for an identity; but the keys are twins (`keyWithin_follows`), and
twin keys are told apart alike (`TwinKey.discerned`).

Keys contain handles in one place only, the identity of an object without a name.  So twin
keys differ there, and there alone; and since twins are told apart alike, a table of keys
and the table of their twins answer the same numbers.
-/
namespace TypedJson

open Session

/-! ## Texts

The text of a type asks for the texts of its parts and members, each twin to one on the
other side, and joins them in the same way. -/

namespace Universe

variable {u : Universe} {w : Sides u} {t t' : TypeId}

/-- The second computation shows a type by the same text as the first one shows its twin. -/
def ShowsAlike (u : Universe) (show₁ : TypeId → Session String)
    (show₂ : Nat → TypeId → Session String) : Prop :=
  ∀ {w : Sides u} {t t' : TypeId}, w.Twin t t' →
    Follows InTables w (show₁ t) (fun fuel => show₂ fuel t') fun _ a b => a = b

variable {show₁ : TypeId → Session String} {show₂ : Nat → TypeId → Session String}

theorem ShowsAlike.mapM (hshow : u.ShowsAlike show₁ show₂) {ts ts' : List TypeId}
    (hts : w.Twins ts ts') :
    Follows InTables w (ts.mapM show₁) (fun fuel => ts'.mapM (show₂ fuel)) fun _ as bs => as = bs :=
  .mapM_eq (fun _ _ _ _ h ht => ht.later h) hts fun _ _ _ _ ht => hshow ht

theorem genericText_follows (hshow : u.ShowsAlike show₁ show₂) {symbol : Symbol}
    {args args' : List TypeId} (hargs : w.Twins args args') :
    Follows InTables w (u.genericText show₁ ⟨symbol, args⟩)
      (fun fuel => u.genericText (show₂ fuel) ⟨symbol, args'⟩) fun _ a b => a = b := by
  unfold genericText
  cases hargs with
  | nil => exact .pure rfl
  | cons harg hargs =>
    refine (hshow.mapM (.cons harg hargs)).bind fun _ as bs _ heq => .pure ?_
    rw [heq]

theorem memberText_follows (hshow : u.ShowsAlike show₁ show₂) {m m' : TypeMember}
    (hm : w.TwinMember m m') :
    Follows InTables w (memberText show₁ m) (fun fuel => memberText (show₂ fuel) m')
      fun _ a b => a = b := by
  obtain ⟨n, optional, type⟩ := m
  obtain ⟨n', optional', type'⟩ := m'
  obtain ⟨hname, hoptional, htype⟩ := hm
  obtain rfl : n' = n := hname
  obtain rfl : optional' = optional := hoptional
  unfold memberText
  cases type with
  | none =>
    cases type' with
    | none => exact .pure rfl
    | some t' => cases htype
  | some t =>
    cases type' with
    | none => cases htype
    | some t' =>
      obtain ⟨ht, -⟩ := List.forall₂_cons.1 htype
      refine (hshow ht).bind fun _ a b _ heq => .pure ?_
      rw [heq]

/-- **Twins have the same text.** -/
theorem display_follows (hcircular : ∀ n, ¬ u.Circular n)
    (hcyclic : ∀ s, u.Reaches u.start s → ¬ u.Cyclic s) :
    ∀ fuel, u.ShowsAlike (u.display fuel) (fun fuel => u.display fuel)
  | 0, _, _, _, _ => fun _ _ _ _ _ hrun => by cases hrun
  | fuel + 1, w, t, t', ht => by
    have hshow : u.ShowsAlike (u.display fuel) (fun fuel => u.display fuel) :=
      display_follows hcircular hcyclic fuel
    refine .succ ?_
    simp only [display]
    refine query_follows ?_
    have hdata := ht.data
    generalize w.left.table.data t = d at hdata
    generalize w.right.table.data t' = d' at hdata
    cases hdata with
    | intrinsic => exact .pure rfl
    | literal => exact .pure rfl
    | unresolved => exact .pure rfl
    | param => exact .pure rfl
    | array hx =>
      refine (hshow hx).bind fun w' a b h heq => query_follows ?_
      obtain rfl := heq
      have helement := (hx.later h).data
      generalize w'.left.table.data _ = e at helement
      generalize w'.right.table.data _ = e' at helement
      cases helement with
      | _ => exact .pure rfl
    | reference hargs => exact genericText_follows hshow hargs
    | union hbs =>
      refine (hshow.mapM hbs).bind fun _ as bs _ heq => .pure ?_
      rw [heq]
    | namedUnion hargs => exact genericText_follows hshow hargs
    | named hargs => exact genericText_follows hshow hargs
    | inline =>
      refine (list_follows hcircular hcyclic .members ht fuel).bind fun w' ms ms' _ hms => ?_
      refine (Follows.mapM_eq (fun _ _ _ _ h hm => hm.later h) hms.members
        fun _ _ _ _ hm => memberText_follows hshow hm).bind fun _ as bs _ heq => ?_
      obtain rfl := heq
      split
      · exact .pure rfl
      · exact .pure rfl
    | intersection hparts =>
      refine (hshow.mapM hparts).bind fun _ as bs _ heq => .pure ?_
      rw [heq]

end Universe

/-! ## Symbols and keys -/

namespace Sides

variable {u : Universe} {w w' : Sides u}

/-- Only the symbols of objects without a name depend on the table. -/
inductive TwinSymbol (w : Sides u) : Symbol → Symbol → Prop
  | same {symbol : Symbol} (h : ∀ t, symbol ≠ .anonymous t) : TwinSymbol w symbol symbol
  | anonymous {t t' : TypeId} (h : w.Twin t t') : TwinSymbol w (.anonymous t) (.anonymous t')

inductive TwinKey (w : Sides u) : TypeKey → TypeKey → Prop
  | null : TwinKey w .null .null
  | undefined : TwinKey w .undefined .undefined
  | literal {value : Literal} : TwinKey w (.literal value) (.literal value)
  | intrinsic {i : Intrinsic} : TwinKey w (.intrinsic i) (.intrinsic i)
  | symbol {σ σ' : Symbol} (h : w.TwinSymbol σ σ') : TwinKey w (.symbol σ) (.symbol σ')
  | generic {σ σ' : Symbol} {args args' : List TypeKey} (h : w.TwinSymbol σ σ')
    (hargs : List.Forall₂ (TwinKey w) args args') : TwinKey w (.generic σ args) (.generic σ' args')
  | union {branches branches' : List TypeKey} (h : List.Forall₂ (TwinKey w) branches branches') :
    TwinKey w (.union branches) (.union branches')
  | recursive {σ σ' : Symbol} (h : w.TwinSymbol σ σ') : TwinKey w (.recursive σ) (.recursive σ')
  | opaqueText {text : String} : TwinKey w (.opaqueText text) (.opaqueText text)

abbrev TwinKeys (w : Sides u) : List TypeKey → List TypeKey → Prop := List.Forall₂ w.TwinKey

variable {σ σ' τ τ' : Symbol}

theorem TwinSymbol.later (h : w.TwinSymbol σ σ') (hlater : w.Later w') : w'.TwinSymbol σ σ' := by
  cases h with
  | same h => exact .same h
  | anonymous h => exact .anonymous (h.later hlater)

theorem TwinSymbol.eq_iff (h : w.TwinSymbol σ σ') (h' : w.TwinSymbol τ τ') : σ = τ ↔ σ' = τ' := by
  cases h with
  | same hσ =>
    cases h' with
    | same => exact .rfl
    | anonymous => exact ⟨fun heq => absurd heq (hσ _), fun heq => absurd heq (hσ _)⟩
  | anonymous ht =>
    cases h' with
    | same hτ => exact ⟨fun heq => absurd heq.symm (hτ _), fun heq => absurd heq.symm (hτ _)⟩
    | anonymous hx => rw [Symbol.anonymous.injEq, Symbol.anonymous.injEq, ht.eq_iff hx]

theorem TwinKey.later (hlater : w.Later w') : ∀ (a : TypeKey) {a' : TypeKey}, w.TwinKey a a' →
    w'.TwinKey a a'
  | a, _, ha => by
    cases ha with
    | null => exact .null
    | undefined => exact .undefined
    | literal => exact .literal
    | intrinsic => exact .intrinsic
    | symbol h => exact .symbol (h.later hlater)
    | generic h hargs =>
      exact .generic (h.later hlater) (forall₂_imp_mem hargs fun x hx _ _ h => TwinKey.later hlater x h)
    | union h => exact .union (forall₂_imp_mem h fun x hx _ _ h => TwinKey.later hlater x h)
    | recursive h => exact .recursive (h.later hlater)
    | opaqueText => exact .opaqueText
termination_by a => sizeOf a
decreasing_by
  · exact TypeKey.sizeOf_argument_lt hx
  · exact TypeKey.sizeOf_branch_lt hx

/-! ## Twin keys are told apart alike

Equality of keys was related to a relation of two arguments before; here each argument is
replaced by its twin. -/

theorem TwinKey.related : ∀ (a : TypeKey) {a' : TypeKey}, w.TwinKey a a' →
    TypeKey.Related w.TwinSymbol Eq a a'
  | a, _, ha => by
    cases ha with
    | null => exact .null
    | undefined => exact .undefined
    | literal => exact .literal
    | intrinsic => exact .intrinsic
    | symbol h => exact .symbol h
    | generic h hargs =>
      exact .generic h (forall₂_imp_mem hargs fun x hx _ _ h => TwinKey.related x h)
    | union h => exact .union (forall₂_imp_mem h fun x hx _ _ h => TwinKey.related x h)
    | recursive h => exact .recursive h
    | opaqueText => exact .opaqueText rfl
termination_by a => sizeOf a
decreasing_by
  · exact TypeKey.sizeOf_argument_lt hx
  · exact TypeKey.sizeOf_branch_lt hx

/-- With any other key, the key and its twins are told apart alike. -/
def Discerned (w : Sides u) (a : TypeKey) : Prop :=
  ∀ a' b b', w.TwinKey a a' → w.TwinKey b b' → TypeKey.isEqual a' b' = TypeKey.isEqual a b

/-- **Twin keys are told apart alike.** -/
theorem TwinKey.discerned (w : Sides u) (a : TypeKey) : w.Discerned a := fun a' b b' ha hb =>
  TypeKey.isEqual_of_related TwinSymbol.eq_iff (by rintro x _ y _ rfl rfl; rfl) a a' b b'
    ha.related hb.related

/-! ## Keys of twins

The unions that are opened are twins too, so whether a union is open has the same answer. -/

variable {t t' : TypeId}

theorem TwinData.symbol? {d d' : TypeData} (h : w.TwinData d d') (hlawful : u.Lawful d)
    (ht : w.Twin t t') : Option.Rel w.TwinSymbol (d.symbol? t) (d'.symbol? t') := by
  have hdeclared : ∀ {id : DeclarationId} {symbol : Symbol}, symbol = .declared id →
      w.TwinSymbol symbol symbol := by
    rintro id _ rfl
    exact .same fun _ heq => by cases heq
  cases h with
  | intrinsic => exact .none
  | literal => exact .none
  | unresolved => exact .none
  | union => exact .none
  | param =>
    obtain ⟨id, position, -, rfl, -⟩ := hlawful
    exact .some (.same fun _ heq => by cases heq)
  | array => exact .some (.same fun _ heq => by cases heq)
  | reference =>
    rcases hlawful with ⟨b, -, heq⟩ | ⟨id, -, heq, -⟩
    · cases heq
      exact .some (.same fun _ heq => by cases heq)
    · exact .some (hdeclared heq)
  | namedUnion =>
    obtain ⟨id, -, -, heq, -⟩ := hlawful
    exact .some (hdeclared heq)
  | @named _ _ _ shape =>
    cases shape with
    | record =>
      cases hlawful
      exact .some (.same fun _ heq => by cases heq)
    | _ =>
      obtain ⟨id, -, -, heq, -⟩ := hlawful
      exact .some (hdeclared heq)
  | inline => exact .some (.anonymous ht)
  | intersection => exact .some (.anonymous ht)

theorem Twins.contains_eq {ts ts' : List TypeId} (hts : w.Twins ts ts') (ht : w.Twin t t') :
    ts'.contains t' = ts.contains t := by
  rw [Bool.eq_iff_iff, List.contains_iff_mem, List.contains_iff_mem, hts.mem_iff ht]

end Sides

namespace Universe

open Sides

variable {u : Universe} {w : Sides u} {t t' : TypeId}

/-- The second computation gives a type a twin of the key that the first one gives its twin. -/
def KeysAlike (u : Universe) (key₁ : List TypeId → TypeId → Session TypeKey)
    (key₂ : Nat → List TypeId → TypeId → Session TypeKey) : Prop :=
  ∀ {w : Sides u} {opened opened' : List TypeId} {t t' : TypeId}, w.Twins opened opened' →
    w.Twin t t' → Follows InTables w (key₁ opened t) (fun fuel => key₂ fuel opened' t')
      fun w' a b => w'.TwinKey a b

theorem KeysAlike.mapM {key₁ : List TypeId → TypeId → Session TypeKey}
    {key₂ : Nat → List TypeId → TypeId → Session TypeKey} (hkey : u.KeysAlike key₁ key₂)
    {opened opened' ts ts' : List TypeId} (hopened : w.Twins opened opened')
    (hts : w.Twins ts ts') : Follows InTables w (ts.mapM (key₁ opened))
      (fun fuel => ts'.mapM (key₂ fuel opened')) fun w' as bs => w'.TwinKeys as bs :=
  .mapM (fun _ _ _ _ h ht => ht.later h) (fun _ _ a _ h ha => ha.later h a) hts
    fun _ _ _ h _ ht => hkey (hopened.later h) ht

/-- **The keys of twins are twins.** -/
theorem keyWithin_follows (hcircular : ∀ n, ¬ u.Circular n)
    (hcyclic : ∀ s, u.Reaches u.start s → ¬ u.Cyclic s) :
    ∀ fuel, u.KeysAlike (u.keyWithin fuel) (fun fuel => u.keyWithin fuel)
  | 0, _, _, _, _, _, _, _ => fun _ _ _ _ _ hrun => by cases hrun
  | fuel + 1, w, opened, opened', t, t', hopened, ht => by
    have hkey : u.KeysAlike (u.keyWithin fuel) (fun fuel => u.keyWithin fuel) :=
      keyWithin_follows hcircular hcyclic fuel
    have htext : Follows InTables w (do pure (.opaqueText (← u.display fuel t)))
        (fun fuel => do pure (.opaqueText (← u.display fuel t'))) fun w' a b => w'.TwinKey a b :=
      (display_follows hcircular hcyclic fuel ht).bind fun _ a b _ heq => .pure (by
        rw [heq]
        exact .opaqueText)
    refine .succ ?_
    simp only [keyWithin]
    refine query_follows ?_
    have hdata := ht.data
    have hsymbol := hdata.symbol? (w.left_standing.prepared.kept.sound.lawful t) ht
    have hunion := hdata.union?
    have harguments := hdata.arguments
    rw [hdata.intrinsic?, hdata.literal?]
    cases (w.left.table.data t).intrinsic? with
    | some i =>
      cases i with
      | null => exact .pure .null
      | undefined => exact .pure .undefined
      | _ => exact .pure .intrinsic
    | none =>
      cases (w.left.table.data t).literal? with
      | some value => exact .pure .literal
      | none =>
        generalize (w.left.table.data t).symbol? t = symbol at hsymbol
        generalize (w.right.table.data t').symbol? t' = symbol' at hsymbol
        generalize (w.left.table.data t).union? = branches at hunion
        generalize (w.right.table.data t').union? = branches' at hunion
        generalize (w.left.table.data t).arguments = args at harguments
        generalize (w.right.table.data t').arguments = args' at harguments
        cases hunion with
        | some hbs =>
          rw [hopened.contains_eq ht]
          cases opened.contains t with
          | true =>
            cases hsymbol with
            | some h => exact .pure (.recursive h)
            | none => exact htext
          | false =>
            exact (hkey.mapM (.cons ht hopened) hbs).bind fun _ _ _ _ h => .pure (.union h)
        | none =>
          cases hsymbol with
          | none => exact htext
          | some h =>
            cases harguments with
            | nil => exact .pure (.symbol h)
            | cons harg hargs =>
              exact (hkey.mapM hopened (.cons harg hargs)).bind fun _ _ _ hlater hkeys =>
                .pure (.generic (h.later hlater) hkeys)

theorem keyOfBranches_follows (hcircular : ∀ n, ¬ u.Circular n)
    (hcyclic : ∀ s, u.Reaches u.start s → ¬ u.Cyclic s) (fuel : Nat) {ts ts' : List TypeId}
    (hts : w.Twins ts ts') : Follows InTables w (u.keyOfBranches fuel ts)
      (fun fuel => u.keyOfBranches fuel ts') fun w' a b => w'.TwinKey a b := by
  have hkey : u.KeysAlike (u.keyWithin fuel) (fun fuel => u.keyWithin fuel) :=
    keyWithin_follows hcircular hcyclic fuel
  cases hts with
  | nil => exact .pure .null
  | cons ht hts =>
    cases hts with
    | nil => exact hkey .nil ht
    | cons hx hts =>
      exact (hkey.mapM .nil (.cons ht (.cons hx hts))).bind fun _ _ _ _ h => .pure (.union h)

end Universe
end TypedJson
